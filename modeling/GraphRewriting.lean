import GraphRewriting.Derivation
import GraphRewriting.Document.Text
import GraphRewriting.Proofs.Derivation.Restart
import GraphRewriting.Proofs.Derivation.Storing
import GraphRewriting.Proofs.Derivation.Trees
import GraphRewriting.Proofs.Digraph.Flat
import GraphRewriting.Proofs.Document.Elements
import GraphRewriting.Proofs.Document.Saving
import GraphRewriting.Proofs.Document.Soundness
import GraphRewriting.Proofs.Document.Spelling
import GraphRewriting.Proofs.Exotic.Changes
import GraphRewriting.Proofs.Grammar.Withdrawal
import GraphRewriting.Proofs.IdPool.Calls
import GraphRewriting.Proofs.Matching.Enumeration
import GraphRewriting.Proofs.Matching.Kinds
import GraphRewriting.Proofs.Rewriting.Exactness
import GraphRewriting.Proofs.Rewriting.Independence
