import GraphRewriting.Proofs.Derivation.Failures

/-
  Derivations that return to their start. What was done before
  leaves no trace: whatever is done and asked from then on, the
  answers are those of a derivation that was just made, even
  though its pool may have become a different one.

  Main declarations:
    * `Query`
    * `Request`
    * `Derivation.serve`
    * `Derivation.responses`
    * `Derivation.alike_reset_after`
    * `Derivation.responses_after_reset`
-/

------------------------------------------------------------
-- Requests
------------------------------------------------------------

namespace GraphRewriting

/-
  Something that can be asked of a derivation. How many ids of
  its pool are free without a further chunk is no query.
-/
inductive Query where
  | graph
  | grammar
  | applicableRules
  | hasApplicableRule
  | isSentence
  | terminalNodes
  | nonTerminalNodes
  | symbol (id : NodeId)
  | label (id : NodeId) (key : String)

/- What a derivation tells when it is asked. -/
inductive Finding where
  | graph (graph : Graph)
  | grammar (grammar : Grammar)
  | rules
      (rules :
        Except GrammarError (List (String × List RuleMatch)))
  | anyRule (found : Except GrammarError Bool)
  | sentence (holds : Bool)
  | nodes (ids : List NodeId)
  | text (text : Option String)

/- An action to take, or a query to answer. -/
inductive Request where
  | act (action : Action)
  | ask (query : Query)

/- What comes back from a request. -/
inductive Response where
  | answer (answer : Except GrammarError Reply)
  | finding (finding : Finding)

namespace Derivation

/- Answer a query. -/
def find
    (d : Derivation) :
    Query → Finding
  | .graph => .graph d.graph
  | .grammar => .grammar d.grammar
  | .applicableRules => .rules d.applicableRules
  | .hasApplicableRule => .anyRule d.hasApplicableRule
  | .isSentence => .sentence d.isSentence
  | .terminalNodes => .nodes d.terminalNodes
  | .nonTerminalNodes => .nodes d.nonTerminalNodes
  | .symbol id => .text (d.graph.symbol? id)
  | .label id key => .text (d.graph.label? id key)

/- Take an action, or answer a query and stay as it is. -/
def serve
    (d : Derivation) :
    Request → Derivation × Response
  | .act action =>
      ((d.perform action).1, .answer (d.perform action).2)
  | .ask query => (d, .finding (d.find query))

/- The derivation after some requests. -/
def afterRequests
    (d : Derivation)
    (requests : List Request) : Derivation :=
  requests.foldl (fun d request => (d.serve request).1) d

/- The responses to some requests. -/
def responses
    (d : Derivation) :
    List Request → List Response
  | [] => []
  | request :: requests =>
      (d.serve request).2 ::
        (d.serve request).1.responses requests

end Derivation

end GraphRewriting

------------------------------------------------------------
-- Requests To Like Derivations
------------------------------------------------------------

namespace GraphRewriting

namespace Derivation

variable {d e : Derivation}

/- No query looks at the pool. -/
theorem Alike.find_eq
    (h : Alike d e)
    (query : Query) :
    d.find query = e.find query := by
  cases query <;>
    simp only [find, applicableRules, hasApplicableRule,
      isSentence, terminalNodes, nonTerminalNodes, nodesWhere,
      h.grammar, h.graph]

/- Alike derivations respond alike, and stay alike. -/
theorem Alike.serve
    (h : Alike d e)
    (request : Request) :
    (d.serve request).2 = (e.serve request).2 ∧
      Alike (d.serve request).1 (e.serve request).1 := by
  cases request with
  | act action =>
      rcases h.perform action with ⟨hAnswer, hNext⟩
      exact ⟨congrArg Response.answer hAnswer, hNext⟩
  | ask query =>
      exact ⟨congrArg Response.finding (h.find_eq query), h⟩

theorem Alike.afterRequests
    (h : Alike d e)
    (requests : List Request) :
    Alike (d.afterRequests requests)
      (e.afterRequests requests) := by
  unfold Derivation.afterRequests
  induction requests generalizing d e with
  | nil => exact h
  | cons request requests ih => exact ih (h.serve request).2

theorem Alike.responses_eq
    (h : Alike d e)
    (requests : List Request) :
    d.responses requests = e.responses requests := by
  induction requests generalizing d e with
  | nil => rfl
  | cons request requests ih =>
      rcases h.serve request with ⟨hResponse, hNext⟩
      unfold responses
      rw [hResponse, ih hNext]

end Derivation

end GraphRewriting

------------------------------------------------------------
-- Returning To The Start
------------------------------------------------------------

namespace GraphRewriting

namespace Derivation

variable {d : Derivation}

/- No action changes the graph to go back to. -/
theorem initial_after
    (d : Derivation)
    (actions : List Action) :
    (d.after actions).initial = d.initial :=
  after_preserves (fun reached => reached.initial = d.initial)
    rfl
    fun reached action _ hReached =>
      (reached.frame_perform action).2.trans hReached

/- A derivation opens at the graph that a reset returns to. -/
private theorem initial_of_opening
    {opening : Opening}
    {grammar : Grammar}
    {chunkSize : Nat}
    (hOpening : opening.derivation grammar chunkSize = .ok d) :
    d.initial = d.graph := by
  cases opening with
  | start =>
      rcases start_eq_ok_iff.1 hOpening with
        ⟨graph, copy, -, -, rfl⟩
      rfl
  | continueFrom graph =>
      rcases continueFrom_eq_ok_iff.1 hOpening with ⟨-, rfl⟩
      rfl

/-
  The pool of a new derivation drew the ids of its nodes one by
  one, that of a reset one reserved them. They need not be the
  same, but they have the same numbers in use, whatever was in
  use before.
-/
theorem alike_reset_after
    {opening : Opening}
    {grammar : Grammar}
    {chunkSize : Nat}
    (hOpening : opening.derivation grammar chunkSize = .ok d)
    (hDrawn :
      (NodeId.numbers (opening.drawn grammar chunkSize)).card <
        idLimit)
    (actions : List Action) :
    Alike (d.after actions).reset d := by
  have hOpened : d.IsTracked :=
    (isTracked_of_opening hOpening hDrawn).1
  have hGraph : (d.after actions).reset.graph = d.graph := by
    show (d.after actions).initial = d.graph
    rw [initial_after, initial_of_opening hOpening]
  exact isTracked_reset.alike hOpened (grammar_after d actions)
    (initial_after d actions) hGraph

/-
  A reset is a fresh start. The working graph is the one that
  the derivation had when it was made, and all requests that
  follow get the responses of the new derivation, ids included,
  and lead to the same graphs. The pools have the same numbers
  in use, and may differ in how many ids are free without a
  further chunk. Only the opening needs room for its ids, as a
  reset forgets all that were drawn later.
-/
theorem responses_after_reset
    {opening : Opening}
    {grammar : Grammar}
    {chunkSize : Nat}
    (hOpening : opening.derivation grammar chunkSize = .ok d)
    (hDrawn :
      (NodeId.numbers (opening.drawn grammar chunkSize)).card <
        idLimit)
    (actions : List Action)
    (requests : List Request) :
    let restarted := (d.after actions).reset
    restarted.graph = d.graph ∧
      restarted.responses requests = d.responses requests ∧
        (restarted.afterRequests requests).graph =
          (d.afterRequests requests).graph ∧
          IdPool.SameUse (restarted.afterRequests requests).pool
            (d.afterRequests requests).pool := by
  intro restarted
  have hAlike : Alike restarted d :=
    alike_reset_after hOpening hDrawn actions
  have hLater := hAlike.afterRequests requests
  exact
    ⟨hAlike.graph, hAlike.responses_eq requests, hLater.graph,
      hLater.pool⟩

/- Three nodes in a row. -/
def row : Graph :=
  let nodes := (∅ : Graph).addNodes
    [.ofSymbol .base "A", .ofSymbol (.name "mid") "B",
      .ofSymbol (.name "tip") "A"]
  (nodes.putEdge (.ofLabels .base (.name "mid") ∅)).putEdge
    (.ofLabels (.name "mid") (.name "tip") ∅)

/- The same row under the ids that a new pool gives. -/
def numberedRow : Graph :=
  let nodes := (∅ : Graph).addNodes
    [.ofSymbol (.num 0) "A", .ofSymbol (.num 1) "B",
      .ofSymbol (.num 2) "A"]
  (nodes.putEdge (.ofLabels (.num 0) (.num 1) ∅)).putEdge
    (.ofLabels (.num 1) (.num 2) ∅)

/- The grammar of `sprouting`, started from a row. -/
def sproutingRow : Grammar :=
  { sprouting with startGraph := some row }

def atRow : Derivation :=
  ⟨sproutingRow, (numberNodes ∅ (.ofChunkSize 2) row.nodeIds).2,
    numberedRow, numberedRow⟩

/- The derivation starts, with two nodes numbered. -/
theorem start_sproutingRow :
    Opening.start.derivation sproutingRow 2 = .ok atRow := by
  have hRun :
      advance addRenamed
          ((∅ : Graph).addNodes
            ((numberNodes ∅ (.ofChunkSize 2)
              row.nodeIds).1.rename row.nodes.nodes))
          (row.edges.toList.map
            (numberNodes ∅ (.ofChunkSize 2)
              row.nodeIds).1.renameEdge) =
        (numberedRow, none) := by
    decide +kernel
  unfold Opening.derivation start
  dsimp only [sproutingRow]
  rw [hRun]
  rfl

/-
  The tip of the row is rewritten, and its
  first node is removed.
-/
def rowActions : List Action :=
  [.applyRule "bud" (.node (.num 2)), .removeNode (.num 0)]

/- A node is added next to the row, and rewritten. -/
def rowRequests : List Request :=
  [.act (.addNode "A" ∅),
    .act (.applyRule "bud" (.node (.num 3))), .ask .graph,
    .ask .applicableRules, .act (.addNode "C" ∅), .act .reset,
    .ask .terminalNodes]

/-
  The pool drew three ids from chunks of two, so one is left of
  the second chunk. After the reset, none is left of the first.
-/
theorem responses_after_reset_row :
    Opening.start.derivation sproutingRow 2 = .ok atRow ∧
      (atRow.after rowActions).graph.nodeIds =
        [.num 1, .num 3, .num 4] ∧
        (atRow.after rowActions).reset.pool.available ≠
          atRow.pool.available ∧
          (atRow.after rowActions).reset.graph = numberedRow ∧
            (atRow.after rowActions).reset.responses
              rowRequests =
              atRow.responses rowRequests := by
  have hDrawn :
      (NodeId.numbers
          (Opening.start.drawn sproutingRow 2)).card <
        idLimit := by
    decide +kernel
  rcases
      responses_after_reset start_sproutingRow hDrawn rowActions
        rowRequests with
    ⟨hGraph, hResponses, -⟩
  exact
    ⟨start_sproutingRow, by decide +kernel, by decide +kernel,
      hGraph, hResponses⟩

end Derivation

end GraphRewriting
