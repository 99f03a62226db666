import GraphRewriting.Json.Token
import Mathlib.Data.List.TakeWhile

/-
  String literals and numbers. Scanning what is written for a
  text or a natural number gives it back as one token.

  Main declarations:
    * `textOfPieces?_pieces`
    * `scan_quoted`
    * `scalar?_toDigits`
    * `scan_toDigits`
-/

------------------------------------------------------------
-- Pieces
------------------------------------------------------------

namespace GraphRewriting

/- Control characters that are escaped by a letter. -/
def hasLetter (c : Char) : Bool :=
  c = '\x08' || c = '\x0c' || c = '\n' || c = '\r' || c = '\t'

/- The piece that an escaped character is read as. -/
def pieceOfChar (c : Char) : TextPiece :=
  if c.toNat < 0x20 ∧ hasLetter c = false then
    .unit c.toNat
  else
    .char c

/-
  A unit that is half of no surrogate pair stands
  for its character.
-/
private theorem textOfPieces?_unit
    {unit : Nat}
    (hUnit : unit < 0xD800)
    (rest : List TextPiece) :
    textOfPieces? (.unit unit :: rest) =
      (textOfPieces? rest).map (Char.ofNat unit :: ·) := by
  have hHigh : ¬ IsHighSurrogate unit := fun h =>
    absurd h.1 (by omega)
  have hLow : ¬ IsLowSurrogate unit := fun h =>
    absurd h.1 (by omega)
  cases rest with
  | nil => simp [textOfPieces?, hHigh, hLow]
  | cons piece rest =>
      cases piece with
      | char c => simp [textOfPieces?, hHigh, hLow]
      | unit other => simp [textOfPieces?, hHigh, hLow]
      | stray => simp [textOfPieces?, hHigh, hLow]

/-
  The text of the pieces of some characters
  are the characters.
-/
theorem textOfPieces?_pieces
    (cs : List Char) :
    textOfPieces? (cs.map pieceOfChar) = some cs := by
  induction cs with
  | nil => rfl
  | cons c cs ih =>
      rw [List.map_cons]
      by_cases hUnit : c.toNat < 0x20 ∧ hasLetter c = false
      · have hPiece : pieceOfChar c = .unit c.toNat :=
          if_pos hUnit
        rw [hPiece, textOfPieces?_unit (by omega), ih,
          Option.map_some, Char.ofNat_toNat]
      · have hPiece : pieceOfChar c = .char c := if_neg hUnit
        rw [hPiece, textOfPieces?, ih, Option.map_some]

end GraphRewriting

------------------------------------------------------------
-- Literals
------------------------------------------------------------

namespace GraphRewriting

variable {tokens : List Token}
variable {pieces : List TextPiece}

private theorem hexValue?_hexDigit :
    ∀ digit < 16, hexValue? (hexDigit digit) = some digit := by
  decide

/- Two digits of a unit, behind two zeros. -/
private theorem scan_unit
    (high low : Nat)
    (hHigh : high < 16)
    (hLow : low < 16)
    (rest : Glyphs) :
    scan tokens (.unit pieces 0 0)
        (some '0' :: some '0' :: some (hexDigit high) ::
          some (hexDigit low) :: rest) =
      scan tokens (.literal (.unit (16 * high + low) :: pieces))
        rest := by
  have hZero : hexValue? '0' = some 0 := by decide
  simp [scan, scanGlyph, scanUnit, hZero,
    hexValue?_hexDigit high hHigh, hexValue?_hexDigit low hLow]

/- A character that is written comes back as one piece. -/
private theorem scan_escapeChar
    (c : Char)
    (rest : Glyphs) :
    scan tokens (.literal pieces)
      ((escapeChar c).map some ++ rest) =
      scan tokens (.literal (pieceOfChar c :: pieces))
        rest := by
  unfold escapeChar
  split
  · rename_i h
    subst h
    rfl
  split
  · rename_i h
    subst h
    rfl
  split
  · rename_i h
    subst h
    rfl
  split
  · rename_i h
    subst h
    rfl
  split
  · rename_i h
    subst h
    rfl
  split
  · rename_i h
    subst h
    rfl
  split
  · rename_i h
    subst h
    rfl
  rename_i hQuote hBackslash hb hf hn hr ht
  have hLetter : hasLetter c = false := by
    simp [hasLetter, hb, hf, hn, hr, ht]
  split
  · rename_i hControl
    have hPiece : pieceOfChar c = .unit c.toNat :=
      if_pos ⟨hControl, hLetter⟩
    have hValue :
        16 * (c.toNat / 16) + c.toNat % 16 = c.toNat := by
      omega
    have hUnit :=
      @scan_unit tokens pieces (c.toNat / 16) (c.toNat % 16)
        (by omega) (by omega) rest
    rw [hValue] at hUnit
    rw [hPiece, ← hUnit]
    rfl
  · rename_i hControl
    have hPiece : pieceOfChar c = .char c :=
      if_neg fun h => hControl h.1
    rw [hPiece]
    simp [scan, scanGlyph, scanLiteral, hQuote, hBackslash,
      hControl]

/- The characters of a literal come back as its pieces. -/
private theorem scan_escapedChars
    (cs : List Char)
    (rest : Glyphs) :
    scan tokens (.literal pieces)
      ((cs.flatMap escapeChar).map some ++ rest) =
      scan tokens
        (.literal ((cs.map pieceOfChar).reverse ++ pieces))
        rest := by
  induction cs generalizing pieces with
  | nil => rfl
  | cons c cs ih =>
      rw [List.flatMap_cons, List.map_append, List.append_assoc,
        scan_escapeChar, ih]
      simp

/- A quoted text is one token. -/
theorem scan_quoted
    (s : String)
    (rest : Glyphs) :
    scan tokens .between ((quoted s).map some ++ rest) =
      scan (.text (some s) :: tokens) .between rest := by
  have hOpen :
      scan tokens .between ((quoted s).map some ++ rest) =
        scan tokens (.literal [])
          ((s.toList.flatMap escapeChar).map some ++
            (some '"' :: rest)) := by
    unfold quoted
    rw [List.cons_append, List.map_cons, List.map_append,
      List.cons_append, List.append_assoc]
    rfl
  have hClose :
      scan tokens
        (.literal ((s.toList.map pieceOfChar).reverse ++ []))
        (some '"' :: rest) =
        scan
          (literalToken
              ((s.toList.map pieceOfChar).reverse ++ []) ::
            tokens)
          .between
          rest := rfl
  have hToken :
      literalToken ((s.toList.map pieceOfChar).reverse ++ []) =
        .text (some s) := by
    unfold literalToken
    rw [List.append_nil, List.reverse_reverse,
      textOfPieces?_pieces, Option.map_some,
      String.ofList_toList]
  rw [hOpen, scan_escapedChars, hClose, hToken]

end GraphRewriting

------------------------------------------------------------
-- Numbers
------------------------------------------------------------

namespace GraphRewriting

/-
  Numbers are written as digits, and only zero
  starts with a zero.
-/
theorem exists_toDigits_eq_cons
    (n : Nat) :
    ∃ (first : Char) (others : List Char),
      Nat.toDigits 10 n = first :: others ∧
        (n ≠ 0 → first ≠ '0') ∧ (n = 0 → others = []) := by
  induction n using Nat.strongRecOn with
  | ind n ih =>
      rcases Nat.lt_or_ge n 10 with hSmall | hLarge
      · refine
          ⟨n.digitChar, [], Nat.toDigits_of_lt_base hSmall, ?_,
            fun _ => rfl⟩
        intro hn
        rwa [ne_eq, Nat.digitChar_eq_zero]
      · rcases ih (n / 10) (by omega) with
          ⟨first, others, hDigits, hFirst, -⟩
        refine
          ⟨first, others ++ [(n % 10).digitChar], ?_, ?_, ?_⟩
        · rw [Nat.toDigits_of_base_le (by decide) hLarge,
            hDigits]
          rfl
        · intro _
          exact hFirst (by omega)
        · intro hn
          omega

/-
  The digits of a number are its whole part, with
  nothing behind it.
-/
private theorem dropWhole?_toDigits
    (n : Nat) :
    dropWhole? (Nat.toDigits 10 n) = some [] := by
  rcases exists_toDigits_eq_cons n with
    ⟨first, others, hDigits, hFirst, hOthers⟩
  have hAll : ∀ c ∈ first :: others, c.isDigit = true := by
    intro c hc
    rw [← hDigits] at hc
    exact Nat.isDigit_of_mem_toDigits (by decide) (by decide) hc
  rw [List.forall_mem_cons] at hAll
  rw [hDigits]
  by_cases hn : n = 0
  · have hZero : Nat.toDigits 10 n = ['0'] := by
      rw [hn, Nat.toDigits_zero]
    rw [← hDigits, hZero]
    rfl
  · have hDrop :
        dropWhole? (first :: others) =
          dropDigits? (first :: others) := by
      unfold dropWhole?
      split
      · rename_i hEq
        cases hEq
        exact absurd rfl (hFirst hn)
      · rfl
    rw [hDrop, dropDigits?, if_pos hAll.1,
      List.dropWhile_eq_nil_iff.2 hAll.2]

/- The digits of a number spell it. -/
theorem scalar?_toDigits
    (n : Nat) :
    scalar? (Nat.toDigits 10 n) = some (.natural n) := by
  have hWord :
      ∀ word : List Char, (∃ c ∈ word, c.isDigit = false) →
      Nat.toDigits 10 n ≠ word := by
    rintro word ⟨c, hc, hDigit⟩ rfl
    rw [Nat.isDigit_of_mem_toDigits (by decide) (by decide)
      hc] at hDigit
    cases hDigit
  unfold scalar?
  rw [if_neg (hWord _ ⟨'n', by simp, rfl⟩),
    if_neg (hWord _ ⟨'t', by simp, rfl⟩),
    if_neg (hWord _ ⟨'f', by simp, rfl⟩),
    if_pos (dropWhole?_toDigits n),
    Nat.ofDigitChars_ten_toDigits]

/-
  What may stand behind a run: nothing, or a
  glyph that ends it.
-/
def Ends : Glyphs → Prop
  | [] => True
  | some c :: _ => endsRun c = true
  | none :: _ => False

variable {tokens : List Token}

/-
  A run of characters goes on up to a blank, a quote or
  a punctuation mark.
-/
theorem endsRun_eq_false_iff
    {c : Char} :
    endsRun c = false ↔
      isBlank c = false ∧ c ≠ '"' ∧ punctuation? c = none := by
  unfold endsRun
  rw [Bool.or_eq_false_iff, Bool.or_eq_false_iff,
    decide_eq_false_iff_not, Option.isSome_eq_false_iff,
    Option.isNone_iff_eq_none, and_assoc]

/- A digit does not end a run. -/
theorem endsRun_of_isDigit
    {c : Char}
    (h : c.isDigit = true) :
    endsRun c = false := by
  have hNe :
      ∀ other : Char, other.isDigit = false → c ≠ other := by
    rintro other hOther rfl
    rw [h] at hOther
    cases hOther
  have hPunctuation : punctuation? c = none := by
    unfold punctuation?
    split
    · exact absurd rfl (hNe '[' (by decide))
    · exact absurd rfl (hNe ']' (by decide))
    · exact absurd rfl (hNe '\x7b' (by decide))
    · exact absurd rfl (hNe '\x7d' (by decide))
    · exact absurd rfl (hNe ',' (by decide))
    · exact absurd rfl (hNe ':' (by decide))
    · rfl
  rw [endsRun_eq_false_iff]
  refine ⟨?_, hNe '"' (by decide), hPunctuation⟩
  simp [isBlank, hNe ' ' (by decide), hNe '\t' (by decide),
    hNe '\n' (by decide),
    hNe '\r' (by decide)]

/- A run of digits goes on up to its end. -/
private theorem scan_run
    {run : List Char}
    {reversed : List Char}
    (hRun : ∀ c ∈ run, endsRun c = false)
    {value : Json}
    (hValue : scalar? (reversed.reverse ++ run) = some value)
    {rest : Glyphs}
    (hRest : Ends rest) :
    scan tokens (.run reversed) (run.map some ++ rest) =
      scan (.scalar value :: tokens) .between rest := by
  induction run generalizing reversed with
  | nil =>
      rw [List.append_nil] at hValue
      cases rest with
      | nil => simp [scan, hValue]
      | cons glyph rest =>
          cases glyph with
          | none => exact hRest.elim
          | some c =>
              have hEnds : endsRun c = true := hRest
              simp [scan, scanGlyph, hEnds, hValue]
  | cons c run ih =>
      rw [List.forall_mem_cons] at hRun
      have hStep :
          scan tokens (.run reversed)
            ((c :: run).map some ++ rest) =
            scan tokens (.run (c :: reversed))
              (run.map some ++ rest) := by
        simp [scan, scanGlyph, hRun.1]
      rw [hStep]
      apply ih hRun.2
      rw [List.reverse_cons, List.append_assoc]
      exact hValue

/- A scalar is one token when something that ends it follows. -/
theorem scan_scalar
    {first : Char}
    {others : List Char}
    (hAll : ∀ c ∈ first :: others, endsRun c = false)
    {value : Json}
    (hValue : scalar? (first :: others) = some value)
    {rest : Glyphs}
    (hRest : Ends rest) :
    scan tokens .between ((first :: others).map some ++ rest) =
      scan (.scalar value :: tokens) .between rest := by
  rw [List.forall_mem_cons] at hAll
  rcases endsRun_eq_false_iff.1 hAll.1 with
    ⟨hBlank, hQuote, hPunctuation⟩
  have hStep :
      scan tokens .between
        ((first :: others).map some ++ rest) =
        scan tokens (.run [first])
          (others.map some ++ rest) := by
    simp [scan, scanGlyph, scanOutside, hBlank, hQuote,
      hPunctuation]
  have hRun :
      scalar? ([first].reverse ++ others) = some value :=
    hValue
  rw [hStep]
  exact scan_run hAll.2 hRun hRest

/- The digits of a number come back as that number. -/
theorem scan_toDigits
    (n : Nat)
    {rest : Glyphs}
    (hRest : Ends rest) :
    scan tokens .between
      ((Nat.toDigits 10 n).map some ++ rest) =
      scan (.scalar (.natural n) :: tokens) .between rest := by
  rcases exists_toDigits_eq_cons n with
    ⟨first, others, hDigits, -, -⟩
  have hValue := scalar?_toDigits n
  have hAll : ∀ c ∈ Nat.toDigits 10 n, endsRun c = false := by
    intro c hc
    exact endsRun_of_isDigit
      (Nat.isDigit_of_mem_toDigits (by decide) (by decide) hc)
  rw [hDigits] at hValue hAll ⊢
  exact scan_scalar hAll hValue hRest

end GraphRewriting
