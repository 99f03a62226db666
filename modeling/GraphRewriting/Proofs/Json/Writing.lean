import GraphRewriting.Json.Layout
import GraphRewriting.Json.Nesting
import GraphRewriting.Proofs.Json.Literals

/-
  The round trip of JSON values through text, in every layout.

  Main declarations:
    * `Json.IsKept`
    * `Json.Spells`
    * `Json.exists_spells_write`
    * `Json.ofGlyphs?_write`
-/

------------------------------------------------------------
-- Values That Are Kept
------------------------------------------------------------

namespace GraphRewriting

namespace Json

/-
  Values that are written without loss: they hold no text that
  is garbled and no number that is not natural.
-/
inductive IsKept : Json → Prop where
  | null : IsKept .null
  | bool
      (value : Bool) :
      IsKept (.bool value)
  | natural
      (value : Nat) :
      IsKept (.natural value)
  | text
      (value : String) :
      IsKept (.text value)
  | array
      {items : List Json}
      (h : ∀ item ∈ items, IsKept item) :
      IsKept (.array items)
  | object
      {members : List (String × Json)}
      (h : ∀ member ∈ members, IsKept member.2) :
      IsKept (.object members)

/-
  A text is cut into the tokens of a value when something
  follows that ends a run, and the tokens nest to the value.
-/
structure Spells
    (text : List Char)
    (made : List Token)
    (value : Json) : Prop where
  scans :
    ∀ (tokens : List Token) (rest : Glyphs),
      Ends rest →
        scan tokens .between (text.map some ++ rest) =
          scan (made.reverse ++ tokens) .between rest
  nests :
    ∀ (stack : List Frame) (rest : List Token),
      nest .value stack (made ++ rest) =
        nest (.after value) stack rest

end Json

end GraphRewriting

------------------------------------------------------------
-- Blanks And Punctuation
------------------------------------------------------------

namespace GraphRewriting

variable {tokens : List Token}

private theorem scan_blanks
    (count : Nat)
    (rest : Glyphs) :
    scan tokens .between
      ((List.replicate count ' ').map some ++ rest) =
      scan tokens .between rest := by
  induction count with
  | zero => rfl
  | succ count ih => exact ih

theorem scan_lineBreak
    (layout : Layout)
    (rest : Glyphs) :
    scan tokens .between (layout.lineBreak.map some ++ rest) =
      scan tokens .between rest := by
  cases layout with
  | compact => rfl
  | indented level => exact scan_blanks (2 * level) rest

theorem scan_colon
    (layout : Layout)
    (rest : Glyphs) :
    scan tokens .between (layout.colon.map some ++ rest) =
      scan (.colon :: tokens) .between rest := by
  cases layout <;> rfl

/-
  A line break, or what follows if there is none, ends a run.
-/
theorem ends_lineBreak
    (layout : Layout)
    {rest : Glyphs}
    (hRest : Ends rest) :
    Ends (layout.lineBreak.map some ++ rest) := by
  cases layout with
  | compact => exact hRest
  | indented level => rfl

/- Items end what stands before them. -/
theorem ends_writeItems
    (layout : Layout)
    (items : List Json)
    {rest : Glyphs}
    (hRest : Ends rest) :
    Ends ((Json.writeItems layout items).map some ++ rest) := by
  cases items with
  | nil =>
      rw [Json.writeItems]
      exact hRest
  | cons item items =>
      rw [Json.writeItems]
      rfl

theorem ends_writeMembers
    (layout : Layout)
    (members : List (String × Json))
    {rest : Glyphs}
    (hRest : Ends rest) :
    Ends
      ((Json.writeMembers layout members).map some ++
        rest) := by
  cases members with
  | nil =>
      rw [Json.writeMembers]
      exact hRest
  | cons member members =>
      rcases member with ⟨key, value⟩
      rw [Json.writeMembers]
      rfl

end GraphRewriting

------------------------------------------------------------
-- Items And Members
------------------------------------------------------------

namespace GraphRewriting

namespace Json

/-
  The items behind the first one of an array
  are read behind it.
-/
theorem exists_spells_writeItems
    {layout : Layout}
    {items : List Json}
    (hItems :
      ∀ item ∈ items,
        ∃ made : List Token,
          Spells (write layout item) made item) :
    ∃ made : List Token,
      (∀ (tokens : List Token) (rest : Glyphs),
          Ends rest →
            scan tokens .between
              ((writeItems layout items).map some ++ rest) =
              scan (made.reverse ++ tokens) .between rest) ∧
        ∀ (value : Json) (before : List Json)
            (stack : List Frame) (rest : List Token),
          nest (.after value) (.array before :: stack)
            (made ++ .closeArray :: rest) =
            nest
              (.after
                (.array (before.reverse ++ value :: items)))
              stack rest := by
  induction items with
  | nil =>
      refine ⟨[], ?_, ?_⟩
      · intro tokens rest _
        rw [writeItems]
        rfl
      · intro value before stack rest
        simp [nest, nestToken, closeValue, Frame.close]
  | cons item items ih =>
      rw [List.forall_mem_cons] at hItems
      rcases hItems.1 with ⟨made, hMade⟩
      rcases ih hItems.2 with ⟨others, hScan, hNest⟩
      refine ⟨.comma :: (made ++ others), ?_, ?_⟩
      · intro tokens rest hRest
        have hComma :
            scan tokens .between
              ((writeItems layout (item :: items)).map some ++
                rest) =
              scan (.comma :: tokens) .between
                (layout.lineBreak.map some ++
                  ((write layout item).map some ++
                    ((writeItems layout items).map some ++
                      rest))) := by
          rw [writeItems, List.map_cons, List.map_append,
            List.map_append, List.cons_append,
            List.append_assoc, List.append_assoc]
          rfl
        rw [hComma, scan_lineBreak,
          hMade.scans _ _ (ends_writeItems layout items hRest),
          hScan _ _ hRest]
        simp
      · intro value before stack rest
        have hComma :
            nest (.after value) (.array before :: stack)
                (.comma :: (made ++ others) ++
                  .closeArray :: rest) =
              nest .value (.array (value :: before) :: stack)
                (made ++ (others ++ .closeArray :: rest)) := by
          rw [List.cons_append, List.append_assoc]
          rfl
        rw [hComma, hMade.nests, hNest, List.reverse_cons,
          List.append_assoc]
        rfl

/-
  The members behind the first one of an object
  are read behind it.
-/
theorem exists_spells_writeMembers
    {layout : Layout}
    {members : List (String × Json)}
    (hMembers :
      ∀ member ∈ members,
        ∃ made : List Token,
          Spells (write layout member.2) made member.2) :
    ∃ made : List Token,
      (∀ (tokens : List Token) (rest : Glyphs),
          Ends rest →
            scan tokens .between
              ((writeMembers layout members).map some ++ rest) =
              scan (made.reverse ++ tokens) .between rest) ∧
        ∀ (value : Json) (before : List (String × Json))
            (key : String) (stack : List Frame)
            (rest : List Token),
          nest (.after value)
            (.object (some before) (some key) :: stack)
              (made ++ .closeObject :: rest) =
            nest
              (.after
                (.object
                  (before.reverse ++ (key, value) :: members)))
              stack
              rest := by
  induction members with
  | nil =>
      refine ⟨[], ?_, ?_⟩
      · intro tokens rest _
        rw [writeMembers]
        rfl
      · intro value before key stack rest
        simp [nest, nestToken, closeValue, Frame.close]
  | cons member members ih =>
      rcases member with ⟨next, item⟩
      rw [List.forall_mem_cons] at hMembers
      rcases hMembers.1 with ⟨made, hMade⟩
      rcases ih hMembers.2 with ⟨others, hScan, hNest⟩
      refine
        ⟨.comma :: .text (some next) :: .colon ::
            (made ++ others),
          ?_, ?_⟩
      · intro tokens rest hRest
        have hComma :
            scan tokens .between
                ((writeMembers layout
                      ((next, item) :: members)).map
                    some ++
                  rest) =
              scan (.comma :: tokens) .between
                (layout.lineBreak.map some ++
                  ((quoted next).map some ++
                    (layout.colon.map some ++
                      ((write layout item).map some ++
                        ((writeMembers layout members).map
                          some ++ rest))))) := by
          rw [writeMembers, List.map_cons, List.map_append,
            List.map_append, List.map_append, List.map_append,
            List.cons_append, List.append_assoc,
            List.append_assoc, List.append_assoc,
            List.append_assoc]
          rfl
        rw [hComma, scan_lineBreak, scan_quoted, scan_colon,
          hMade.scans _ _
            (ends_writeMembers layout members hRest),
          hScan _ _ hRest]
        simp
      · intro value before key stack rest
        have hComma :
            nest (.after value)
              (.object (some before) (some key) :: stack)
                (.comma :: .text (some next) :: .colon ::
                  (made ++ others) ++
                  .closeObject :: rest) =
              nest .value
                (.object (some ((key, value) :: before))
                    (some next) ::
                  stack)
                (made ++ (others ++ .closeObject :: rest)) := by
          rw [List.cons_append, List.cons_append,
            List.cons_append, List.append_assoc]
          rfl
        rw [hComma, hMade.nests, hNest, List.reverse_cons,
          List.append_assoc]
        rfl

end Json

end GraphRewriting

------------------------------------------------------------
-- Values
------------------------------------------------------------

namespace GraphRewriting

namespace Json

/- A text that scans as a scalar spells it. -/
theorem spells_scalar
    {text : List Char}
    {value : Json}
    (hScan :
      ∀ (tokens : List Token) (rest : Glyphs),
        Ends rest →
          scan tokens .between (text.map some ++ rest) =
            scan (.scalar value :: tokens) .between rest) :
    Spells text [.scalar value] value where
  scans := hScan
  nests _ _ := rfl

/-
  The tokens of a value may also start where an array may end.
-/
private theorem Spells.nests_item
    {text : List Char}
    {made : List Token}
    {value : Json}
    (h : Spells text made value)
    (before : List Json)
    (stack : List Frame)
    (rest : List Token) :
    nest .item (.array before :: stack) (made ++ rest) =
      nest (.after value) (.array before :: stack) rest := by
  have hSome : nest .value [] (made ++ []) = some value := by
    rw [h.nests]
    rfl
  have hSame :
      nest .item (.array before :: stack) (made ++ rest) =
        nest .value (.array before :: stack)
          (made ++ rest) := by
    cases made with
    | nil => cases hSome
    | cons token made =>
        cases token with
        | closeArray => cases hSome
        | openArray => rfl
        | openObject => rfl
        | closeObject => rfl
        | comma => rfl
        | colon => rfl
        | scalar value => rfl
        | text value => rfl
  rw [hSame, h.nests]

/- An array is spelled if its items are. -/
theorem exists_spells_array
    {layout : Layout}
    {items : List Json}
    (hItems :
      ∀ item ∈ items,
        ∃ made : List Token,
          Spells (write layout.deeper item) made item) :
    ∃ made : List Token,
      Spells (write layout (.array items)) made
        (.array items) := by
  cases items with
  | nil =>
      refine ⟨[.openArray, .closeArray], ?_, ?_⟩
      · intro tokens rest _
        rw [write]
        rfl
      · intro stack rest
        rfl
  | cons item items =>
      rw [List.forall_mem_cons] at hItems
      rcases hItems.1 with ⟨made, hMade⟩
      rcases exists_spells_writeItems hItems.2 with
        ⟨others, hScan, hNest⟩
      refine
        ⟨.openArray :: (made ++ (others ++ [.closeArray])), ?_,
          ?_⟩
      · intro tokens rest hRest
        have hClosing :
            Ends
              (layout.lineBreak.map some ++
                (some ']' :: rest)) :=
          ends_lineBreak layout rfl
        have hOpen :
            scan tokens .between
              ((write layout (.array (item :: items))).map
                  some ++
                rest) =
              scan (.openArray :: tokens) .between
                (layout.deeper.lineBreak.map some ++
                  ((write layout.deeper item).map some ++
                    ((writeItems layout.deeper items).map
                      some ++
                      (layout.lineBreak.map some ++
                        (some ']' :: rest))))) := by
          rw [write, List.map_cons, List.map_append,
            List.map_append, List.map_append, List.map_append,
            List.cons_append, List.append_assoc,
            List.append_assoc, List.append_assoc,
            List.append_assoc]
          rfl
        have hClose :
            ∀ tokens : List Token,
              scan tokens .between (some ']' :: rest) =
                scan (.closeArray :: tokens) .between rest :=
              fun _ => rfl
        rw [hOpen, scan_lineBreak,
          hMade.scans _ _
            (ends_writeItems layout.deeper items hClosing),
          hScan _ _ hClosing, scan_lineBreak, hClose]
        simp
      · intro stack rest
        have hOpen :
            nest .value stack
              (.openArray ::
                  (made ++ (others ++ [.closeArray])) ++
                rest) =
              nest .item (.array [] :: stack)
                (made ++ (others ++ .closeArray :: rest)) := by
          rw [List.cons_append, List.append_assoc,
            List.append_assoc]
          rfl
        rw [hOpen, hMade.nests_item, hNest]
        rfl

/- An object is spelled if its members are. -/
theorem exists_spells_object
    {layout : Layout}
    {members : List (String × Json)}
    (hMembers :
      ∀ member ∈ members,
        ∃ made : List Token,
          Spells (write layout.deeper member.2) made member.2) :
    ∃ made : List Token,
      Spells (write layout (.object members)) made
        (.object members) := by
  cases members with
  | nil =>
      refine ⟨[.openObject, .closeObject], ?_, ?_⟩
      · intro tokens rest _
        rw [write]
        rfl
      · intro stack rest
        rfl
  | cons member members =>
      rcases member with ⟨key, value⟩
      rw [List.forall_mem_cons] at hMembers
      rcases hMembers.1 with ⟨made, hMade⟩
      rcases exists_spells_writeMembers hMembers.2 with
        ⟨others, hScan, hNest⟩
      refine ⟨.openObject :: .text (some key) :: .colon ::
        (made ++ (others ++ [.closeObject])), ?_, ?_⟩
      · intro tokens rest hRest
        have hClosing :
            Ends
              (layout.lineBreak.map some ++
                (some '\x7d' :: rest)) :=
          ends_lineBreak layout rfl
        have hOpen :
            scan tokens .between
                ((write layout
                      (.object ((key, value) :: members))).map
                    some ++
                  rest) =
              scan (.openObject :: tokens) .between
                (layout.deeper.lineBreak.map some ++
                  ((quoted key).map some ++
                    (layout.colon.map some ++
                      ((write layout.deeper value).map some ++
                        ((writeMembers layout.deeper
                          members).map some ++
                          (layout.lineBreak.map some ++
                            (some '\x7d' :: rest))))))) := by
          rw [write, List.map_cons, List.map_append,
            List.map_append, List.map_append, List.map_append,
            List.map_append, List.map_append, List.cons_append,
            List.append_assoc, List.append_assoc,
            List.append_assoc, List.append_assoc,
            List.append_assoc, List.append_assoc]
          rfl
        have hClose :
            ∀ tokens : List Token,
              scan tokens .between (some '\x7d' :: rest) =
                scan (.closeObject :: tokens) .between rest :=
              fun _ => rfl
        rw [hOpen, scan_lineBreak, scan_quoted, scan_colon,
          hMade.scans _ _
            (ends_writeMembers layout.deeper members hClosing),
          hScan _ _ hClosing, scan_lineBreak, hClose]
        simp
      · intro stack rest
        have hOpen :
            nest .value stack
                (.openObject :: .text (some key) :: .colon ::
                  (made ++ (others ++ [.closeObject])) ++
                    rest) =
              nest .value
                (.object (some []) (some key) :: stack)
                (made ++ (others ++ .closeObject :: rest)) := by
          rw [List.cons_append, List.cons_append,
            List.cons_append, List.append_assoc,
            List.append_assoc]
          rfl
        rw [hOpen, hMade.nests, hNest]
        rfl

/- What is written for a value spells it. -/
theorem exists_spells_write
    {value : Json}
    (h : value.IsKept)
    (layout : Layout) :
    ∃ made : List Token,
      Spells (write layout value) made value := by
  induction h generalizing layout with
  | null =>
      refine ⟨_, spells_scalar fun tokens rest hRest => ?_⟩
      rw [write]
      exact scan_scalar
        (by simp [endsRun, isBlank, punctuation?]) rfl hRest
  | bool value =>
      refine ⟨_, spells_scalar fun tokens rest hRest => ?_⟩
      cases value with
      | true =>
          rw [write]
          exact scan_scalar
            (by simp [endsRun, isBlank, punctuation?]) rfl hRest
      | false =>
          rw [write]
          exact scan_scalar
            (by simp [endsRun, isBlank, punctuation?]) rfl hRest
  | natural value =>
      refine ⟨_, spells_scalar fun tokens rest hRest => ?_⟩
      rw [write]
      exact scan_toDigits value hRest
  | text value =>
      refine ⟨[.text (some value)], ?_, fun stack rest => rfl⟩
      intro tokens rest _
      rw [write]
      exact scan_quoted value rest
  | array _ ih =>
      exact exists_spells_array fun item hItem =>
        ih item hItem layout.deeper
  | object _ ih =>
      exact exists_spells_object fun member hMember =>
        ih member hMember layout.deeper

/- A value is read back from its text. -/
theorem ofGlyphs?_write
    {value : Json}
    (h : value.IsKept)
    (layout : Layout) :
    ofGlyphs? ((write layout value).map some) = some value := by
  rcases exists_spells_write h layout with ⟨made, hMade⟩
  have hScan := hMade.scans [] [] trivial
  have hNest := hMade.nests [] []
  rw [List.append_nil] at hScan hNest
  unfold ofGlyphs? tokens?
  rw [hScan]
  show nest .value [] (made.reverse ++ []).reverse = _
  rw [List.append_nil, List.reverse_reverse, hNest]
  rfl

/- What the compact layout writes is read back. -/
theorem ofString?_compact
    {value : Json}
    (h : value.IsKept) :
    ofString? value.compact = some value := by
  unfold ofString? glyphsOfString compact
  rw [String.toList_ofList]
  exact ofGlyphs?_write h .compact

theorem ofString?_pretty
    {value : Json}
    (h : value.IsKept) :
    ofString? value.pretty = some value := by
  unfold ofString? glyphsOfString pretty
  rw [String.toList_ofList]
  exact ofGlyphs?_write h (.indented 0)

end Json

end GraphRewriting
