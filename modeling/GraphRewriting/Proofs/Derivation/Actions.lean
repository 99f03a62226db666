import GraphRewriting.Derivation
import GraphRewriting.Proofs.IdPool.InUse
import GraphRewriting.Proofs.Rewriting.Outcomes
import GraphRewriting.Proofs.Traversal

/-
  Derivations over whole runs: how they open, the actions that
  can be taken and what these answer. Two derivations that
  differ in their pools alone, and have the same numbers in
  use, answer alike.

  Main declarations:
    * `Action`
    * `Derivation.perform`
    * `Derivation.after`
    * `Derivation.answers`
    * `Opening`
    * `Derivation.start_eq_ok_iff`
    * `Derivation.continueFrom_eq_ok_iff`
    * `Derivation.attempt_preserves`
    * `Derivation.after_preserves`
    * `Derivation.Alike`
    * `Derivation.Alike.answers_eq`
-/

------------------------------------------------------------
-- Actions
------------------------------------------------------------

namespace GraphRewriting

/- Something that can be done to a derivation. -/
inductive Action where
  | applyRule (name : String) (found : RuleMatch)
  | addNode (symbol : String) (labels : Labels)
  | removeNode (id : NodeId)
  | addEdge (edge : Edge)
  | removeEdge (start stop : NodeId)
  | reset

/- What an action tells when it succeeds. -/
inductive Reply where
  | done
  | added (id : NodeId)
  | removedNode (node : Option Node)
  | removedEdge (edge : Option Edge)
  | rewritten (rewrite : Rewrite)

namespace Derivation

/-
  Go on to the next derivation, or stay where
  the step to it fails.
-/
def attempt
    (d : Derivation)
    (reply : Reply)
    (next : Except GrammarError Derivation) :
      Derivation × Except GrammarError Reply :=
  match next with
  | .ok next => (next, .ok reply)
  | .error error => (d, .error error)

/- Take an action. -/
def perform
    (d : Derivation) :
    Action → Derivation × Except GrammarError Reply
  | .applyRule name found =>
      ((d.applyRule name found).1,
        (d.applyRule name found).2.map .rewritten)
  | .addNode symbol labels =>
      ((d.addNode symbol labels).1,
        (d.addNode symbol labels).2.map .added)
  | .removeNode id =>
      d.attempt (.removedNode (d.graph.node? id))
        (d.removeNode id)
  | .addEdge edge => d.attempt .done (d.addEdge edge)
  | .removeEdge start stop =>
      d.attempt (.removedEdge (d.graph.edge? start stop))
        (d.removeEdge start stop)
  | .reset => (d.reset, .ok .done)

/- The derivation after some actions. -/
def after
    (d : Derivation)
    (actions : List Action) : Derivation :=
  actions.foldl (fun d action => (d.perform action).1) d

/- The answers to some actions. -/
def answers
    (d : Derivation) :
    List Action → List (Except GrammarError Reply)
  | [] => []
  | action :: actions =>
      (d.perform action).2 ::
        (d.perform action).1.answers actions

end Derivation

/-
  Where a derivation starts: at the start graph of its
  grammar, or at another graph.
-/
inductive Opening where
  | start
  | continueFrom (graph : Graph)

/- The derivation that an opening leads to. -/
def Opening.derivation
    (opening : Opening)
    (grammar : Grammar)
    (chunkSize : Nat) : Except GrammarError Derivation :=
  match opening with
  | .start => Derivation.start grammar chunkSize
  | .continueFrom graph =>
      Derivation.continueFrom grammar graph chunkSize

end GraphRewriting

------------------------------------------------------------
-- Openings
------------------------------------------------------------

namespace GraphRewriting

namespace Derivation

variable {d : Derivation}
variable {g : Grammar}
variable {chunkSize : Nat}

/-
  A derivation starts at a copy of the start graph, under
  ids from its pool.
-/
theorem start_eq_ok_iff :
    start g chunkSize = .ok d ↔
      ∃ graph copy : Graph,
        let numbered :=
          numberNodes ∅ (.ofChunkSize chunkSize) graph.nodeIds
        g.startGraph = some graph ∧
          advance addRenamed
            ((∅ : Graph).addNodes
              (numbered.1.rename graph.nodes.nodes))
              (graph.edges.toList.map numbered.1.renameEdge) =
            (copy, none) ∧
          d = ⟨g, numbered.2, copy, copy⟩ := by
  unfold start
  cases g.startGraph with
  | none => simp
  | some graph =>
      dsimp only
      constructor
      · intro h
        split at h
        · cases h
        · rename_i copy hRun
          cases h
          exact ⟨graph, copy, rfl, hRun, rfl⟩
      · rintro ⟨_, copy, ⟨⟩, hRun, rfl⟩
        rw [hRun]

/- A derivation continues from any graph over the vocabulary. -/
theorem continueFrom_eq_ok_iff
    {graph : Graph} :
    continueFrom g graph chunkSize = .ok d ↔
      g.graphFault? graph .workingGraph = none ∧
        d =
          ⟨g,
            (IdPool.ofChunkSize chunkSize).reserveAll
              graph.nodeIds,
            graph, graph⟩ := by
  unfold continueFrom
  cases g.graphFault? graph .workingGraph with
  | some error => simp
  | none => simp [eq_comm]

end Derivation

end GraphRewriting

------------------------------------------------------------
-- Edits
------------------------------------------------------------

namespace GraphRewriting

namespace Derivation

variable {d next : Derivation}

/- A node that is removed gives its number back. -/
theorem removeNode_eq_ok_iff
    {id : NodeId} :
    d.removeNode id = .ok next ↔
      ∃ graph : Graph,
        d.graph.removeNode id = .ok graph ∧
          next =
            { d with pool := d.pool.push id, graph := graph } :=
  map_eq_ok_iff

theorem addEdge_eq_ok_iff
    {edge : Edge} :
    d.addEdge edge = .ok next ↔
      d.grammar.elementFault? [] [edge] .workingGraph = none ∧
        ∃ graph : Graph,
          d.graph.addEdge edge = .ok graph ∧
            next = { d with graph := graph } := by
  unfold addEdge
  cases d.grammar.elementFault? [] [edge] .workingGraph with
  | some error => simp
  | none => exact map_eq_ok_iff.trans (and_iff_right rfl).symm

theorem removeEdge_eq_ok_iff
    {start stop : NodeId} :
    d.removeEdge start stop = .ok next ↔
      ∃ graph : Graph,
        d.graph.removeEdge start stop = .ok graph ∧
          next = { d with graph := graph } :=
  map_eq_ok_iff

/-
  What holds of a derivation, and of the one that a step leads
  to, holds behind an attempt.
-/
theorem attempt_preserves
    {holds : Derivation → Prop}
    (hd : holds d)
    {reply : Reply}
    {step : Except GrammarError Derivation}
    (hStep :
      ∀ next : Derivation, step = .ok next → holds next) :
    holds (d.attempt reply step).1 := by
  cases step with
  | error error => exact hd
  | ok next => exact hStep next rfl

/-
  What each of some actions preserves, whether it succeeds or
  fails, holds after all of them.
-/
theorem after_preserves
    (holds : Derivation → Prop)
    (hd : holds d)
    {actions : List Action}
    (hStep :
      ∀ reached : Derivation, ∀ action ∈ actions,
        holds reached → holds (reached.perform action).1) :
    holds (d.after actions) := by
  unfold Derivation.after
  induction actions generalizing d with
  | nil => exact hd
  | cons action actions ih =>
      refine ih (hStep d action List.mem_cons_self hd) ?_
      exact fun reached later hLater =>
        hStep reached later (List.mem_cons_of_mem action hLater)

end Derivation

end GraphRewriting

------------------------------------------------------------
-- Derivations That Differ In Their Pools
------------------------------------------------------------

namespace GraphRewriting

namespace Derivation

/-
  Two derivations with the same numbers in use. They are the
  same but for their pools.
-/
structure Alike
    (d e : Derivation) : Prop where
  grammar : d.grammar = e.grammar
  initial : d.initial = e.initial
  graph : d.graph = e.graph
  pool : IdPool.SameUse d.pool e.pool

/-
  The same step of two derivations fails with the same error,
  or leads to like ones.
-/
inductive AlikeSteps :
    Except GrammarError Derivation →
      Except GrammarError Derivation → Prop where
  | ok {d e : Derivation} (hAlike : Alike d e) :
    AlikeSteps (.ok d) (.ok e)
  | error (error : GrammarError) :
    AlikeSteps (.error error) (.error error)

variable {d e : Derivation}

/-
  Pools with the same numbers in use draw alike,
  whatever their chunks.
-/
theorem drawFromPool_simulates :
    IdSource.Simulates drawFromPool drawFromPool
      fun supply start =>
        IdPool.SameUse supply.1 start.1 ∧
          supply.2 = start.2 := by
  rintro ⟨pool, drawn⟩ ⟨other, drawn'⟩ localId ⟨hPool, hDrawn⟩
  dsimp only at hPool hDrawn
  rcases hPool.pop with ⟨hId, hNext⟩
  unfold drawFromPool
  dsimp only
  rw [hId, hDrawn]
  exact ⟨rfl, hNext, rfl⟩

/- A rule does the same to alike derivations. -/
theorem Alike.applyRule
    (h : Alike d e)
    (name : String)
    (found : RuleMatch) :
    (d.applyRule name found).2 = (e.applyRule name found).2 ∧
      Alike (d.applyRule name found).1
        (e.applyRule name found).1 := by
  have hStart :
      IdPool.SameUse (d.pool, ([] : List NodeId)).1
        (e.pool, ([] : List NodeId)).1 ∧
        (d.pool, ([] : List NodeId)).2 =
          (e.pool, ([] : List NodeId)).2 :=
    ⟨h.pool, rfl⟩
  have hAgree :=
    d.grammar.applyRule_simulates drawFromPool_simulates hStart
      name found d.graph
  have hSame :
      e.grammar.applyRule drawFromPool name found e.graph
        (e.pool, []) =
        d.grammar.applyRule drawFromPool name found d.graph
          (e.pool, []) := by
    rw [h.grammar, h.graph]
  unfold Derivation.applyRule
  dsimp only
  rw [hSame]
  generalize d.grammar.applyRule drawFromPool name found d.graph
      (d.pool, []) = outcome
    at hAgree
  generalize d.grammar.applyRule drawFromPool name found d.graph
      (e.pool, []) = outcome'
    at hAgree
  rcases hAgree with ⟨hGraph, hResult, hPool, hDrawn⟩
  rw [← hGraph, ← hResult, ← hDrawn]
  cases outcome.result with
  | ok rewrite =>
      exact ⟨rfl, h.grammar, h.initial, rfl, hPool.pushAll _⟩
  | error error =>
      exact ⟨rfl, h.grammar, h.initial, rfl, hPool.pushAll _⟩

/- A new node gets the same id in both. -/
theorem Alike.addNode
    (h : Alike d e)
    (symbol : String)
    (labels : Labels) :
    (d.addNode symbol labels).2 = (e.addNode symbol labels).2 ∧
      Alike (d.addNode symbol labels).1
        (e.addNode symbol labels).1 := by
  rcases h.pool.pop with ⟨hId, hNext⟩
  unfold Derivation.addNode
  dsimp only
  rw [← hId, ← h.grammar, ← h.graph]
  cases d.grammar.elementFault?
    [⟨d.pool.pop.1, labels.setSymbol symbol⟩] []
      .workingGraph with
  | some error =>
      exact
        ⟨rfl, rfl, h.initial, rfl, hNext.pushAll [d.pool.pop.1]⟩
  | none => exact ⟨rfl, rfl, h.initial, rfl, hNext⟩

theorem Alike.removeNode
    (h : Alike d e)
    (id : NodeId) :
    AlikeSteps (d.removeNode id) (e.removeNode id) := by
  unfold Derivation.removeNode
  rw [← h.graph]
  cases d.graph.removeNode id with
  | error error => exact .error error
  | ok graph =>
      exact .ok ⟨h.grammar, h.initial, rfl, h.pool.pushAll [id]⟩

theorem Alike.addEdge
    (h : Alike d e)
    (edge : Edge) :
    AlikeSteps (d.addEdge edge) (e.addEdge edge) := by
  unfold Derivation.addEdge
  rw [← h.grammar, ← h.graph]
  cases d.grammar.elementFault? [] [edge] .workingGraph with
  | some error => exact .error error
  | none =>
      cases d.graph.addEdge edge with
      | error error => exact .error error
      | ok graph => exact .ok ⟨rfl, h.initial, rfl, h.pool⟩

theorem Alike.removeEdge
    (h : Alike d e)
    (start stop : NodeId) :
    AlikeSteps (d.removeEdge start stop)
      (e.removeEdge start stop) := by
  unfold Derivation.removeEdge
  rw [← h.graph]
  cases d.graph.removeEdge start stop with
  | error error => exact .error error
  | ok graph => exact .ok ⟨h.grammar, h.initial, rfl, h.pool⟩

/- A reset leaves them alike. -/
theorem Alike.reset
    (h : Alike d e) :
    Alike d.reset e.reset where
  grammar := h.grammar
  initial := h.initial
  graph := h.initial
  pool := by
    unfold Derivation.reset
    dsimp only
    rw [← h.initial]
    exact (IdPool.SameUse.reset d.pool e.pool).reserveAll _

theorem Alike.attempt
    (h : Alike d e)
    {reply reply' : Reply}
    {next next' : Except GrammarError Derivation}
    (hReply : reply = reply')
    (hNext : AlikeSteps next next') :
    (d.attempt reply next).2 = (e.attempt reply' next').2 ∧
      Alike (d.attempt reply next).1
        (e.attempt reply' next').1 := by
  cases hNext with
  | ok hAlike => exact ⟨congrArg Except.ok hReply, hAlike⟩
  | error error => exact ⟨rfl, h⟩

/- Derivations that are alike answer alike, and stay so. -/
theorem Alike.perform
    (h : Alike d e)
    (action : Action) :
    (d.perform action).2 = (e.perform action).2 ∧
      Alike (d.perform action).1 (e.perform action).1 := by
  cases action with
  | applyRule name found =>
      rcases h.applyRule name found with ⟨hAnswer, hNext⟩
      exact
        ⟨congrArg (Except.map Reply.rewritten) hAnswer, hNext⟩
  | addNode symbol labels =>
      rcases h.addNode symbol labels with ⟨hAnswer, hNext⟩
      exact ⟨congrArg (Except.map Reply.added) hAnswer, hNext⟩
  | removeNode id =>
      have hNode : d.graph.node? id = e.graph.node? id := by
        rw [h.graph]
      exact h.attempt (congrArg Reply.removedNode hNode)
        (h.removeNode id)
  | addEdge edge => exact h.attempt rfl (h.addEdge edge)
  | removeEdge start stop =>
      have hEdge :
          d.graph.edge? start stop =
            e.graph.edge? start stop := by
        rw [h.graph]
      exact h.attempt (congrArg Reply.removedEdge hEdge)
        (h.removeEdge start stop)
  | reset => exact ⟨rfl, h.reset⟩

/- Alike derivations stay alike over all actions. -/
theorem Alike.after
    (h : Alike d e)
    (actions : List Action) :
    Alike (d.after actions) (e.after actions) := by
  unfold Derivation.after
  induction actions generalizing d e with
  | nil => exact h
  | cons action actions ih => exact ih (h.perform action).2

/- So they answer all actions alike. -/
theorem Alike.answers_eq
    (h : Alike d e)
    (actions : List Action) :
    d.answers actions = e.answers actions := by
  induction actions generalizing d e with
  | nil => rfl
  | cons action actions ih =>
      rcases h.perform action with ⟨hAnswer, hNext⟩
      unfold answers
      rw [hAnswer, ih hNext]

/-
  Nodes get the same numbers from pools with the
  same numbers in use.
-/
private theorem numberNodes_alike
    {pool other : IdPool}
    (h : IdPool.SameUse pool other)
    (fresh : FreshIds)
    (ids : List NodeId) :
    (numberNodes fresh pool ids).1 =
      (numberNodes fresh other ids).1 ∧
      IdPool.SameUse (numberNodes fresh pool ids).2
        (numberNodes fresh other ids).2 := by
  induction ids generalizing fresh pool other with
  | nil => exact ⟨rfl, h⟩
  | cons localId ids ih =>
      rcases h.pop with ⟨hId, hNext⟩
      unfold numberNodes
      dsimp only
      rw [hId]
      exact ih hNext _

/-
  An opening leads to derivations that are alike, whatever the
  sizes of their chunks are.
-/
theorem opening_alike
    (opening : Opening)
    (grammar : Grammar)
    (chunkSize otherSize : Nat) :
    AlikeSteps (opening.derivation grammar chunkSize)
      (opening.derivation grammar otherSize) := by
  have hPool := IdPool.SameUse.ofChunkSize chunkSize otherSize
  cases opening with
  | start =>
      unfold Opening.derivation start
      dsimp only
      cases grammar.startGraph with
      | none => exact .error _
      | some graph =>
          rcases numberNodes_alike hPool ∅ graph.nodeIds with
            ⟨hFresh, hNext⟩
          dsimp only
          rw [← hFresh]
          split
          · exact .error _
          · exact .ok ⟨rfl, rfl, rfl, hNext⟩
  | continueFrom graph =>
      unfold Opening.derivation continueFrom
      dsimp only
      cases grammar.graphFault? graph .workingGraph with
      | some error => exact .error error
      | none => exact .ok ⟨rfl, rfl, rfl, hPool.reserveAll _⟩

end Derivation

end GraphRewriting
