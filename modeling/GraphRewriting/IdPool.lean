import GraphRewriting.LeastElement
import GraphRewriting.NodeId

/-
  This file defines pools of numeric node ids. A pool hands out
  the least id that is not in use, takes ids back and can be
  told which ids are in use already.

  The free ids are kept for the numbers below a border that
  moves up by one chunk when they run out; ids in use at or
  past the border are kept apart. Ids are below `idLimit`.

  Key definitions include:
    * `idLimit`
    * `IdPool`
    * `IdPool.ofChunkSize`
    * `IdPool.leastFree?`
    * `IdPool.pop`
    * `IdPool.popMany`
    * `IdPool.generator`
    * `IdPool.push`
    * `IdPool.reserve`
    * `IdPool.reset`
    * `IdPool.available`
-/

namespace GraphRewriting

------------------------------------------------------------
-- Pools
------------------------------------------------------------

/-
  The largest number that an id can be; no pool makes it free.
-/
def idLimit : Nat :=
  UInt64.size - 1

/-
  A pool of ids: the free ids below the border, and the ids in
  use at or past it.
-/
structure IdPool where
  chunkSize : Nat
  free : Std.ExtTreeSet Nat
  border : Nat
  usedAhead : Std.ExtTreeSet Nat
  chunkSize_pos : 0 < chunkSize

namespace IdPool

/- The border after one more chunk. -/
def nextBorder (pool : IdPool) : Nat :=
  min (pool.border + pool.chunkSize) idLimit

/- Make the ids of one more chunk free, except those in use. -/
def refill (pool : IdPool) : IdPool :=
  let chunk :=
    List.range' pool.border (pool.nextBorder - pool.border)
  { pool with
    free :=
      pool.free.insertMany
        (chunk.filter fun id => !pool.usedAhead.contains id)
    border := pool.nextBorder
    usedAhead :=
      pool.usedAhead.filter fun id => pool.nextBorder ≤ id }

/- The pool of a chunk size before its first chunk. -/
def unfilled (chunkSize : Nat) : IdPool where
  chunkSize := max chunkSize 1
  free := ∅
  border := 0
  usedAhead := ∅
  chunkSize_pos := by omega

/- A pool with no id in use. A chunk holds one id at least. -/
def ofChunkSize (chunkSize : Nat) : IdPool :=
  (unfilled chunkSize).refill

/- Add chunks, up to a number of them, while no id is free. -/
def fillWithin : Nat → IdPool → IdPool
  | 0, pool => pool
  | chunks + 1, pool =>
      if pool.free.isEmpty ∧ pool.border < idLimit then
        fillWithin chunks pool.refill
      else
        pool

/-
  Add chunks until some id is free, or until there are no more
  ids. A chunk without a free id holds an id in use past the
  border, so there are at most as many such chunks as such ids.
-/
def ensureFree (pool : IdPool) : IdPool :=
  fillWithin (pool.usedAhead.size + 1) pool

/- The least id that is free without a further chunk. -/
def leastFree? (pool : IdPool) : Option Nat :=
  leastElement? pool.free

/-
  Draw the least free id. The largest number is handed out over
  and over once all others are in use.
-/
def pop (pool : IdPool) : NodeId × IdPool :=
  let filled := pool.ensureFree
  match filled.leastFree? with
  | some id =>
      (.num (UInt64.ofNat id),
        { filled with free := filled.free.erase id })
  | none => (.num (UInt64.ofNat filled.border), filled)

/- Draw several ids, one after the other. -/
def popMany
    (pool : IdPool) :
    Nat → List NodeId × IdPool
  | 0 => ([], pool)
  | count + 1 =>
      let (drawn, next) := pool.pop
      let (rest, last) := popMany next count
      (drawn :: rest, last)

/- The pool as a source of ids, which ignores the local id. -/
def generator
    (_ : NodeId)
    (pool : IdPool) : NodeId × IdPool :=
  pool.pop

/- Give an id back. Names are ignored. -/
def push
    (pool : IdPool)
    (id : NodeId) : IdPool :=
  match id.num? with
  | none => pool
  | some value =>
      if value.toNat < pool.border then
        { pool with free := pool.free.insert value.toNat }
      else
        { pool with
          usedAhead := pool.usedAhead.erase value.toNat }

/- Give several ids back. -/
def pushAll
    (pool : IdPool)
    (ids : List NodeId) : IdPool :=
  ids.foldl push pool

/- Take an id into use. Names are ignored. -/
def reserve
    (pool : IdPool)
    (id : NodeId) : IdPool :=
  match id.num? with
  | none => pool
  | some value =>
      if value.toNat < pool.border then
        { pool with free := pool.free.erase value.toNat }
      else
        { pool with
          usedAhead := pool.usedAhead.insert value.toNat }

/- Take several ids into use. -/
def reserveAll
    (pool : IdPool)
    (ids : List NodeId) : IdPool :=
  ids.foldl reserve pool

/- Forget every id in use. -/
def reset (pool : IdPool) : IdPool :=
  { pool with free := ∅, border := 0, usedAhead := ∅ }.refill

/- The number of ids that are free without a further chunk. -/
def available (pool : IdPool) : Nat :=
  pool.free.size

end IdPool

end GraphRewriting
