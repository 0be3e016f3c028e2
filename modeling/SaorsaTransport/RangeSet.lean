import SaorsaTransport.Library.Maps
import SaorsaTransport.Library.Machine
import SaorsaTransport.Library.Intervals

/-! The range set of `src/range_set/btree_range_set.rs`: a set of offsets as a map from the start of each range to its end.
    Each iteration of its loops removes an entry, so the number of entries bounds them. -/

namespace SaorsaTransport
open Library

structure RangeSet where
  ranges : BTreeMap Nat Nat

namespace RangeSet

def new : RangeSet := ⟨BTreeMap.empty⟩

def pred (s : RangeSet) (x : Nat) : Option (Nat × Nat) := s.ranges.lastLE x

def succ (s : RangeSet) (x : Nat) : Option (Nat × Nat) := s.ranges.firstGT x

def contains (s : RangeSet) (x : Nat) : Bool := (s.pred x).any fun r => decide (x < r.2)

def isEmpty (s : RangeSet) : Bool := s.ranges.isEmpty

def len (s : RangeSet) : Nat := s.ranges.len

protected def min (s : RangeSet) : Option Nat := s.ranges.first.map (·.1)

def iter (s : RangeSet) : List (Nat × Nat) := s.ranges.entries

def peekMin (s : RangeSet) : Option (Nat × Nat) := s.ranges.first

def popMin (s : RangeSet) : Option ((Nat × Nat) × RangeSet) :=
  s.peekMin.map fun r => (r, ⟨s.ranges.remove r.1⟩)

/-- The loop of `insert`: remove the successors that overlap or touch `x`, and extend `x` by them. -/
def absorb : Nat → RangeSet → Nat × Nat → RangeSet × (Nat × Nat)
  | 0, s, x => (s, x)
  | fuel + 1, s, x =>
    match s.succ x.1 with
    | none => (s, x)
    | some next => if x.2 < next.1 then (s, x) else absorb fuel ⟨s.ranges.remove next.1⟩ (x.1, max next.2 x.2)

/-- The part of `insert` after the predecessor was looked at. -/
def insertFrom (s : RangeSet) (x : Nat × Nat) : RangeSet :=
  let (s, x) := absorb s.len s x
  ⟨s.ranges.insert x.1 x.2⟩

def insert (s : RangeSet) (x : Nat × Nat) : RangeSet × Bool :=
  if x.2 ≤ x.1 then (s, false)
  else
    match s.pred x.1 with
    | none => (s.insertFrom x, true)
    | some p =>
      if x.2 ≤ p.2 then (s, false) -- wholly contained
      else if x.1 ≤ p.2 then ((⟨s.ranges.remove p.1⟩ : RangeSet).insertFrom (p.1, x.2), true)
      else (s.insertFrom x, true)

/-- Where a range over `x` alone ends: after `x`, or with the successor that starts there, which is taken out.
    The addition has no overflow check in a release build. -/
def joinNext (s : RangeSet) (x : Nat) : RangeSet × Nat :=
  let newEnd := wrappingAdd x 1
  match s.succ x with
  | none => (s, newEnd)
  | some next => if next.1 = newEnd then (⟨s.ranges.remove next.1⟩, next.2) else (s, newEnd)

/-- Enter the range over `x` alone into the map, from `start` on. -/
def enterOne (s : RangeSet) (start x : Nat) : RangeSet :=
  let (s, newEnd) := s.joinNext x
  ⟨s.ranges.insert start newEnd⟩

def insertOne (s : RangeSet) (x : Nat) : RangeSet × Bool :=
  match s.pred x with
  | none => (s.enterOne x x, true)
  | some p =>
    if x < p.2 then (s, false) -- wholly contained
    else if p.2 = x then ((⟨s.ranges.remove p.1⟩ : RangeSet).enterOne p.1 x, true)
    else (s.enterOne x x, true)

/-- The loop of `remove`: take out the successors that overlap `x`, and put the end of the last one back. -/
def removeAfter : Nat → RangeSet → Nat × Nat → RangeSet × Bool
  | 0, s, _ => (s, false)
  | fuel + 1, s, x =>
    match s.succ x.1 with
    | none => (s, false)
    | some r =>
      if x.2 ≤ r.1 then (s, false)
      else if x.2 < r.2 then (⟨(s.ranges.remove r.1).insert x.2 r.2⟩, true)
      else ((removeAfter fuel ⟨s.ranges.remove r.1⟩ x).1, true)

def trim (s : RangeSet) (p x : Nat × Nat) : RangeSet :=
  let ranges := s.ranges.remove p.1
  let ranges := if p.1 < x.1 then ranges.insert p.1 x.1 else ranges
  ⟨if x.2 < p.2 then ranges.insert x.2 p.2 else ranges⟩

def remove (s : RangeSet) (x : Nat × Nat) : RangeSet × Bool :=
  if x.2 ≤ x.1 then (s, false)
  else
    match s.pred x.1 with
    | none => removeAfter s.len s x
    | some p =>
      if x.1 < p.2 then
        let s := s.trim p x
        -- Short-circuit if we cannot possibly overlap with another range
        if x.2 ≤ p.2 then (s, true)
        else
          let (s, after) := removeAfter s.len s x
          (s, true || after)
      else removeAfter s.len s x

structure Replace where
  set : RangeSet
  /-- Union of the input range and all ranges that have been visited by the iterator so far. -/
  range : Nat × Nat
  /-- Portion of the intersection from a range beginning at or before the inserted range. -/
  pred : Option (Nat × Nat)

def replace (s : RangeSet) (range : Nat × Nat) : Replace :=
  match (s.pred range.1).filter fun p => decide (range.1 ≤ p.2) with
  | none => ⟨s, range, none⟩
  | some prev =>
    let replaced := (range.1, min range.2 prev.2)
    ⟨⟨s.ranges.remove prev.1⟩, (min range.1 prev.1, max range.2 prev.2),
      if replaced.1 ≠ replaced.2 then some replaced else none⟩

namespace Replace

def next (it : Replace) : Option (Nat × Nat) × Replace :=
  match it.pred with
  | some p => (some p, { it with pred := none })
  | none =>
    match it.set.succ it.range.1 with
    | none => (none, it)
    | some next =>
      if it.range.2 < next.1 then (none, it)
      else
        let replacedEnd := min it.range.2 next.2
        let it : Replace :=
          { it with set := ⟨it.set.ranges.remove next.1⟩, range := (it.range.1, max it.range.2 next.2) }
        -- A range that starts where the new one ends is no overlap, and neither is any later one.
        if next.1 = replacedEnd then (none, it) else (some (next.1, replacedEnd), it)

/-- A `for` loop over the iterator: it ends at the first `None`. -/
def collect : Nat → Replace → List (Nat × Nat) × Replace
  | 0, it => ([], it)
  | fuel + 1, it =>
    match it.next with
    | (none, it) => ([], it)
    | (some r, it) =>
      let (rs, it) := collect fuel it
      (r :: rs, it)

/-- One item for the predecessor, one for each range, and the final `None`. -/
def fuel (it : Replace) : Nat := it.set.len + 2

/-- Ensure we drain all remaining overlapping ranges, then insert the final aggregate range. -/
def drop (it : Replace) : RangeSet :=
  let it := (it.collect it.fuel).2
  ⟨it.set.ranges.insert it.range.1 it.range.2⟩

end Replace

/-- A `for` loop over `replace range`: the overlaps it yields, and the set once the iterator is dropped. -/
def replaceAll (s : RangeSet) (range : Nat × Nat) : List (Nat × Nat) × RangeSet :=
  let it := s.replace range
  let (overlaps, it) := it.collect it.fuel
  (overlaps, it.drop)

end RangeSet

/-! The range set of `src/range_set/array_range_set.rs`: a vector of ranges in increasing order. Each loop of the source
    is a recursion on the part of the vector from its index on. -/

structure ArrayRangeSet where
  ranges : List (Nat × Nat)
  deriving DecidableEq

namespace ArrayRangeSet

def new : ArrayRangeSet := ⟨[]⟩

def isEmpty (s : ArrayRangeSet) : Bool := s.ranges.isEmpty

def len (s : ArrayRangeSet) : Nat := s.ranges.length

/-- Find the rightmost range whose start is at or before `x`, and look into it. -/
def contains (s : ArrayRangeSet) (x : Nat) : Bool :=
  let idx := (s.ranges.takeWhile fun range => decide (range.1 ≤ x)).length
  if idx = 0 then false else s.ranges[idx - 1]?.any fun range => decide (InSpan range x)

/-- Merge all follow-up ranges which overlap or touch `curr`. -/
def mergeNext (curr : Nat × Nat) : List (Nat × Nat) → List (Nat × Nat)
  | [] => [curr]
  | next :: rest =>
    if next.1 ≤ curr.2 then mergeNext (curr.1, max next.2 curr.2) rest else curr :: next :: rest

def insertAt (x : Nat × Nat) (result : Bool) : List (Nat × Nat) → List (Nat × Nat) × Bool
  | [] => ([x], true)
  | range :: rest =>
    if x.2 < range.1 then (x :: range :: rest, true)
    else
      let (range, result) := if x.1 < range.1 then ((x.1, range.2), true) else (range, result)
      if x.2 ≤ range.2 then (range :: rest, result)
      else if x.1 ≤ range.2 then (mergeNext (range.1, x.2) rest, true)
      else
        let (rest, result) := insertAt x result rest
        (range :: rest, result)

def insert (s : ArrayRangeSet) (x : Nat × Nat) : ArrayRangeSet × Bool :=
  if x.2 ≤ x.1 then (s, false)
  else
    let (ranges, result) := insertAt x false s.ranges
    (⟨ranges⟩, result)

/-- Add one offset. The addition has no overflow check in a release build. -/
def insertOne (s : ArrayRangeSet) (x : Nat) : ArrayRangeSet × Bool := s.insert (x, wrappingAdd x 1)

/-- The loop of `remove`. It also tests that `x` is not empty, which was tested before it. -/
def removeAt (x : Nat × Nat) (result : Bool) : List (Nat × Nat) → List (Nat × Nat) × Bool
  | [] => ([], result)
  | range :: rest =>
    if x.2 ≤ range.1 then (range :: rest, result)
    else if range.2 ≤ x.1 then
      let (rest, result) := removeAt x result rest
      (range :: rest, result)
    else
      let left := (range.1, x.1)
      let right := (x.2, range.2)
      let (rest, result) := removeAt x true rest
      if left.2 ≤ left.1 ∧ right.2 ≤ right.1 then (rest, result)
      else if left.2 ≤ left.1 then (right :: rest, result)
      else if right.2 ≤ right.1 then (left :: rest, result)
      else (left :: right :: rest, result)

def remove (s : ArrayRangeSet) (x : Nat × Nat) : ArrayRangeSet × Bool :=
  if x.2 ≤ x.1 then (s, false)
  else
    let (ranges, result) := removeAt x false s.ranges
    (⟨ranges⟩, result)

def popMin (s : ArrayRangeSet) : Option ((Nat × Nat) × ArrayRangeSet) :=
  match s.ranges with
  | [] => none
  | range :: rest => some (range, ⟨rest⟩)

end ArrayRangeSet
end SaorsaTransport
