import Mathlib.Data.List.Sort

/-! Priority queues. A heap is kept as the list of its elements in the order in which they come out. -/

namespace Library
open List

/-- A priority queue whose elements come out in the order `r` (`r a b`: `a` may come out before `b`). -/
structure MaxHeap (α : Type) (r : α → α → Prop) where
  toList : List α
  sorted : toList.Pairwise r

namespace MaxHeap
variable {α : Type} {r : α → α → Prop}

instance : Membership α (MaxHeap α r) := ⟨fun h a => a ∈ h.toList⟩

variable {h : MaxHeap α r} {a : α}

theorem mem_def : a ∈ h ↔ a ∈ h.toList := Iff.rfl

def empty : MaxHeap α r := ⟨[], List.Pairwise.nil⟩

def len (h : MaxHeap α r) : Nat := h.toList.length

def isEmpty (h : MaxHeap α r) : Bool := h.toList.isEmpty

def peek (h : MaxHeap α r) : Option α := h.toList.head?

def pop (h : MaxHeap α r) : MaxHeap α r := ⟨h.toList.tail, h.sorted.tail⟩

def intoSortedVec (h : MaxHeap α r) : List α := h.toList.reverse

theorem peek_eq_some (hp : h.peek = some a) : h.toList = a :: h.pop.toList := by
  obtain ⟨l, hl⟩ := head?_eq_some_iff.mp hp
  have htail : h.pop.toList = l := by rw [show h.pop.toList = h.toList.tail from rfl, hl, tail_cons]
  rw [hl, htail]

theorem peek_eq_none (hp : h.peek = none) : h.toList = [] := head?_eq_none_iff.mp hp

theorem peek_first (hp : h.peek = some a) {b : α} (hb : b ∈ h) : b = a ∨ r a b := by
  have hs := h.sorted
  rw [mem_def, peek_eq_some hp] at hb
  rw [peek_eq_some hp] at hs
  rcases mem_cons.mp hb with rfl | hb
  · exact .inl rfl
  · exact .inr ((pairwise_cons.mp hs).1 b hb)

theorem isEmpty_iff {h : MaxHeap α r} : h.isEmpty = true ↔ h.toList = [] := List.isEmpty_iff

section Push
variable [DecidableRel r] [Std.Total r] [IsTrans α r]

def push (h : MaxHeap α r) (a : α) : MaxHeap α r :=
  ⟨h.toList.orderedInsert r a, List.Pairwise.orderedInsert a _ h.sorted⟩

theorem push_perm (h : MaxHeap α r) (a : α) : (h.push a).toList.Perm (a :: h.toList) :=
  perm_orderedInsert r a h.toList

/-- The top after it was changed in place: the heap puts it where its new value belongs. -/
def replaceTop (h : MaxHeap α r) (a : α) : MaxHeap α r := h.pop.push a

theorem replaceTop_perm (h : MaxHeap α r) (a : α) : (h.replaceTop a).toList.Perm (a :: h.pop.toList) :=
  push_perm _ _

end Push
end MaxHeap

/-! Filling a container of bounded size from a queue. Items are taken as long as there is room for the largest of them;
    one that cannot be written is taken too, and ends the filling. -/

variable {α : Type}

/-- What is left, how full the container is, how many items were written, and whether all that were taken could be. -/
structure Filled (α : Type) where
  rest : List α
  len : Nat
  count : Nat
  ok : Bool

/-- An item needs `bound` at most, and `size` exactly. -/
def fill (bound limit : Nat) (size : α → Nat) (writable : α → Bool) : List α → Nat → Filled α
  | [], len => ⟨[], len, 0, true⟩
  | item :: items, len =>
    if len + bound < limit then
      if writable item then
        let filled := fill bound limit size writable items (len + size item)
        { filled with count := filled.count + 1 }
      else ⟨items, len, 0, false⟩
    else ⟨item :: items, len, 0, true⟩

namespace Filled

def taken (self : Filled α) : Nat := self.count + if self.ok then 0 else 1

end Filled

variable {bound limit : Nat} {size : α → Nat} {writable : α → Bool}

theorem fill_length : ∀ (items : List α) (len : Nat),
    (fill bound limit size writable items len).rest.length + (fill bound limit size writable items len).taken = items.length
  | [], len => rfl
  | item :: items, len => by
    have ih := fill_length items (len + size item)
    unfold fill
    split
    · split
      · rw [List.length_cons, ← ih]
        exact (Nat.add_assoc ..).symm.trans (by simp only [Filled.taken]; omega)
      · rfl
    · rfl

theorem fill_ok (h : ∀ item, writable item = true) : ∀ (items : List α) (len : Nat),
    (fill bound limit size writable items len).ok = true
  | [], _ => rfl
  | item :: items, len => by
    unfold fill
    split
    · rw [if_pos (h item)]
      exact fill_ok h items _
    · rfl

theorem fill_idle {items : List α} {len : Nat} (h : (fill bound limit size writable items len).taken = 0) :
    fill bound limit size writable items len = ⟨items, len, 0, true⟩ ∧ (len + bound < limit → items = []) := by
  cases items with
  | nil => exact ⟨rfl, fun _ => rfl⟩
  | cons item items =>
    unfold fill at h ⊢
    split at h
    · split at h
      · simp only [Filled.taken] at h
        omega
      · cases h
    · next hroom => exact ⟨by rw [if_neg hroom], fun hlt => absurd hlt hroom⟩

end Library
