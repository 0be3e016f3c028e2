import Mathlib.Algebra.Order.Ring.Nat
import Mathlib.Algebra.Order.BigOperators.Group.Finset
import Mathlib.Data.List.AList

/-! Ordered maps as lists in increasing order of their keys. -/

namespace Library
open List

/-- A map that keeps its entries in increasing order of their keys, each key once. -/
structure BTreeMap (κ ν : Type) [LinearOrder κ] where
  entries : List (κ × ν)
  sorted : entries.Pairwise (·.1 < ·.1)

namespace BTreeMap
variable {κ ν : Type} [LinearOrder κ]

instance : Membership (κ × ν) (BTreeMap κ ν) := ⟨fun m p => p ∈ m.entries⟩

variable {m : BTreeMap κ ν} {p : κ × ν} {k x : κ} {v : ν}

theorem mem_def : p ∈ m ↔ p ∈ m.entries := Iff.rfl

def empty : BTreeMap κ ν := ⟨[], List.Pairwise.nil⟩

@[simp] theorem not_mem_empty (p : κ × ν) : p ∉ (empty : BTreeMap κ ν) := not_mem_nil

def len (m : BTreeMap κ ν) : Nat := m.entries.length

def isEmpty (m : BTreeMap κ ν) : Bool := m.entries.isEmpty

def insertEntry (k : κ) (v : ν) : List (κ × ν) → List (κ × ν)
  | [] => [(k, v)]
  | p :: l => if k < p.1 then (k, v) :: p :: l else if k = p.1 then (k, v) :: l else p :: insertEntry k v l

theorem mem_insertEntry {k : κ} {v : ν} {p : κ × ν} :
    ∀ {l : List (κ × ν)}, l.Pairwise (·.1 < ·.1) → (p ∈ insertEntry k v l ↔ p = (k, v) ∨ p.1 ≠ k ∧ p ∈ l)
  | [], _ => by simp [insertEntry]
  | q :: l, h => by
    obtain ⟨hq, hl⟩ := pairwise_cons.mp h
    have above : ∀ r ∈ l, k ≤ q.1 → r.1 ≠ k := fun r hr hk => (hk.trans_lt (hq r hr)).ne'
    unfold insertEntry
    split
    · next hlt =>
      have hne : ∀ r ∈ q :: l, r.1 ≠ k := fun r hr => by
        rcases mem_cons.mp hr with rfl | hr
        · exact hlt.ne'
        · exact above r hr hlt.le
      rw [mem_cons]
      exact ⟨fun hp => hp.imp_right fun hp => ⟨hne p hp, hp⟩, fun hp => hp.imp_right (·.2)⟩
    · split
      · next heq =>
        rw [mem_cons, mem_cons]
        refine ⟨fun hp => hp.imp_right fun hp => ⟨above p hp heq.le, .inr hp⟩, fun hp => hp.imp_right ?_⟩
        rintro ⟨hne, rfl | hp⟩
        · exact absurd heq.symm hne
        · exact hp
      · next hne =>
        rw [mem_cons, mem_insertEntry hl, mem_cons]
        constructor
        · rintro (rfl | rfl | ⟨h1, h2⟩)
          · exact .inr ⟨fun h => hne h.symm, .inl rfl⟩
          · exact .inl rfl
          · exact .inr ⟨h1, .inr h2⟩
        · rintro (rfl | ⟨h1, rfl | h2⟩)
          · exact .inr (.inl rfl)
          · exact .inl rfl
          · exact .inr (.inr ⟨h1, h2⟩)

theorem insertEntry_sorted {k : κ} {v : ν} :
    ∀ {l : List (κ × ν)}, l.Pairwise (·.1 < ·.1) → (insertEntry k v l).Pairwise (·.1 < ·.1)
  | [], _ => by simp [insertEntry]
  | q :: l, h => by
    obtain ⟨hq, hl⟩ := pairwise_cons.mp h
    unfold insertEntry
    split
    · next hlt =>
      refine pairwise_cons.mpr ⟨fun r hr => ?_, h⟩
      rcases mem_cons.mp hr with rfl | hr
      · exact hlt
      · exact hlt.trans (hq r hr)
    · next hnlt =>
      split
      · next heq => exact pairwise_cons.mpr ⟨fun r hr => heq ▸ hq r hr, hl⟩
      · next hne =>
        refine pairwise_cons.mpr ⟨fun r hr => ?_, insertEntry_sorted hl⟩
        rcases (mem_insertEntry hl).mp hr with rfl | ⟨-, hr⟩
        · exact lt_of_le_of_ne (not_lt.mp hnlt) fun h => hne h.symm
        · exact hq r hr

def insert (m : BTreeMap κ ν) (k : κ) (v : ν) : BTreeMap κ ν :=
  ⟨insertEntry k v m.entries, insertEntry_sorted m.sorted⟩

def remove (m : BTreeMap κ ν) (k : κ) : BTreeMap κ ν :=
  ⟨m.entries.filter fun p => decide (p.1 ≠ k), m.sorted.filter _⟩

theorem mem_insert : p ∈ m.insert k v ↔ p = (k, v) ∨ p.1 ≠ k ∧ p ∈ m :=
  mem_insertEntry m.sorted

theorem mem_remove : p ∈ m.remove k ↔ p.1 ≠ k ∧ p ∈ m := by
  simp only [mem_def, remove, mem_filter, decide_eq_true_eq]
  exact and_comm

def get (m : BTreeMap κ ν) (k : κ) : Option ν := (m.entries.find? fun p => decide (p.1 = k)).map Prod.snd

theorem eq_of_key {q : κ × ν} (hp : p ∈ m) (hq : q ∈ m) (h : p.1 = q.1) : p = q := by
  obtain ⟨l, hs⟩ := m
  induction hs with
  | nil => cases hp
  | cons hr _ ih =>
    rcases mem_cons.mp hp with rfl | hp' <;> rcases mem_cons.mp hq with rfl | hq'
    · rfl
    · exact absurd h (hr q hq').ne
    · exact absurd h (hr p hp').ne'
    · exact ih hp' hq'

theorem get_eq_some : m.get k = some v ↔ (k, v) ∈ m := by
  unfold get
  constructor
  · intro h
    obtain ⟨p, hp, rfl⟩ := Option.map_eq_some_iff.mp h
    obtain rfl : p.1 = k := by simpa using find?_some hp
    exact mem_of_find?_eq_some hp
  · intro h
    cases hf : m.entries.find? fun p => decide (p.1 = k) with
    | none =>
      have hne := find?_eq_none.mp hf _ h
      simp at hne
    | some p =>
      have hk : p.1 = k := by simpa using find?_some hf
      rw [eq_of_key (mem_of_find?_eq_some hf : p ∈ m) h hk]
      rfl

theorem get_eq_none : m.get k = none ↔ ∀ p ∈ m, p.1 ≠ k := by
  simp [get, mem_def]

@[simp] theorem get_empty (k : κ) : (empty : BTreeMap κ ν).get k = none := rfl

theorem get_insert {k' : κ} : (m.insert k v).get k' = if k' = k then some v else m.get k' := by
  ext u
  rw [get_eq_some, mem_insert]
  split
  · next h => simp [h, eq_comm]
  · next h => simp [h, get_eq_some]

theorem get_remove {k' : κ} : (m.remove k).get k' = if k' = k then none else m.get k' := by
  ext u
  rw [get_eq_some, mem_remove]
  split
  · next h => simp [h]
  · next h => simp [h, get_eq_some]

theorem len_remove_lt (hp : p ∈ m) : (m.remove p.1).len < m.len :=
  length_filter_lt_length_iff_exists.mpr ⟨p, hp, by simp⟩

theorem isEmpty_iff {m : BTreeMap κ ν} : m.isEmpty = true ↔ ∀ p, p ∉ m := by
  rw [isEmpty, List.isEmpty_iff]
  exact eq_nil_iff_forall_not_mem

def lastLE (m : BTreeMap κ ν) (x : κ) : Option (κ × ν) := (m.entries.filter fun p => decide (p.1 ≤ x)).getLast?

def firstGT (m : BTreeMap κ ν) (x : κ) : Option (κ × ν) := m.entries.find? fun p => decide (x < p.1)

def first (m : BTreeMap κ ν) : Option (κ × ν) := m.entries.head?

theorem lastLE_eq_some (h : m.lastLE x = some p) : p ∈ m ∧ p.1 ≤ x ∧ ∀ q ∈ m, q.1 ≤ x → q.1 ≤ p.1 := by
  obtain ⟨init, hinit⟩ := getLast?_eq_some_iff.mp h
  have hmem : p ∈ m.entries.filter fun p => decide (p.1 ≤ x) := by rw [hinit]; simp
  obtain ⟨hp, hpx⟩ := mem_filter.mp hmem
  refine ⟨hp, by simpa using hpx, fun q hq hqx => ?_⟩
  have hq' : q ∈ m.entries.filter fun p => decide (p.1 ≤ x) := mem_filter.mpr ⟨hq, by simpa using hqx⟩
  have hs := m.sorted.filter fun p => decide (p.1 ≤ x)
  rw [hinit] at hq' hs
  rcases mem_append.mp hq' with hq' | hq'
  · exact ((pairwise_append.mp hs).2.2 q hq' p (mem_singleton_self _)).le
  · rw [mem_singleton.mp hq']

theorem lastLE_eq_none (h : m.lastLE x = none) : ∀ p ∈ m, x < p.1 := by
  intro p hp
  have := filter_eq_nil_iff.mp (getLast?_eq_none_iff.mp h) p hp
  simpa using this

theorem firstGT_eq_some (h : m.firstGT x = some p) : p ∈ m ∧ x < p.1 ∧ ∀ q ∈ m, x < q.1 → p.1 ≤ q.1 := by
  obtain ⟨hpx, as, bs, hspl, hpre⟩ := find?_eq_some_iff_append.mp h
  refine ⟨by rw [mem_def, hspl]; simp, by simpa using hpx, fun q hq hqx => ?_⟩
  have hs := m.sorted
  rw [mem_def, hspl] at hq
  rw [hspl] at hs
  rcases mem_append.mp hq with hq | hq
  · exact absurd hqx (by simpa using hpre q hq)
  · rcases mem_cons.mp hq with rfl | hq
    · exact le_refl _
    · exact ((pairwise_cons.mp (pairwise_append.mp hs).2.1).1 q hq).le

theorem firstGT_eq_none (h : m.firstGT x = none) : ∀ p ∈ m, p.1 ≤ x := by
  intro p hp
  have := find?_eq_none.mp h p hp
  simpa using this

theorem first_eq_some (h : m.first = some p) : p ∈ m ∧ ∀ q ∈ m, p.1 ≤ q.1 := by
  obtain ⟨l, hs⟩ := m
  cases l with
  | nil => cases h
  | cons r l =>
    obtain rfl : r = p := by simpa [first] using h
    refine ⟨mem_cons_self, fun q hq => ?_⟩
    rcases mem_cons.mp hq with rfl | hq
    · exact le_refl _
    · exact ((pairwise_cons.mp hs).1 q hq).le

theorem first_eq_none (h : m.first = none) : ∀ p, p ∉ m := by
  intro p hp
  rw [first, head?_eq_none_iff] at h
  rw [mem_def, h] at hp
  cases hp

/-! Sums over the entries of an ordered map. -/

def total (m : BTreeMap κ ν) (w : κ × ν → Nat) : Nat := (m.entries.map w).sum

variable {m : BTreeMap κ ν} {w w' : κ × ν → Nat} {p : κ × ν} {k : κ}

@[simp] theorem total_empty : (empty : BTreeMap κ ν).total w = 0 := rfl

theorem total_congr (h : ∀ p ∈ m, w p = w' p) : m.total w = m.total w' :=
  congrArg sum (map_congr_left h)

theorem total_eq_zero (h : ∀ p ∈ m, w p = 0) : m.total w = 0 :=
  sum_eq_zero fun x hx => by
    obtain ⟨p, hp, rfl⟩ := mem_map.mp hx
    exact h p hp

theorem le_total (hp : p ∈ m) : w p ≤ m.total w := single_le_sum (by simp) _ (mem_map_of_mem hp)

theorem total_insertEntry {v : ν} : ∀ {l : List (κ × ν)}, (∀ p ∈ l, p.1 ≠ k) →
    ((insertEntry k v l).map w).sum = w (k, v) + (l.map w).sum
  | [], _ => by simp [insertEntry]
  | q :: l, h => by
    obtain ⟨hq, hl⟩ := forall_mem_cons.mp h
    unfold insertEntry
    split
    · simp
    · rw [if_neg fun heq => hq heq.symm, map_cons, sum_cons, total_insertEntry hl, map_cons, sum_cons]
      exact Nat.add_left_comm _ _ _

theorem total_insert {v : ν} (h : ∀ p ∈ m, p.1 ≠ k) : (m.insert k v).total w = w (k, v) + m.total w :=
  total_insertEntry h

theorem total_replaceEntry {u v : ν} (hw : w (k, v) = w (k, u)) : ∀ {l : List (κ × ν)}, l.Pairwise (·.1 < ·.1) →
    (k, u) ∈ l → ((insertEntry k v l).map w).sum = (l.map w).sum
  | [], _, hu => absurd hu not_mem_nil
  | q :: l, hs, hu => by
    obtain ⟨hq, hl⟩ := pairwise_cons.mp hs
    unfold insertEntry
    rcases mem_cons.mp hu with rfl | hu
    · simp [hw]
    · have hlt : q.1 < k := hq _ hu
      rw [if_neg hlt.le.not_gt, if_neg hlt.ne', map_cons, sum_cons, total_replaceEntry hw hl hu, map_cons, sum_cons]

theorem total_replace {u v : ν} (hu : (k, u) ∈ m) (hw : w (k, v) = w (k, u)) : (m.insert k v).total w = m.total w :=
  total_replaceEntry hw m.sorted hu

theorem total_filter : ∀ {l : List (κ × ν)}, l.Pairwise (·.1 < ·.1) → p ∈ l →
    (l.map w).sum = w p + ((l.filter fun q => decide (q.1 ≠ p.1)).map w).sum
  | [], _, hp => absurd hp not_mem_nil
  | q :: l, hs, hp => by
    obtain ⟨hq, hl⟩ := pairwise_cons.mp hs
    rcases mem_cons.mp hp with rfl | hp
    · have hkeep : l.filter (fun r => decide (r.1 ≠ p.1)) = l :=
        filter_eq_self.mpr fun r hr => decide_eq_true (hq r hr).ne'
      rw [filter_cons_of_neg (by simp), hkeep, map_cons, sum_cons]
    · have hne : q.1 ≠ p.1 := (hq p hp).ne
      rw [filter_cons_of_pos (by simpa using hne), map_cons, sum_cons, total_filter hl hp, map_cons, sum_cons]
      exact Nat.add_left_comm _ _ _

theorem total_remove (hp : p ∈ m) : m.total w = w p + (m.remove p.1).total w := total_filter m.sorted hp

variable {k : κ} {u v : ν}

theorem len_eq_total : m.len = m.total fun _ => 1 := by simp [len, total]

theorem len_insert_of_get (h : m.get k = some u) : (m.insert k v).len = m.len := by
  rw [len_eq_total, len_eq_total]
  exact total_replace (get_eq_some.mp h) rfl

theorem len_insert_of_none (h : m.get k = none) : (m.insert k v).len = m.len + 1 := by
  rw [len_eq_total, total_insert (get_eq_none.mp h), len_eq_total, add_comm]

theorem len_insert_le : (m.insert k v).len ≤ m.len + 1 := by
  cases h : m.get k with
  | none => exact (len_insert_of_none h).le
  | some u => exact (len_insert_of_get h).le.trans (Nat.le_succ _)

theorem len_remove_of_get (h : m.get k = some v) : (m.remove k).len + 1 = m.len := by
  have htot := total_remove (w := fun _ => 1) (get_eq_some.mp h)
  rw [len_eq_total, len_eq_total, htot, add_comm]

end BTreeMap
end Library

/-! Sums over the values of a finite map. -/

namespace Library
open AList
variable {κ ν μ : Type} [DecidableEq κ]

def sumBy (f : ν → Nat) (m : AList fun _ : κ => ν) : Nat := (m.entries.map fun e => f e.2).sum

def sumOn (p : κ → Bool) (f : ν → Nat) (m : AList fun _ : κ => ν) : Nat :=
  ((m.entries.filter fun e => p e.1).map fun e => f e.2).sum

def valueAt (f : ν → Nat) (m : AList fun _ : κ => ν) (k : κ) : Nat := ((m.lookup k).map f).getD 0

variable {f : ν → Nat} {m : AList fun _ : κ => ν} {n : AList fun _ : κ => ν}

open Finset in
theorem sum_entries_eq (f : ν → Nat) (p : κ → Bool) : ∀ {l : List (Sigma fun _ : κ => ν)} (K : Finset κ), l.NodupKeys →
    (∀ k ∈ l.keys, k ∈ K) →
    ((l.filter fun e => p e.1).map fun e => f e.2).sum = ∑ k ∈ K, if p k then ((l.dlookup k).map f).getD 0 else 0
  | [], K, _, _ => by simp
  | ⟨k, v⟩ :: l, K, hnd, hK => by
    obtain ⟨hk, hnd⟩ := List.nodupKeys_cons.mp hnd
    have hkK : k ∈ K := hK k (by simp)
    have ih := sum_entries_eq f p (K.erase k) hnd fun j hj =>
      mem_erase.mpr ⟨fun h => hk (h ▸ hj), hK j (by simp [List.keys_cons, hj])⟩
    have hrest : ∑ j ∈ K.erase k, (if p j then ((List.dlookup j (⟨k, v⟩ :: l)).map f).getD 0 else 0) =
        ∑ j ∈ K.erase k, if p j then ((List.dlookup j l).map f).getD 0 else 0 := by
      refine sum_congr rfl fun j hj => ?_
      rw [List.dlookup_cons_ne l ⟨k, v⟩ (ne_of_mem_erase hj)]
    rw [← add_sum_erase K _ hkK, hrest, ← ih, List.dlookup_cons_eq]
    by_cases hp : p k = true
    · simp [hp]
    · simp [hp]

open Finset in
theorem sumBy_eq_sum (f : ν → Nat) (m : AList fun _ : κ => ν) {K : Finset κ} (hK : ∀ k ∈ m, k ∈ K) :
    sumBy f m = ∑ k ∈ K, valueAt f m k := by
  have := sum_entries_eq f (fun _ => true) K m.nodupKeys hK
  simpa [sumBy, valueAt, lookup] using this

open Finset in
theorem sumOn_eq_sum (p : κ → Bool) (f : ν → Nat) (m : AList fun _ : κ => ν) {K : Finset κ} (hK : ∀ k ∈ m, k ∈ K) :
    sumOn p f m = ∑ k ∈ K, if p k then valueAt f m k else 0 :=
  sum_entries_eq f p K m.nodupKeys hK

theorem sumBy_congr {g : μ → Nat} {n : AList fun _ : κ => μ}
    (h : ∀ k, valueAt f m k = valueAt g n k) : sumBy f m = sumBy g n := by
  rw [sumBy_eq_sum f m (K := m.keys.toFinset ∪ n.keys.toFinset) fun k hk => by simp [mem_keys.mp hk],
    sumBy_eq_sum g n (K := m.keys.toFinset ∪ n.keys.toFinset) fun k hk => by simp [mem_keys.mp hk]]
  exact Finset.sum_congr rfl fun k _ => h k

theorem sumBy_eq_zero (h : ∀ k, valueAt f m k = 0) : sumBy f m = 0 := by
  rw [sumBy_eq_sum f m (K := m.keys.toFinset) fun k hk => by simp [mem_keys.mp hk]]
  exact Finset.sum_eq_zero fun k _ => h k

open Finset in
theorem sumBy_change (k : κ) (h : ∀ j, j ≠ k → valueAt f n j = valueAt f m j) :
    sumBy f n + valueAt f m k = sumBy f m + valueAt f n k := by
  have hm : sumBy f m = ∑ j ∈ insert k (m.keys.toFinset ∪ n.keys.toFinset), valueAt f m j :=
    sumBy_eq_sum f m fun j hj => by simp [mem_keys.mp hj]
  have hn : sumBy f n = ∑ j ∈ insert k (m.keys.toFinset ∪ n.keys.toFinset), valueAt f n j :=
    sumBy_eq_sum f n fun j hj => by simp [mem_keys.mp hj]
  have hk : k ∈ insert k (m.keys.toFinset ∪ n.keys.toFinset) := mem_insert_self _ _
  have hrest : ∑ j ∈ (insert k (m.keys.toFinset ∪ n.keys.toFinset)).erase k, valueAt f n j =
      ∑ j ∈ (insert k (m.keys.toFinset ∪ n.keys.toFinset)).erase k, valueAt f m j :=
    sum_congr rfl fun j hj => h j (ne_of_mem_erase hj)
  rw [← add_sum_erase _ _ hk] at hm hn
  omega

theorem sumBy_eq_add_sumOn (h : ∀ k, valueAt f n k = if k ∈ n then valueAt f m k else 0) :
    sumBy f m = sumBy f n + sumOn (fun k => decide (k ∉ n)) f m := by
  rw [sumBy_eq_sum f m (K := m.keys.toFinset ∪ n.keys.toFinset) fun k hk => by simp [mem_keys.mp hk],
    sumBy_eq_sum f n (K := m.keys.toFinset ∪ n.keys.toFinset) fun k hk => by simp [mem_keys.mp hk],
    sumOn_eq_sum _ f m (K := m.keys.toFinset ∪ n.keys.toFinset) fun k hk => by simp [mem_keys.mp hk],
    ← Finset.sum_add_distrib]
  refine Finset.sum_congr rfl fun k _ => ?_
  rw [h k]
  by_cases hk : k ∈ n <;> simp [hk]

end Library
