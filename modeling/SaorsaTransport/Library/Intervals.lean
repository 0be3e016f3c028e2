import Mathlib.Algebra.BigOperators.Group.Finset.Piecewise
import Mathlib.Algebra.Order.Ring.Nat
import Mathlib.Order.Interval.Finset.Nat
import Mathlib.Data.Nat.Count

/-! Half-open intervals of naturals, and how often a list of them covers a point. -/

namespace Library

/-- The point `o` lies in the half-open interval from `r.1` to `r.2`. -/
def InSpan (r : Nat × Nat) (o : Nat) : Prop := r.1 ≤ o ∧ o < r.2

instance (r : Nat × Nat) (o : Nat) : Decidable (InSpan r o) := inferInstanceAs (Decidable (_ ∧ _))

theorem not_inSpan {r : Nat × Nat} (h : r.2 ≤ r.1) (o : Nat) : ¬InSpan r o := fun ho => absurd (ho.1.trans_lt ho.2) h.not_gt

variable {o n : Nat} {p : Prop} {l : List (Nat × Nat)} {l₁ l₂ : List (Nat × Nat)}

def cover (l : List (Nat × Nat)) (o : Nat) : Nat := l.countP fun r => decide (InSpan r o)

/-- One for a point that has the property, zero for the others. -/
def mark (p : Prop) [Decidable p] : Nat := if p then 1 else 0

theorem mark_pos [Decidable p] (h : p) : mark p = 1 := if_pos h

theorem mark_neg [Decidable p] (h : ¬p) : mark p = 0 := if_neg h

theorem mark_congr {q : Prop} [Decidable p] [Decidable q] (h : p ↔ q) : mark p = mark q := by
  simp only [h]

theorem mark_pos_iff [Decidable p] : 0 < mark p ↔ p := by
  unfold mark
  split <;> simp [*]

theorem mark_of_le_one (h : n ≤ 1) : mark (0 < n) = n := by
  rcases Nat.le_one_iff_eq_zero_or_eq_one.mp h with rfl | rfl <;> rfl

theorem mark_le_one [Decidable p] : mark p ≤ 1 := by
  unfold mark
  split <;> omega

theorem mark_split_prop (p q : Prop) [Decidable p] [Decidable q] : mark q = mark (p ∧ q) + mark (q ∧ ¬p) := by
  by_cases hp : p
  · rw [mark_neg (p := q ∧ ¬p) fun h => h.2 hp, add_zero]
    exact mark_congr (and_iff_right hp).symm
  · rw [mark_neg (p := p ∧ q) fun h => hp h.1, zero_add]
    exact mark_congr (and_iff_left hp).symm

theorem mark_or {q : Prop} [Decidable p] [Decidable q] (h : p → ¬q) : mark (p ∨ q) = mark p + mark q := by
  by_cases hp : p
  · rw [mark_pos (p := p ∨ q) (.inl hp), mark_pos hp, mark_neg (h hp)]
  · rw [mark_congr (or_iff_right hp), mark_neg hp, zero_add]

@[simp] theorem cover_nil (o : Nat) : cover [] o = 0 := rfl

@[simp] theorem cover_cons (r : Nat × Nat) (l : List (Nat × Nat)) (o : Nat) :
    cover (r :: l) o = mark (InSpan r o) + cover l o := by
  unfold cover mark
  rw [List.countP_cons, add_comm]
  simp only [decide_eq_true_eq]

@[simp] theorem cover_append (l₁ l₂ : List (Nat × Nat)) (o : Nat) : cover (l₁ ++ l₂) o = cover l₁ o + cover l₂ o :=
  List.countP_append

theorem cover_perm (h : l₁.Perm l₂) (o : Nat) : cover l₁ o = cover l₂ o := h.countP_eq _

theorem cover_pos_iff : 0 < cover l o ↔ ∃ r ∈ l, InSpan r o := by
  unfold cover
  rw [List.countP_pos_iff]
  simp only [decide_eq_true_eq]

theorem cover_eq_zero_iff : cover l o = 0 ↔ ∀ r ∈ l, ¬InSpan r o := by
  unfold cover
  rw [List.countP_eq_zero]
  simp only [decide_eq_true_eq]

theorem cover_le_one_of_order {o : Nat} : ∀ {l : List (Nat × Nat)}, l.Pairwise (·.2 ≤ ·.1) → cover l o ≤ 1
  | [], _ => Nat.zero_le 1
  | r :: l, h => by
    obtain ⟨hr, hl⟩ := List.pairwise_cons.mp h
    rw [cover_cons]
    by_cases ho : InSpan r o
    · have hzero : cover l o = 0 :=
        cover_eq_zero_iff.mpr fun q hq hqo => absurd (ho.2.trans_le (hr q hq)) (not_lt.mpr hqo.1)
      rw [mark_pos ho, hzero]
    · rw [mark_neg ho, zero_add]
      exact cover_le_one_of_order hl

theorem mark_split {a m b : Nat} (h₁ : a ≤ m) (h₂ : m ≤ b) (o : Nat) :
    mark (InSpan (a, b) o) = mark (InSpan (a, m) o) + mark (InSpan (m, b) o) := by
  by_cases h : o < m
  · rw [mark_neg (p := InSpan (m, b) o) fun ho => absurd ho.1 (not_le.mpr h), add_zero]
    exact mark_congr ⟨fun ho => ⟨ho.1, h⟩, fun ho => ⟨ho.1, ho.2.trans_le h₂⟩⟩
  · rw [mark_neg (p := InSpan (a, m) o) fun ho => h ho.2, zero_add]
    exact mark_congr ⟨fun ho => ⟨not_lt.mp h, ho.2⟩, fun ho => ⟨h₁.trans ho.1, ho.2⟩⟩

theorem mark_empty {a b : Nat} (h : b ≤ a) (o : Nat) : mark (InSpan (a, b) o) = 0 :=
  mark_neg fun ho => absurd (ho.1.trans_lt ho.2) (not_lt.mpr h)

def total (l : List (Nat × Nat)) : Nat := (l.map fun r => r.2 - r.1).sum

@[simp] theorem total_nil : total [] = 0 := rfl

@[simp] theorem total_cons (r : Nat × Nat) (l : List (Nat × Nat)) : total (r :: l) = (r.2 - r.1) + total l := by
  simp [total]

@[simp] theorem total_append (l₁ l₂ : List (Nat × Nat)) : total (l₁ ++ l₂) = total l₁ + total l₂ := by
  simp [total]

theorem total_perm (h : l₁.Perm l₂) : total l₁ = total l₂ := (h.map _).sum_eq

open Finset in
theorem sum_mark_inSpan {r : Nat × Nat} (h : ∀ o, InSpan r o → o < n) : ∑ o ∈ range n, mark (InSpan r o) = r.2 - r.1 := by
  have hset : (range n).filter (fun o => InSpan r o) = Ico r.1 r.2 := by
    ext o
    rw [Finset.mem_filter, Finset.mem_range, Finset.mem_Ico]
    exact ⟨fun ho => ho.2, fun ho => ⟨h o ho, ho⟩⟩
  unfold mark
  rw [sum_ite, sum_const_zero, add_zero, ← card_eq_sum_ones, hset, Nat.card_Ico]

open Finset in
theorem total_eq_sum_cover {n : Nat} : ∀ {l : List (Nat × Nat)}, (∀ o, 0 < cover l o → o < n) →
    total l = ∑ o ∈ range n, cover l o
  | [], _ => by simp
  | r :: l, h => by
    simp only [cover_cons, total_cons, sum_add_distrib]
    rw [sum_mark_inSpan, total_eq_sum_cover]
    · refine fun o ho => h o ?_
      rw [cover_cons]
      omega
    · refine fun o ho => h o ?_
      rw [cover_cons, mark_pos ho]
      omega

open Finset in
/-- Disjoint intervals below `n` and the points that they leave out make up all points below `n`. -/
theorem total_add_count (hn : ∀ o, 0 < cover l o → o < n) (h : ∀ o, cover l o ≤ 1) :
    total l + Nat.count (fun o => cover l o = 0) n = n := by
  rw [total_eq_sum_cover hn, Nat.count_eq_card_filter_range, card_filter, ← sum_add_distrib]
  have hone : ∀ o, (cover l o + if cover l o = 0 then 1 else 0) = 1 := fun o => by
    have := h o
    split <;> omega
  calc ∑ o ∈ range n, (cover l o + if cover l o = 0 then 1 else 0) = ∑ _o ∈ range n, 1 := sum_congr rfl fun o _ => hone o
    _ = n := by simp

theorem total_le (hn : ∀ o, 0 < cover l o → o < n) (h : ∀ o, cover l o ≤ 1) : total l ≤ n := by
  have := total_add_count hn h
  omega

theorem pairwise_disjoint_of_cover (h : ∀ o, cover l o ≤ 1) : l.Pairwise fun r q => ∀ o, ¬(InSpan r o ∧ InSpan q o) := by
  induction l with
  | nil => exact List.Pairwise.nil
  | cons r l ih =>
    refine List.pairwise_cons.mpr ⟨fun q hq o ho => ?_, ih fun o => ?_⟩
    · have hr : mark (InSpan r o) = 1 := mark_pos ho.1
      have hl : 0 < cover l o := cover_pos_iff.mpr ⟨q, hq, ho.2⟩
      have := h o
      rw [cover_cons] at this
      omega
    · have := h o
      rw [cover_cons] at this
      omega

/-! Strings placed at an offset: a string `xs` at offset `a` says which symbol each point from `a` on holds. -/

variable {α : Type}

/-- The string `xs`, placed at offset `a`, holds `v` at the point `o`. -/
def Cell (a : Nat) (xs : List α) (o : Nat) (v : α) : Prop := a ≤ o ∧ xs[o - a]? = some v

variable {a o k : Nat} {xs ys : List α} {v w : α}

theorem Cell.inSpan (h : Cell a xs o v) : InSpan (a, a + xs.length) o := by
  obtain ⟨hlt, -⟩ := List.getElem?_eq_some_iff.mp h.2
  have := h.1
  exact ⟨h.1, by simp only; omega⟩

theorem exists_cell_iff : (∃ v, Cell a xs o v) ↔ InSpan (a, a + xs.length) o := by
  refine ⟨fun ⟨_, h⟩ => h.inSpan, fun h => ?_⟩
  have hlt : o - a < xs.length := by
    obtain ⟨h₁, h₂⟩ := h
    simp only at h₁ h₂
    omega
  exact ⟨xs[o - a], h.1, List.getElem?_eq_getElem hlt⟩

@[simp] theorem not_cell_nil : ¬Cell a ([] : List α) o v := fun h => by simpa using h.2

theorem cell_drop : Cell (a + k) (xs.drop k) o v ↔ a + k ≤ o ∧ Cell a xs o v := by
  unfold Cell
  rw [List.getElem?_drop]
  refine ⟨fun h => ⟨h.1, by omega, ?_⟩, fun h => ⟨h.1, ?_⟩⟩
  · rw [← h.2]
    congr 1
    omega
  · rw [← h.2.2]
    congr 1
    omega

theorem cell_take : Cell a (xs.take k) o v ↔ o < a + k ∧ Cell a xs o v := by
  unfold Cell
  rw [List.getElem?_take]
  split
  · exact ⟨fun h => ⟨by omega, h⟩, fun h => h.2⟩
  · exact ⟨fun h => by simp at h, fun h => by omega⟩

theorem cell_append : Cell a (xs ++ ys) o v ↔ Cell a xs o v ∨ Cell (a + xs.length) ys o v := by
  unfold Cell
  by_cases h : o - a < xs.length
  · rw [List.getElem?_append_left h]
    refine ⟨.inl, fun h' => h'.resolve_right fun h' => ?_⟩
    have := h'.1
    omega
  · rw [List.getElem?_append_right (by omega), Nat.sub_sub]
    constructor
    · rintro ⟨h₁, h₂⟩
      exact .inr ⟨by omega, h₂⟩
    · rintro (⟨h₁, h₂⟩ | ⟨h₁, h₂⟩)
      · rw [List.getElem?_eq_none (by omega)] at h₂
        cases h₂
      · exact ⟨by omega, h₂⟩

/-! Sets of naturals as lists of runs. A list is tidy when its intervals are not empty, stand in increasing order
    and leave a gap between neighbours; a set has at most one tidy list. -/

open List

def points (l : List (Nat × Nat)) : Set Nat := {o | ∃ r ∈ l, InSpan r o}

variable {l : List (Nat × Nat)} {o : Nat} {r : Nat × Nat}

@[simp] theorem mem_points : o ∈ points l ↔ ∃ r ∈ l, InSpan r o := Iff.rfl

@[simp] theorem points_nil : points [] = ∅ := by
  ext o
  simp

theorem mem_points_cons : o ∈ points (r :: l) ↔ InSpan r o ∨ o ∈ points l := by
  simp

/-- Intervals in increasing order, none of them empty, with a gap between neighbours. -/
structure Tidy (l : List (Nat × Nat)) : Prop where
  lt : ∀ r ∈ l, r.1 < r.2
  apart : l.Pairwise fun r q => r.2 < q.1

theorem tidy_nil : Tidy [] := ⟨by simp, List.Pairwise.nil⟩

theorem tidy_cons : Tidy (r :: l) ↔ r.1 < r.2 ∧ (∀ q ∈ l, r.2 < q.1) ∧ Tidy l := by
  constructor
  · intro h
    obtain ⟨hr, hl⟩ := pairwise_cons.mp h.apart
    exact ⟨h.lt r mem_cons_self, hr, ⟨fun q hq => h.lt q (mem_cons_of_mem _ hq), hl⟩⟩
  · rintro ⟨hlt, hr, hl⟩
    refine ⟨fun q hq => ?_, pairwise_cons.mpr ⟨hr, hl.apart⟩⟩
    rcases mem_cons.mp hq with rfl | hq
    · exact hlt
    · exact hl.lt q hq

theorem Tidy.lt_of_mem_tail (h : Tidy (r :: l)) (ho : o ∈ points l) : r.2 < o := by
  obtain ⟨q, hq, hqo⟩ := ho
  exact ((tidy_cons.mp h).2.1 q hq).trans_le hqo.1

/-- The first run of a set: its points belong to the set, the next one does not, and none stands before. -/
structure FirstRun (S : Set Nat) (r : Nat × Nat) : Prop where
  lt : r.1 < r.2
  sub : ∀ o, InSpan r o → o ∈ S
  stop : r.2 ∉ S
  least : ∀ o ∈ S, r.1 ≤ o

theorem FirstRun.unique {S : Set Nat} {q : Nat × Nat} (hr : FirstRun S r) (hq : FirstRun S q) : r = q := by
  have hsta : ∀ {r q : Nat × Nat}, FirstRun S r → FirstRun S q → r.1 ≤ q.1 := fun hr hq =>
    hr.least _ (hq.sub _ ⟨le_rfl, hq.lt⟩)
  have hfst : r.1 = q.1 := le_antisymm (hsta hr hq) (hsta hq hr)
  have hend : ∀ {r q : Nat × Nat}, FirstRun S r → FirstRun S q → r.1 = q.1 → q.2 ≤ r.2 := fun {r q} hr hq h => by
    by_contra hlt
    -- The end of the shorter run would be a point of the longer one.
    exact hr.stop (hq.sub _ ⟨h ▸ hr.lt.le, not_le.mp hlt⟩)
  exact Prod.ext hfst (le_antisymm (hend hq hr hfst.symm) (hend hr hq hfst))

theorem Tidy.firstRun (h : Tidy (r :: l)) : FirstRun (points (r :: l)) r where
  lt := (tidy_cons.mp h).1
  sub _ ho := mem_points_cons.mpr (.inl ho)
  stop hmem := by
    rcases mem_points_cons.mp hmem with ho | ho
    · exact lt_irrefl _ ho.2
    · exact lt_irrefl _ (h.lt_of_mem_tail ho)
  least o ho := by
    rcases mem_points_cons.mp ho with ho | ho
    · exact ho.1
    · exact ((tidy_cons.mp h).1.trans (h.lt_of_mem_tail ho)).le

theorem Tidy.mem_tail (h : Tidy (r :: l)) : o ∈ points l ↔ o ∈ points (r :: l) ∧ ¬InSpan r o := by
  rw [mem_points_cons]
  refine ⟨fun ho => ⟨.inr ho, fun hin => ?_⟩, fun ⟨ho, hout⟩ => ho.resolve_left hout⟩
  exact lt_asymm hin.2 (h.lt_of_mem_tail ho)

theorem Tidy.unique : ∀ {l m : List (Nat × Nat)}, Tidy l → Tidy m → points l = points m → l = m
  | [], [], _, _, _ => rfl
  | [], q :: m, _, hm, h => by
    have : q.1 ∈ points [] := h ▸ hm.firstRun.sub _ ⟨le_rfl, hm.firstRun.lt⟩
    simp at this
  | r :: l, [], hl, _, h => by
    have : r.1 ∈ points [] := h ▸ hl.firstRun.sub _ ⟨le_rfl, hl.firstRun.lt⟩
    simp at this
  | r :: l, q :: m, hl, hm, h => by
    obtain rfl : r = q := (h ▸ hl.firstRun).unique hm.firstRun
    rw [(tidy_cons.mp hl).2.2.unique (tidy_cons.mp hm).2.2 (Set.ext fun o => by rw [hl.mem_tail, hm.mem_tail, h])]

theorem Tidy.nodup_starts (h : Tidy l) : (l.map Prod.fst).Nodup := by
  have hsort : (l.map Prod.fst).Pairwise (· < ·) :=
    pairwise_map.mpr (h.apart.imp_of_mem fun {r q} hr _ hrq => (h.lt r hr).trans hrq)
  exact hsort.imp ne_of_lt

theorem Tidy.length_le {l : List (Nat × Nat)} (h : Tidy l) {ps : List Nat} (hmem : ∀ o ∈ points l, o ∈ ps) :
    l.length ≤ ps.length := by
  have hsub : l.map Prod.fst ⊆ ps := by
    intro o ho
    obtain ⟨r, hr, rfl⟩ := mem_map.mp ho
    exact hmem r.1 ⟨r, hr, le_rfl, h.lt r hr⟩
  have := (subperm_of_subset h.nodup_starts hsub).length_le
  rwa [length_map] at this

theorem Tidy.length_eq (h : Tidy l) {ps : List Nat} (hnodup : ps.Nodup)
    (hmem : ∀ o, o ∈ points l ↔ o ∈ ps) (hapart : ∀ o ∈ ps, o + 1 ∉ ps) : l.length = ps.length := by
  refine le_antisymm (h.length_le fun o ho => (hmem o).mp ho) ?_
  have hsub : ps ⊆ l.map Prod.fst := by
    intro o ho
    obtain ⟨r, hr, hle, hlt⟩ := (hmem o).mpr ho
    rcases Nat.eq_or_lt_of_le hle with heq | hsta
    · exact mem_map.mpr ⟨r, hr, heq⟩
    · -- The point before it would be one of the run too.
      have hpre : o - 1 ∈ ps := (hmem _).mp ⟨r, hr, Nat.le_sub_one_of_lt hsta, by omega⟩
      exact absurd (by rwa [Nat.sub_add_cancel (Nat.zero_lt_of_lt hsta)]) (hapart _ hpre)
  have := (subperm_of_subset hnodup hsub).length_le
  rwa [length_map] at this

end Library
