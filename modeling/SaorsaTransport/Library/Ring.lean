import Mathlib.Data.Nat.ModEq

/-! Ring buffers as windows on numbered cells. The buffer has `n` slots and a cursor; the slot at the cursor holds
    the cell with number `offset`, the slots behind it hold the cells with the following numbers. -/

namespace Library
open List Function
variable {α : Type} {n : Nat}

def slot (cursor : Fin n) (i : Nat) : Fin n := ⟨(cursor + i) % n, Nat.mod_lt _ (cursor.pos)⟩

@[simp] theorem slot_zero (cursor : Fin n) : slot cursor 0 = cursor := Fin.ext (Nat.mod_eq_of_lt cursor.isLt)

theorem slot_slot (cursor : Fin n) (i j : Nat) : slot (slot cursor i) j = slot cursor (i + j) := by
  apply Fin.ext
  simp only [slot, Nat.mod_add_mod, add_assoc]

theorem slot_add_len (cursor : Fin n) (i : Nat) : slot cursor (i + n) = slot cursor i := by
  apply Fin.ext
  simp only [slot, ← add_assoc, Nat.add_mod_right]

theorem slot_inj {cursor : Fin n} {i j : Nat} (h : slot cursor i = slot cursor j) (h₁ : i < j + n) (h₂ : j < i + n) :
    i = j := by
  have hmod : (cursor + i) % n = (cursor + j) % n := congrArg Fin.val h
  rcases le_total i j with hij | hij
  · have hz := (Nat.modEq_iff_dvd' (Nat.add_le_add_left hij _)).mp hmod
    have := Nat.eq_zero_of_dvd_of_lt hz (by omega)
    omega
  · have hz := (Nat.modEq_iff_dvd' (Nat.add_le_add_left hij _)).mp hmod.symm
    have := Nat.eq_zero_of_dvd_of_lt hz (by omega)
    omega

/-- The cell with number `k`, if it lies in the window. -/
def window (buffer : Fin n → Option α) (cursor : Fin n) (offset k : Nat) : Option α :=
  if offset ≤ k ∧ k < offset + n then buffer (slot cursor (k - offset)) else none

variable {buffer : Fin n → Option α} {cursor : Fin n} {offset k : Nat}

theorem window_add {i : Nat} (hi : i < n) : window buffer cursor offset (offset + i) = buffer (slot cursor i) := by
  rw [window, if_pos ⟨Nat.le_add_right _ _, Nat.add_lt_add_left hi _⟩, Nat.add_sub_cancel_left]

theorem window_isSome {a : α} (h : window buffer cursor offset k = some a) : offset ≤ k ∧ k < offset + n := by
  unfold window at h
  split at h
  · next hk => exact hk
  · cases h

theorem window_start : window buffer cursor offset offset = buffer cursor := by
  have h : window buffer cursor offset (offset + 0) = buffer (slot cursor 0) := window_add cursor.pos
  rwa [add_zero, slot_zero] at h

def clear (buffer : Fin n → Option α) (cursor : Fin n) (m : Nat) : Fin n → Option α :=
  (range m).foldl (fun buffer i => update buffer (slot cursor i) none) buffer

theorem clear_apply (m : Nat) (s : Fin n) :
    clear buffer cursor m s = if ∃ i < m, slot cursor i = s then none else buffer s := by
  induction m with
  | zero => simp [clear]
  | succ m ih =>
    have hstep : clear buffer cursor (m + 1) = update (clear buffer cursor m) (slot cursor m) none := by
      rw [clear, range_succ, foldl_append]
      rfl
    rw [hstep, update_apply, ih]
    by_cases hm : s = slot cursor m
    · rw [if_pos hm, if_pos ⟨m, Nat.lt_succ_self m, hm.symm⟩]
    · rw [if_neg hm]
      refine if_congr (exists_congr fun i => ?_) rfl rfl
      refine ⟨fun ⟨hi, h⟩ => ⟨hi.trans (Nat.lt_succ_self m), h⟩, fun ⟨hi, h⟩ => ⟨?_, h⟩⟩
      exact lt_of_le_of_ne (Nat.le_of_lt_succ hi) fun heq => hm (heq ▸ h.symm)

theorem window_move (offset k : Nat) {m index : Nat} (a : Option α) (h₁ : m ≤ index) (h₂ : index < m + n) :
    window (update (clear buffer cursor (min m n)) (slot cursor index) a) (slot cursor m) (offset + m) k =
      if k = offset + index then a else if offset + m ≤ k then window buffer cursor offset k else none := by
  unfold window
  by_cases hk : offset + m ≤ k ∧ k < offset + m + n
  · obtain ⟨j, rfl⟩ : ∃ j, k = offset + j := ⟨k - offset, by omega⟩
    have hj : offset + j - (offset + m) = j - m := by omega
    have hmj : m + (j - m) = j := by omega
    rw [if_pos hk, hj, slot_slot, hmj, update_apply, clear_apply, if_pos hk.1, Nat.add_sub_cancel_left]
    by_cases heq : j = index
    · rw [if_pos (heq ▸ rfl), if_pos (heq ▸ rfl)]
    · have hne : slot cursor j ≠ slot cursor index := fun h => heq (slot_inj h (by omega) (by omega))
      rw [if_neg hne, if_neg fun h => heq (Nat.add_left_cancel h)]
      by_cases hjn : j < n
      · -- Slots inside the old window keep their cell: the emptied ones lie before the new start.
        rw [if_neg, if_pos ⟨Nat.le_add_right _ _, Nat.add_lt_add_left hjn _⟩]
        rintro ⟨i, hi, h⟩
        have := slot_inj h (by omega) (by omega)
        omega
      · -- Slots behind the old window were among the emptied ones.
        rw [if_pos, if_neg fun h => hjn (Nat.add_lt_add_iff_left.mp h.2)]
        refine ⟨j % n, lt_min ?_ (Nat.mod_lt _ (cursor.pos)), ?_⟩
        · rcases lt_or_ge (j - n) n with hlt | hge
          · rw [Nat.mod_eq_sub_mod (not_lt.mp hjn), Nat.mod_eq_of_lt hlt]
            omega
          · have := Nat.mod_lt j (cursor.pos)
            omega
        · apply Fin.ext
          simp only [slot, Nat.add_mod_mod]
  · rw [if_neg hk, if_neg]
    · by_cases hm : offset + m ≤ k
      · rw [if_pos hm, if_neg]
        omega
      · rw [if_neg hm]
    · omega

theorem window_skip {i : Nat} (hi : i ≤ n) (hemp : ∀ j < i, window buffer cursor offset (offset + j) = none) :
    window buffer (slot cursor i) (offset + i) k = window buffer cursor offset k := by
  by_cases hk : offset + i ≤ k
  · obtain ⟨j, rfl⟩ : ∃ j, k = offset + i + j := ⟨k - (offset + i), by omega⟩
    unfold window
    rw [Nat.add_sub_cancel_left, slot_slot, show offset + i + j - offset = i + j by omega]
    by_cases hj : i + j < n
    · rw [if_pos (by omega), if_pos (by omega)]
    · rw [if_neg (show ¬(offset ≤ offset + i + j ∧ offset + i + j < offset + n) by omega)]
      split
      · next hin =>
        have hback := hemp (i + j - n) (by omega)
        rw [window_add (by omega), ← slot_add_len, Nat.sub_add_cancel (not_lt.mp hj)] at hback
        exact hback
      · rfl
  · rw [window, if_neg fun h => hk h.1]
    by_cases hin : offset ≤ k
    · obtain ⟨j, rfl⟩ : ∃ j, k = offset + j := ⟨k - offset, by omega⟩
      exact (hemp j (by omega)).symm
    · rw [window, if_neg fun h => hin h.1]

def occupied (buffer : Fin n → Option α) (cursor : Fin n) : List (Nat × α) :=
  (range n).filterMap fun i => (buffer (slot cursor i)).map fun a => (i, a)

theorem mem_occupied {p : Nat × α} : p ∈ occupied buffer cursor ↔ p.1 < n ∧ buffer (slot cursor p.1) = some p.2 := by
  simp only [occupied, mem_filterMap, mem_range, Option.map_eq_some_iff]
  constructor
  · rintro ⟨i, hi, a, ha, rfl⟩
    exact ⟨hi, ha⟩
  · rintro ⟨hi, ha⟩
    exact ⟨p.1, hi, p.2, ha, rfl⟩

theorem occupied_sorted : (occupied buffer cursor).Pairwise (·.1 < ·.1) := by
  refine List.Pairwise.filterMap _ ?_ (pairwise_lt_range (n := n))
  intro i j hij p hp q hq
  obtain ⟨a, -, rfl⟩ := Option.map_eq_some_iff.mp hp
  obtain ⟨b, -, rfl⟩ := Option.map_eq_some_iff.mp hq
  exact hij

theorem eq_none_of_not_occupied {j : Nat} (hj : j < n) (h : ∀ p ∈ occupied buffer cursor, p.1 ≠ j) :
    buffer (slot cursor j) = none := by
  rw [Option.eq_none_iff_forall_not_mem]
  intro a ha
  exact h (j, a) (mem_occupied.mpr ⟨hj, ha⟩) rfl

theorem occupied_cons {p : Nat × α} {l : List (Nat × α)} (h : occupied buffer cursor = p :: l) :
    p.1 < n ∧ buffer (slot cursor p.1) = some p.2 ∧ ∀ j < p.1, buffer (slot cursor j) = none := by
  obtain ⟨hp, hval⟩ := mem_occupied.mp (h ▸ mem_cons_self : p ∈ occupied buffer cursor)
  have hs : (occupied buffer cursor).Pairwise (·.1 < ·.1) := occupied_sorted
  rw [h, pairwise_cons] at hs
  refine ⟨hp, hval, fun j hj => eq_none_of_not_occupied (hj.trans hp) fun q hq heq => ?_⟩
  rcases mem_cons.mp (h ▸ hq) with rfl | hq
  · exact hj.ne' heq
  · exact lt_asymm hj (heq ▸ hs.1 q hq)

theorem occupied_cons_cons {p q : Nat × α} {l : List (Nat × α)} (h : occupied buffer cursor = p :: q :: l) :
    p.1 < q.1 ∧ q.1 < n ∧ buffer (slot cursor q.1) = some q.2 ∧
      ∀ j, p.1 < j → j < q.1 → buffer (slot cursor j) = none := by
  obtain ⟨hq, hval⟩ := mem_occupied.mp (by simp [h] : q ∈ occupied buffer cursor)
  have hs : (occupied buffer cursor).Pairwise (·.1 < ·.1) := occupied_sorted
  rw [h, pairwise_cons, pairwise_cons] at hs
  refine ⟨hs.1 q mem_cons_self, hq, hval, fun j hpj hjq => eq_none_of_not_occupied (hjq.trans hq) fun r hr heq => ?_⟩
  rcases mem_cons.mp (h ▸ hr) with rfl | hr
  · exact hpj.ne heq
  · rcases mem_cons.mp hr with rfl | hr
    · exact hjq.ne' heq
    · exact lt_asymm hjq (heq ▸ hs.2.1 r hr)

end Library
