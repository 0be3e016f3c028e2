import SaorsaTransport.Buffers
import SaorsaTransport.Theorems.RangeSet

/-! What the operations of a send buffer do to the bytes it keeps. Each written offset is acknowledged,
    queued to be sent again, in flight or not yet sent, and exactly one of these. -/

namespace SaorsaTransport.SendBuffer
open Library RangeSet List Finset Option

def Acked (b : SendBuffer) (o : Nat) : Prop := o < b.baseOffset ∨ b.acks.Mem o

instance (b : SendBuffer) (o : Nat) : Decidable (b.Acked o) := inferInstanceAs (Decidable (_ ∨ _))

structure Retains (b : SendBuffer) (written : Bytes) : Prop where
  length : b.offset = written.length
  unackedLen : b.unackedLen ≤ b.offset
  segments : b.unackedSegments.flatten = written.drop b.baseOffset
  acks : b.acks.Canonical
  above : ∀ o, b.acks.Mem o → b.baseOffset ≤ o ∧ o < b.offset

/-- The buffer after `written` was written to it, with the ranges of `inflight` on their way. -/
structure Reliable (b : SendBuffer) (written : Bytes) (inflight : List (Nat × Nat)) : Prop
    extends Retains b written where
  retransmits : b.retransmits.Canonical
  unsent : b.unsent ≤ b.offset
  ranges : ∀ r ∈ inflight, r.1 ≤ r.2
  once : ∀ o, mark (b.Acked o) + mark (b.retransmits.Mem o) + cover inflight o = mark (o < b.unsent)

theorem retains_new : Retains new [] :=
  ⟨rfl, le_refl 0, rfl, canonical_new, fun o h => absurd h (not_mem_new o)⟩

theorem reliable_new : Reliable new [] [] where
  toRetains := retains_new
  retransmits := canonical_new
  unsent := le_refl 0
  ranges r hr := by cases hr
  once o := by
    have hack : ¬Acked new o := fun h => h.elim (Nat.not_lt_zero o) (not_mem_new o)
    have hretx : ¬new.retransmits.Mem o := not_mem_new o
    rw [mark_neg hack, mark_neg hretx, mark_neg (p := o < new.unsent) (Nat.not_lt_zero o), cover_nil]

variable {b : SendBuffer} {written : Bytes} {inflight : List (Nat × Nat)} {r : Nat × Nat} {rest : List (Nat × Nat)}

theorem Reliable.base_le (h : Reliable b written inflight) : b.baseOffset ≤ b.unsent := by
  by_contra hlt
  have := h.once b.unsent
  rw [mark_pos (p := b.Acked b.unsent) (.inl (by omega)), mark_neg (p := b.unsent < b.unsent) (lt_irrefl _)] at this
  omega

theorem Reliable.inflight_iff (h : Reliable b written inflight) (hr : r ∈ inflight) {o : Nat}
    (ho : InSpan r o) : ¬b.Acked o ∧ ¬b.retransmits.Mem o ∧ o < b.unsent := by
  have hcov := cover_pos_iff.mpr ⟨r, hr, ho⟩
  have honce := h.once o
  have hle := mark_le_one (p := o < b.unsent)
  refine ⟨fun ha => ?_, fun hm => ?_, mark_pos_iff.mp (by omega)⟩
  · rw [mark_pos ha] at honce
    omega
  · rw [mark_pos hm] at honce
    omega

theorem baseOffset_write (h : Retains b written) (data : Bytes) : (b.write data).baseOffset = b.baseOffset := by
  have := h.unackedLen
  simp only [baseOffset, write]
  omega

theorem Retains.write (h : Retains b written) (data : Bytes) : Retains (b.write data) (written ++ data) where
  length := by simp [SendBuffer.write, h.length]
  unackedLen := Nat.add_le_add_right h.unackedLen _
  segments := by
    have hbase : b.baseOffset ≤ written.length := by
      rw [← h.length]
      exact Nat.sub_le _ _
    rw [baseOffset_write h, drop_append_of_le_length hbase, ← h.segments]
    simp [SendBuffer.write]
  acks := h.acks
  above o ho := by
    rw [baseOffset_write h]
    exact ⟨(h.above o ho).1, (h.above o ho).2.trans_le le_self_add⟩

theorem acked_write (h : Retains b written) (data : Bytes) (o : Nat) : (b.write data).Acked o ↔ b.Acked o := by
  unfold Acked
  rw [baseOffset_write h]
  rfl

theorem Reliable.write (h : Reliable b written inflight) (data : Bytes) :
    Reliable (b.write data) (written ++ data) inflight where
  toRetains := h.toRetains.write data
  retransmits := h.retransmits
  unsent := h.unsent.trans le_self_add
  ranges := h.ranges
  once o := by
    rw [mark_congr (acked_write h.toRetains data o)]
    exact h.once o

theorem advanceSegments_spec : ∀ (segments : List Bytes) {n : Nat}, n ≤ segments.flatten.length →
    ∃ rest, advanceSegments segments n = some rest ∧ rest.flatten = segments.flatten.drop n
  | [], n, h => by
    obtain rfl : n = 0 := Nat.le_zero.mp h
    exact ⟨[], rfl, rfl⟩
  | front :: segments, n, h => by
    unfold advanceSegments
    by_cases hn : n = 0
    · exact ⟨_, if_pos hn, by rw [hn, drop_zero]⟩
    rw [if_neg hn]
    rw [flatten_cons, length_append] at h
    by_cases hfront : front.length ≤ n
    · obtain ⟨rest, hrest, hflat⟩ := @advanceSegments_spec segments (n - front.length) (by omega)
      refine ⟨rest, by rw [if_pos hfront, hrest], ?_⟩
      rw [hflat, flatten_cons, drop_append, drop_eq_nil_of_le hfront, nil_append]
    refine ⟨_, if_neg hfront, ?_⟩
    rw [flatten_cons, flatten_cons, drop_append_of_le_length (not_le.mp hfront).le]

theorem Retains.flatten_length (h : Retains b written) : b.unackedSegments.flatten.length = b.unackedLen := by
  rw [h.segments, length_drop, ← h.length]
  exact Nat.sub_sub_self h.unackedLen

/-- Dropping acknowledged bytes at the front changes neither what is acknowledged nor anything else. -/
structure Dropped (b t : SendBuffer) (written : Bytes) : Prop extends Retains t written where
  offset : t.offset = b.offset
  unsent : t.unsent = b.unsent
  retransmits : t.retransmits = b.retransmits
  acked : ∀ o, t.Acked o ↔ b.Acked o

theorem ackLoop_spec : ∀ (fuel : Nat) {b : SendBuffer}, Retains b written →
    ∃ t, ackLoop fuel b = some t ∧ Dropped b t written := by
  intro fuel
  induction fuel with
  | zero => exact fun h => ⟨_, rfl, h, rfl, rfl, rfl, fun o => Iff.rfl⟩
  | succ fuel ih =>
    intro b h
    unfold ackLoop
    split
    · next hmin =>
      obtain ⟨r, acks, hpop, hr⟩ := popMin_of_min hmin
      obtain ⟨hacks, hlt, hmem, hgt⟩ := popMin_spec h.acks hpop
      have hlast : b.acks.Mem (r.2 - 1) := (hmem _).mpr (.inr ⟨by omega, by omega⟩)
      have hunack := h.unackedLen
      have hbase : b.baseOffset = b.offset - b.unackedLen := rfl
      have hfits : r.2 - r.1 ≤ b.unackedLen := by
        have := (h.above _ hlast).2
        omega
      obtain ⟨segments, hsegs, hflat⟩ := advanceSegments_spec _ (h.flatten_length.symm ▸ hfits)
      rw [hpop]
      simp only [bind_eq_bind, bind_some]
      rw [checkedSub_of_le hlt.le]
      simp only [bind_some]
      rw [checkedSub_of_le hfits]
      rw [hsegs]
      simp only [bind_some]
      generalize hs : { b with acks, unackedLen := b.unackedLen - (r.2 - r.1), unackedSegments := segments } = s
      have hsbase : s.baseOffset = r.2 := by
        rw [← hs]
        simp only [baseOffset]
        omega
      have hs' : Retains s written := by
        subst hs
        refine ⟨h.length, (Nat.sub_le _ _).trans h.unackedLen, ?_, hacks, fun o ho => ⟨?_, ?_⟩⟩
        · rw [hsbase, hflat, h.segments, drop_drop]
          congr 1
          omega
        · rw [hsbase]
          exact (hgt o ho).le
        · exact (h.above o ((hmem o).mpr (.inl ho))).2
      obtain ⟨t, ht, D⟩ := ih hs'
      refine ⟨t, ht, D.toRetains, D.offset.trans ?_, D.unsent.trans ?_, D.retransmits.trans ?_, fun o => ?_⟩
      · rw [← hs]
      · rw [← hs]
      · rw [← hs]
      · -- the front range moves below the base
        rw [D.acked o]
        unfold Acked
        rw [hsbase, hmem o, ← hs]
        constructor
        · rintro (ho | ho)
          · by_cases hlow : o < b.baseOffset
            · exact .inl hlow
            · exact .inr (.inr ⟨by omega, ho⟩)
          · exact .inr (.inl ho)
        · rintro (ho | ho | ho)
          · exact .inl (by omega)
          · exact .inr ho
          · exact .inl ho.2
    next hmin =>
    exact ⟨b, rfl, h, rfl, rfl, rfl, fun o => Iff.rfl⟩

theorem Retains.ack (h : Retains b written) (hr : ∀ o, InSpan r o → b.baseOffset ≤ o ∧ o < b.offset) :
    ∃ t, b.ack r = some t ∧ Retains t written ∧ t.offset = b.offset ∧ t.unsent = b.unsent ∧
      t.retransmits = b.retransmits ∧ ∀ o, t.Acked o ↔ b.Acked o ∨ InSpan r o := by
  obtain ⟨hcan, hmem⟩ := insert_spec (x := (max b.baseOffset r.1, max b.baseOffset r.2)) h.acks
  have hclamp : ∀ o, InSpan (max b.baseOffset r.1, max b.baseOffset r.2) o ↔ InSpan r o := fun o => by
    refine ⟨fun ho => ?_, fun ho => ?_⟩
    · simp only [InSpan] at ho ⊢
      omega
    · have := hr o ho
      simp only [InSpan] at ho ⊢
      omega
  have h' : Retains { b with acks := (b.acks.insert (max b.baseOffset r.1, max b.baseOffset r.2)).1 } written :=
    ⟨h.length, h.unackedLen, h.segments, hcan, fun o ho => by
      rcases (hmem o).mp ho with ho | ho
      · exact h.above o ho
      · exact hr o ((hclamp o).mp ho)⟩
  obtain ⟨t, ht, D⟩ := ackLoop_spec (b.acks.insert (max b.baseOffset r.1, max b.baseOffset r.2)).1.len h'
  refine ⟨t, ht, D.toRetains, D.offset, D.unsent, D.retransmits, fun o => ?_⟩
  rw [D.acked o]
  unfold Acked
  simp only [hmem o, hclamp o]
  exact or_assoc.symm

theorem Reliable.ack (h : Reliable b written inflight) (hperm : inflight.Perm (r :: rest)) :
    ∃ t, b.ack r = some t ∧ Reliable t written rest ∧ t.offset = b.offset ∧ t.unsent = b.unsent ∧
      t.retransmits = b.retransmits ∧ ∀ o, t.Acked o ↔ b.Acked o ∨ InSpan r o := by
  have hr := hperm.mem_iff.mpr mem_cons_self
  have hin : ∀ o, InSpan r o → b.baseOffset ≤ o ∧ o < b.offset := fun o ho => by
    obtain ⟨ha, -, hu⟩ := h.inflight_iff hr ho
    exact ⟨not_lt.mp fun hlt => ha (.inl hlt), hu.trans_le h.unsent⟩
  obtain ⟨t, ht, hret, hoff, huns, hretrans, hack⟩ := h.toRetains.ack hin
  refine ⟨t, ht, ⟨hret, hretrans ▸ h.retransmits, ?_, fun q hq => ?_, fun o => ?_⟩, hoff, huns, hretrans, hack⟩
  · rw [huns, hoff]
    exact h.unsent
  · exact h.ranges q (hperm.mem_iff.mpr (mem_cons_of_mem r hq))
  · have honce := h.once o
    rw [cover_perm hperm, cover_cons] at honce
    rw [hretrans, huns, ← honce, mark_congr (hack o), mark_or fun ha ho => (h.inflight_iff hr ho).1 ha]
    omega

theorem Reliable.retransmit (h : Reliable b written inflight)
    (hperm : inflight.Perm (r :: rest)) : Reliable (b.retransmit r) written rest := by
  have hr := hperm.mem_iff.mpr mem_cons_self
  obtain ⟨hcan, hmem⟩ := insert_spec (x := r) h.retransmits
  refine ⟨{ h with }, hcan, h.unsent, fun q hq => h.ranges q (hperm.mem_iff.mpr (mem_cons_of_mem r hq)), fun o => ?_⟩
  have honce := h.once o
  rw [cover_perm hperm, cover_cons] at honce
  show mark (b.Acked o) + mark ((b.retransmits.insert r).1.Mem o) + cover rest o = mark (o < b.unsent)
  rw [← honce, mark_congr (hmem o), mark_or fun hm ho => (h.inflight_iff hr ho).2.1 hm]
  omega

/-- A range fits behind its offset, with room for its length; without its length it takes all the room. -/
def Fills (maxLen : Nat) (r : Nat × Nat) (encodeLength : Bool) : Prop :=
  let taken := (if r.1 ≠ 0 then VarInt.size r.1 else 0) + (r.2 - r.1)
  if encodeLength then taken + 8 ≤ maxLen else taken = maxLen

theorem fit_spec {start last maxLen : Nat} (h : start ≤ last) (hmax : 16 ≤ maxLen) :
    ∃ end_ encodeLength, fit start last maxLen = some (end_, encodeLength) ∧ start ≤ end_ ∧ end_ ≤ last ∧
      Fills maxLen (start, end_) encodeLength := by
  have hsize : (if start ≠ 0 then VarInt.size start else 0) ≤ 8 := by
    split
    · exact VarInt.size_le start
    · exact Nat.zero_le 8
  unfold fit Fills
  rw [checkedSub_of_le (hsize.trans (by omega))]
  simp only [bind_eq_bind, bind_some]
  rw [checkedSub_of_le h]
  simp only [bind_some]
  generalize (if start ≠ 0 then VarInt.size start else 0) = size at *
  by_cases hencode : last - start < maxLen - size
  · rw [if_pos hencode, checkedSub_of_le (by omega)]
    exact ⟨_, _, rfl, by omega, by omega, by simp only [if_true]; omega⟩
  rw [if_neg hencode]
  exact ⟨_, _, rfl, by omega, by omega, by simp only [Bool.false_eq_true, if_false]; omega⟩

theorem Reliable.pollTransmit (h : Reliable b written inflight) {maxLen : Nat} (hmax : 16 ≤ maxLen) :
    ∃ t r encodeLength, b.pollTransmit maxLen = some (t, r, encodeLength) ∧ Reliable t written (r :: inflight) ∧
      t.offset = b.offset ∧ t.unackedLen = b.unackedLen ∧ t.acks = b.acks ∧
      b.baseOffset ≤ r.1 ∧ r.1 ≤ r.2 ∧ r.2 ≤ b.offset ∧ Fills maxLen r encodeLength := by
  unfold SendBuffer.pollTransmit
  cases hpop : b.retransmits.popMin with
  | none =>
    obtain ⟨end_, encodeLength, hfit, h1, h2, hfills⟩ := fit_spec h.unsent hmax
    simp only [hfit, bind_eq_bind, bind_some]
    refine ⟨_, _, _, rfl, ⟨{ h with }, h.retransmits, h2, ?_, fun o => ?_⟩, rfl, rfl, rfl, h.base_le, h1, h2, hfills⟩
    · exact fun r hr => (mem_cons.mp hr).elim (fun hr => hr ▸ h1) (h.ranges r)
    · have honce := h.once o
      have hspl := mark_split (Nat.zero_le b.unsent) h1 o
      simp only [InSpan, Nat.zero_le, true_and] at hspl
      show mark (b.Acked o) + mark (b.retransmits.Mem o) + cover ((b.unsent, end_) :: inflight) o = mark (o < end_)
      rw [cover_cons, hspl, ← honce]
      simp only [InSpan]
      omega
  | some p =>
    obtain ⟨r, retransmits⟩ := p
    obtain ⟨hcan, hlt, hmem, hgt⟩ := popMin_spec h.retransmits hpop
    obtain ⟨end_, encodeLength, hfit, h1, h2, hfills⟩ := fit_spec hlt.le hmax
    simp only [hfit, bind_eq_bind, bind_some]
    -- What does not fit goes back to the lost ranges.
    obtain ⟨hcan', hmem'⟩ : RangeSet.Canonical (if end_ ≠ r.2 then (retransmits.insert (end_, r.2)).1 else retransmits) ∧
        ∀ o, RangeSet.Mem (if end_ ≠ r.2 then (retransmits.insert (end_, r.2)).1 else retransmits) o ↔
          retransmits.Mem o ∨ InSpan (end_, r.2) o := by
      split
      · next hall =>
        exact insert_spec hcan
      next hall =>
      exact ⟨hcan, fun o => (or_iff_left fun ho => by simp only [InSpan] at ho; omega).symm⟩
    have hin : ∀ o, InSpan r o → ¬b.Acked o ∧ o < b.unsent := fun o ho => by
      have honce := h.once o
      have hle := mark_le_one (p := o < b.unsent)
      rw [mark_pos (p := b.retransmits.Mem o) ((hmem o).mpr (.inr ho))] at honce
      refine ⟨fun ha => ?_, mark_pos_iff.mp (by omega)⟩
      rw [mark_pos ha] at honce
      omega
    have hfst := hin r.1 ⟨le_rfl, hlt⟩
    have hlast := hin (r.2 - 1) ⟨by omega, by omega⟩
    have huns := h.unsent
    refine ⟨_, _, _, rfl, ⟨{ h with }, hcan', h.unsent, ?_, fun o => ?_⟩,
      rfl, rfl, rfl, not_lt.mp fun hb => hfst.1 (.inl hb), h1, by simp only; omega, hfills⟩
    · exact fun q hq => (mem_cons.mp hq).elim (fun hq => hq ▸ h1) (h.ranges q)
    · have honce := h.once o
      show mark (b.Acked o) + mark (RangeSet.Mem _ o) + cover ((r.1, end_) :: inflight) o = mark (o < b.unsent)
      have haft : ∀ {q : Nat × Nat}, q.2 ≤ r.2 → retransmits.Mem o → ¬InSpan q o := fun hq hm ho =>
        absurd (ho.2.trans_le hq) (not_lt.mpr (hgt o hm).le)
      have hspl := mark_split h1 h2 o
      rw [cover_cons, ← honce, mark_congr (hmem' o), mark_congr (hmem o), mark_or (haft (le_refl r.2)),
        mark_or (haft (q := (end_, r.2)) (le_refl r.2)), hspl]
      omega

/-- `get` finds the segment that holds the start of the range, and returns its bytes up to the end of the
    range. -/
theorem getFrom_spec {offsets : Nat × Nat} (hlt : offsets.1 < offsets.2) : ∀ {segments : List Bytes} {segmentOffset : Nat},
    segmentOffset ≤ offsets.1 → offsets.1 < segmentOffset + segments.flatten.length →
    ∃ data, getFrom offsets segmentOffset segments = some data ∧ 0 < data.length ∧ offsets.1 + data.length ≤ offsets.2 ∧
      data = (segments.flatten.drop (offsets.1 - segmentOffset)).take data.length := by
  intro segments
  induction segments with
  | nil =>
    intro segmentOffset h1 h2
    rw [flatten_nil, length_nil] at h2
    omega
  | cons segment segments ih =>
    intro segmentOffset h1 h2
    rw [flatten_cons, length_append] at h2
    unfold getFrom
    by_cases hin : segmentOffset ≤ offsets.1 ∧ offsets.1 < segmentOffset + segment.length
    · rw [if_pos hin, checkedSub_of_le (by omega)]
      simp only [bind_eq_bind, bind_some]
      rw [if_pos (by omega)]
      have hlen : ((segment.take (min (offsets.2 - segmentOffset) segment.length)).drop (offsets.1 - segmentOffset)).length
          = min (offsets.2 - segmentOffset) segment.length - (offsets.1 - segmentOffset) := by
        rw [length_drop, length_take]
        omega
      refine ⟨_, rfl, by omega, by omega, ?_⟩
      rw [hlen, flatten_cons, drop_append_of_le_length (by omega), take_append_of_le_length, drop_take]
      rw [length_drop]
      omega
    rw [if_neg hin]
    obtain ⟨data, hdata, hpos, hle, heq⟩ := @ih (segmentOffset + segment.length) (by omega) (by omega)
    refine ⟨data, hdata, hpos, hle, ?_⟩
    rw [flatten_cons, drop_append, drop_eq_nil_of_le (by omega), nil_append, Nat.sub_sub]
    exact heq

theorem Retains.copy (h : Retains b written) : ∀ (fuel : Nat) {r : Nat × Nat}, r.2 - r.1 ≤ fuel →
    b.baseOffset ≤ r.1 → r.1 ≤ r.2 → r.2 ≤ b.offset → b.copy fuel r = some ((written.take r.2).drop r.1) := by
  intro fuel
  induction fuel with
  | zero =>
    intro r hfuel h1 h2 h3
    have heq : r.1 = r.2 := by omega
    unfold SendBuffer.copy
    rw [if_pos heq, drop_eq_nil_of_le]
    rw [length_take]
    omega
  | succ fuel ih =>
    intro r hfuel h1 h2 h3
    unfold SendBuffer.copy
    by_cases heq : r.1 = r.2
    · rw [if_pos heq, drop_eq_nil_of_le]
      rw [length_take]
      omega
    rw [if_neg heq]
    have hbase : b.baseOffset + b.unackedLen = b.offset := Nat.sub_add_cancel h.unackedLen
    obtain ⟨data, hdata, hpos, hle, hby⟩ := @getFrom_spec r (by omega) b.unackedSegments _ h1
      (by rw [h.flatten_length]; omega)
    rw [h.segments, drop_drop, Nat.add_sub_cancel' h1] at hby
    simp only [SendBuffer.get, hdata, bind_eq_bind, bind_some]
    rw [ih (r := (r.1 + data.length, r.2)) (by simp only; omega) (by simp only; omega) hle h3]
    simp only [bind_some, some.injEq]
    rw [drop_take, drop_take]
    nth_rewrite 1 [hby]
    rw [show r.2 - r.1 = data.length + (r.2 - (r.1 + data.length)) by omega, take_add, drop_drop]

/-- The offsets the buffer keeps that were not acknowledged out of order. -/
def unackedOffsets (b : SendBuffer) : Finset Nat := (Finset.Ico b.baseOffset b.offset).filter fun o => ¬b.acks.Mem o

theorem mem_unackedOffsets {o : Nat} : o ∈ b.unackedOffsets ↔ o < b.offset ∧ ¬b.Acked o := by
  unfold unackedOffsets Acked
  rw [Finset.mem_filter, Finset.mem_Ico, not_or, not_lt]
  tauto

theorem Retains.unacked (h : Retains b written) : b.unacked = some b.unackedOffsets.card := by
  have hack : total b.acks.iter = ((Finset.Ico b.baseOffset b.offset).filter fun o => b.acks.Mem o).card := by
    rw [total_eq_sum_cover (n := b.offset) fun o ho => ?_]
    · simp only [cover_iter h.acks.toSeparated, mark]
      rw [← card_filter]
      congr 1
      ext o
      rw [Finset.mem_filter, Finset.mem_filter, Finset.mem_range, Finset.mem_Ico]
      exact ⟨fun ho => ⟨⟨(h.above o ho.2).1, ho.1⟩, ho.2⟩, fun ho => ⟨ho.1.2, ho.2⟩⟩
    · rw [cover_iter h.acks.toSeparated, mark_pos_iff] at ho
      exact (h.above o ho).2
  have hsum := card_filter_add_card_filter_not (s := Finset.Ico b.baseOffset b.offset) fun o => b.acks.Mem o
  have hbase : b.baseOffset + b.unackedLen = b.offset := Nat.sub_add_cancel h.unackedLen
  rw [Nat.card_Ico, ← hack] at hsum
  refine checkedSub_eq_some.mpr ?_
  show b.unackedLen = total b.acks.iter + _
  unfold unackedOffsets
  omega

theorem card_unackedOffsets_write (h : Retains b written) (data : Bytes) :
    (b.write data).unackedOffsets.card = b.unackedOffsets.card + data.length := by
  have hunion : (b.write data).unackedOffsets = b.unackedOffsets ∪ Finset.Ico b.offset (b.offset + data.length) := by
    ext o
    rw [mem_union, mem_unackedOffsets, mem_unackedOffsets, Finset.mem_Ico, acked_write h]
    show o < b.offset + data.length ∧ ¬b.Acked o ↔ _
    have hnew : b.offset ≤ o → ¬b.Acked o := fun ho ha =>
      ha.elim (fun hlt => by unfold baseOffset at hlt; omega) fun hm => absurd (h.above o hm).2 (not_lt.mpr ho)
    constructor
    · rintro ⟨h1, h2⟩
      by_cases ho : o < b.offset
      · exact .inl ⟨ho, h2⟩
      · exact .inr ⟨not_lt.mp ho, h1⟩
    · rintro (⟨h1, h2⟩ | ⟨h1, h2⟩)
      · exact ⟨by omega, h2⟩
      · exact ⟨h2, hnew h1⟩
  rw [hunion, card_union_of_disjoint, Nat.card_Ico, Nat.add_sub_cancel_left]
  refine disjoint_left.mpr fun o h1 h2 => ?_
  have := (mem_unackedOffsets.mp h1).1
  have := (Finset.mem_Ico.mp h2).1
  omega

theorem card_unackedOffsets_ack {t : SendBuffer} (hoff : t.offset = b.offset)
    (hack : ∀ o, t.Acked o ↔ b.Acked o ∨ InSpan r o) (hr : ∀ o, InSpan r o → ¬b.Acked o ∧ o < b.offset) :
    b.unackedOffsets.card = t.unackedOffsets.card + (r.2 - r.1) := by
  have hunion : b.unackedOffsets = t.unackedOffsets ∪ Finset.Ico r.1 r.2 := by
    ext o
    rw [mem_union, mem_unackedOffsets, mem_unackedOffsets, Finset.mem_Ico, hack, hoff]
    constructor
    · rintro ⟨h1, h2⟩
      by_cases ho : InSpan r o
      · exact .inr ho
      · exact .inl ⟨h1, fun ha => ha.elim h2 ho⟩
    · rintro (⟨h1, h2⟩ | ho)
      · exact ⟨h1, fun ha => h2 (.inl ha)⟩
      · exact ⟨(hr o ho).2, (hr o ho).1⟩
  rw [hunion, card_union_of_disjoint, Nat.card_Ico]
  refine disjoint_left.mpr fun o h1 h2 => (mem_unackedOffsets.mp h1).2 ?_
  exact (hack o).mpr (.inr (Finset.mem_Ico.mp h2))

end SaorsaTransport.SendBuffer

/-! Whole runs of a send buffer. Each range that was sent is in flight until it is acknowledged or lost,
    whichever comes first, in any order. -/

namespace SaorsaTransport.SendBuffer
open Library List

/-- A send buffer and its history: the bytes written, the ranges on their way and those acknowledged. -/
structure Link where
  buffer : SendBuffer
  written : Bytes
  inflight : List (Nat × Nat)
  acked : List (Nat × Nat)

namespace Link

def new : Link := ⟨SendBuffer.new, [], [], []⟩

inductive Op where
  | write (data : Bytes)
  | poll (maxLen : Nat)
  | ack (i : Nat)
  | lost (i : Nat)
  deriving DecidableEq

def step (s : Link) : Op → Option Link
  | .write data => some { s with buffer := s.buffer.write data, written := s.written ++ data }
  | .poll maxLen => do
    let (buffer, range, _) ← s.buffer.pollTransmit maxLen
    some { s with buffer, inflight := range :: s.inflight }
  | .ack i =>
    match s.inflight[i]? with
    | none => some s
    | some range => do
      let buffer ← s.buffer.ack range
      some { s with buffer, inflight := s.inflight.eraseIdx i, acked := range :: s.acked }
  | .lost i =>
    match s.inflight[i]? with
    | none => some s
    | some range => some { s with buffer := s.buffer.retransmit range, inflight := s.inflight.eraseIdx i }

def run (s : Link) (ops : List Op) : Option Link := ops.foldlM step s

structure Inv (s : Link) : Prop where
  reliable : Reliable s.buffer s.written s.inflight
  acked : ∀ o, cover s.acked o = mark (s.buffer.Acked o)

variable {s : Link}

theorem inv_new : Inv new := by
  refine ⟨reliable_new, fun o => (mark_neg fun h => ?_).symm⟩
  exact h.elim (Nat.not_lt_zero o) (RangeSet.not_mem_new o)

theorem perm_eraseIdx {l : List (Nat × Nat)} {i : Nat} {r : Nat × Nat} (h : l[i]? = some r) :
    l.Perm (r :: l.eraseIdx i) := by
  obtain ⟨hi, rfl⟩ := List.getElem?_eq_some_iff.mp h
  exact (getElem_cons_eraseIdx_perm hi).symm

/-- Frames are only written where their offset and length fit. -/
def Op.Roomy : Op → Prop
  | .poll maxLen => 16 ≤ maxLen
  | _ => True

instance : DecidablePred Op.Roomy
  | .poll maxLen => inferInstanceAs (Decidable (16 ≤ maxLen))
  | .write _ | .ack _ | .lost _ => inferInstanceAs (Decidable True)

theorem Inv.step (h : Inv s) (op : Op) (hop : op.Roomy) : ∃ t, s.step op = some t ∧ Inv t := by
  cases op with
  | write data =>
    refine ⟨_, rfl, h.reliable.write data, fun o => ?_⟩
    rw [h.acked o]
    exact mark_congr (acked_write h.reliable.toRetains data o).symm
  | poll maxLen =>
    obtain ⟨t, r, encodeLength, ht, hr, hoff, hlen, hacks, -⟩ := h.reliable.pollTransmit hop
    refine ⟨_, by simp only [Link.step, ht, Option.bind_eq_bind, Option.bind_some]; rfl, hr, fun o => ?_⟩
    rw [h.acked o]
    refine mark_congr ?_
    simp only [Acked, baseOffset, hoff, hlen, hacks]
  | ack i =>
    cases hi : s.inflight[i]? with
    | none => exact ⟨s, by simp only [Link.step, hi], h⟩
    | some r =>
      have hperm := perm_eraseIdx hi
      have hr' := hperm.mem_iff.mpr mem_cons_self
      obtain ⟨t, ht, hr, -, -, -, hack⟩ := h.reliable.ack hperm
      refine ⟨_, by simp only [Link.step, hi, ht, Option.bind_eq_bind, Option.bind_some]; rfl, hr, fun o => ?_⟩
      rw [mark_congr (hack o), mark_or fun ha ho => (h.reliable.inflight_iff hr' ho).1 ha, cover_cons, h.acked o]
      exact add_comm _ _
  | lost i =>
    cases hi : s.inflight[i]? with
    | none => exact ⟨s, by simp only [Link.step, hi], h⟩
    | some r =>
      refine ⟨_, by simp only [Link.step, hi]; rfl, ?_, ?_⟩
      · exact h.reliable.retransmit (perm_eraseIdx hi)
      · exact h.acked

theorem Inv.run : ∀ (ops : List Op) {s : Link}, Inv s → (∀ op ∈ ops, op.Roomy) → ∃ t, s.run ops = some t ∧ Inv t
  | [], s, h, _ => ⟨s, rfl, h⟩
  | op :: ops, s, h, hops => by
    obtain ⟨t, ht, h'⟩ := h.step op (hops op mem_cons_self)
    obtain ⟨u, hu, h''⟩ := Inv.run ops h' fun op' hop => hops op' (mem_cons_of_mem op hop)
    refine ⟨u, ?_, h''⟩
    rw [Link.run, foldlM_cons, ht]
    exact hu

/-- Every written byte is acknowledged, queued to be sent again, in flight or not yet sent, and the buffer holds as
    acknowledged what was acknowledged; what is sent next can be copied from it. -/
structure Accounts (s : Link) : Prop where
  offset : s.buffer.offset = s.written.length
  acked : ∀ o, cover s.acked o = mark (s.buffer.Acked o)
  once : ∀ o < s.written.length,
    cover s.acked o + mark (s.buffer.retransmits.Mem o) + cover s.inflight o + mark (s.buffer.unsent ≤ o) = 1
  sendable : ∀ maxLen, 16 ≤ maxLen → ∃ t r encodeLength, s.buffer.pollTransmit maxLen = some (t, r, encodeLength) ∧
    s.buffer.baseOffset ≤ r.1 ∧ r.1 ≤ r.2 ∧ r.2 ≤ s.buffer.offset ∧
    ∀ fuel, r.2 - r.1 ≤ fuel → t.copy fuel r = some ((s.written.take r.2).drop r.1)
  unacked : s.buffer.unacked =
    some ((Finset.Ico s.buffer.baseOffset s.buffer.offset).filter fun o => ¬s.buffer.acks.Mem o).card

theorem Inv.accounts (h : Inv s) : Accounts s := by
  refine ⟨h.reliable.length, h.acked, fun o _ => ?_, fun maxLen hmax => ?_, h.reliable.unacked⟩
  · rw [h.acked o, h.reliable.once o]
    by_cases ho : o < s.buffer.unsent
    · rw [mark_pos ho, mark_neg (not_le.mpr ho)]
    · rw [mark_neg ho, mark_pos (not_lt.mp ho)]
  · obtain ⟨t, r, encodeLength, ht, hr, hoffset, hlen, -, h1, h2, h3, -⟩ := h.reliable.pollTransmit hmax
    refine ⟨t, r, encodeLength, ht, h1, h2, h3, fun fuel hfuel => hr.copy fuel hfuel ?_ h2 (hoffset ▸ h3)⟩
    unfold baseOffset
    rw [hoffset, hlen]
    exact h1

/-- Nothing the buffer does can fail, and it accounts for every byte. -/
theorem reliable_transport (ops : List Op) (hops : ∀ op ∈ ops, op.Roomy) : ∃ s, new.run ops = some s ∧ Accounts s := by
  obtain ⟨s, hs, h⟩ := inv_new.run ops hops
  exact ⟨s, hs, h.accounts⟩

/-- Two segments, a frame that splits the first one, a loss, and acknowledgements out of order. -/
theorem reliable_transport_reordered :
    let ops := [.write [1, 2, 3, 4, 5, 6, 7, 8, 9, 10], .poll 16, .write [11, 12], .poll 20, .ack 0, .lost 0, .poll 16,
      .ack 0]
    (∀ op ∈ ops, Op.Roomy op) ∧ ∃ s, new.run ops = some s ∧ Accounts s :=
  ⟨by decide, reliable_transport _ (by decide)⟩

end Link
end SaorsaTransport.SendBuffer
