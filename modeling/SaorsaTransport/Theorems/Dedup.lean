import SaorsaTransport.Packet

/-! Detection of duplicates is exact: the window remembers every packet number of the 129 that end at the highest
    one, and what lies further back is refused. -/

namespace SaorsaTransport
open List
namespace Dedup

/-- The deduplicator after the packet numbers `packets`, in the order in which they came. -/
def after (packets : List Nat) : Dedup := packets.foldl (fun dedup packet => (dedup.insert packet).2) new

def processed (self : Dedup) : List Nat → List Nat
  | [] => []
  | packet :: packets =>
    let (duplicate, next) := self.insert packet
    if duplicate then next.processed packets else packet :: next.processed packets

/-- The deduplicator holds the numbers in `seen` as far as it looks back: `next` stands behind all of them and right
    behind one, and the bit for a smaller number, if there is one, tells whether it was seen. -/
structure Remembers (dedup : Dedup) (seen : Nat → Prop) : Prop where
  lt : ∀ packet, seen packet → packet < dedup.next
  highest : 0 < dedup.next → seen (dedup.next - 1)
  bit : ∀ back, back < 128 → back + 2 ≤ dedup.next → (dedup.window.getLsbD back = true ↔ seen (dedup.next - 2 - back))

variable {dedup : Dedup} {seen : Nat → Prop} {packet : Nat}

theorem remembers_new : Remembers new fun _ => False := by
  refine ⟨fun _ h => h.elim, fun h => ?_, fun back _ h => ?_⟩
  · exact absurd h (lt_irrefl 0)
  · exact absurd h (Nat.not_succ_le_zero _)

theorem getLsbD_shifted (window : BitVec 128) (diff back : Nat) (hback : back < 128) :
    (((window <<< 1) ||| 1) <<< diff).getLsbD back
      = (decide (diff ≤ back) && (decide (back = diff) || window.getLsbD (back - diff - 1))) := by
  rw [BitVec.getLsbD_shiftLeft, BitVec.getLsbD_or, BitVec.getLsbD_shiftLeft]
  rcases lt_or_ge back diff with hlt | hge
  · simp [hlt]
  rcases Nat.eq_or_lt_of_le hge with rfl | hlt
  · simp [hback]
  have hpos := Nat.sub_ne_zero_of_lt hlt
  have hin : back - diff < 128 := (Nat.sub_le _ _).trans_lt hback
  simp [hpos, hin, hback, hge, ne_of_gt hlt]

theorem Remembers.right (h : Remembers dedup seen) (hle : dedup.next ≤ packet) :
    Remembers ⟨((dedup.window <<< 1) ||| 1) <<< (packet - dedup.next), packet + 1⟩ fun q => seen q ∨ q = packet := by
  refine ⟨?_, fun _ => .inr rfl, fun back hback hnext => ?_⟩
  · rintro q (hq | rfl)
    · exact Nat.lt_succ_of_lt ((h.lt q hq).trans_le hle)
    · exact Nat.lt_succ_self q
  · have hnext : back + 2 ≤ packet + 1 := hnext
    rw [getLsbD_shifted _ _ _ hback]
    simp only [Bool.and_eq_true, Bool.or_eq_true, decide_eq_true_eq]
    have hne : packet + 1 - 2 - back ≠ packet := by omega
    -- Numbers from the old `next` on were not seen; the old highest one is the bit that was shifted in.
    rcases lt_trichotomy back (packet - dedup.next) with hlt | heq | hgt
    · refine ⟨fun hbit => absurd hbit.1 (not_le.mpr hlt), ?_⟩
      rintro (hseen | heq)
      · have := h.lt _ hseen
        omega
      · exact absurd heq hne
    · refine ⟨fun _ => .inl ?_, fun _ => ⟨heq.ge, .inl heq⟩⟩
      have := h.highest (by omega)
      rwa [show packet + 1 - 2 - back = dedup.next - 1 by omega]
    have hold := h.bit (back - (packet - dedup.next) - 1) (by omega) (by omega)
    rw [show dedup.next - 2 - (back - (packet - dedup.next) - 1) = packet + 1 - 2 - back by omega] at hold
    rw [hold]
    refine ⟨fun hbit => .inl (hbit.2.resolve_left (ne_of_gt hgt)), ?_⟩
    rintro (hseen | heq)
    · exact ⟨hgt.le, .inr hseen⟩
    · exact absurd heq hne

theorem getLsbD_mask {bit back : Nat} (hback : back < 128) :
    (((1 <<< bit : Nat) : BitVec 128)).getLsbD back = decide (back = bit) := by
  rw [BitVec.natCast_eq_ofNat, BitVec.getLsbD_ofNat, Nat.one_shiftLeft, Nat.testBit_two_pow]
  simp [hback, eq_comm]

section
variable (h : Remembers dedup seen)
include h

theorem Remembers.mark (bit : Nat) (hbit : bit < 128) (hnext : bit + 2 ≤ dedup.next) :
    Remembers { dedup with window := dedup.window ||| (1 <<< bit) } fun q => seen q ∨ q = dedup.next - 2 - bit := by
  refine ⟨?_, fun hpos => .inl (h.highest hpos), fun back hback hle => ?_⟩
  · rintro q (hq | rfl)
    · exact h.lt q hq
    · change dedup.next - 2 - bit < dedup.next
      omega
  · have hle : back + 2 ≤ dedup.next := hle
    rw [BitVec.getLsbD_or, getLsbD_mask hback, Bool.or_eq_true, h.bit back hback hle, decide_eq_true_eq]
    refine or_congr Iff.rfl ⟨fun heq => heq ▸ rfl, fun heq => ?_⟩
    have heq : dedup.next - 2 - back = dedup.next - 2 - bit := heq
    omega

theorem Remembers.below (hblw : packet + windowSize < dedup.next) : Remembers dedup fun q => seen q ∨ q = packet := by
  refine ⟨?_, fun hpos => .inl (h.highest hpos), fun back hback hle => ?_⟩
  · rintro q (hq | rfl)
    · exact h.lt q hq
    · exact le_self_add.trans_lt hblw
  · have hne : dedup.next - 2 - back ≠ packet := by
      have : windowSize = 129 := rfl
      omega
    rw [h.bit back hback hle]
    exact ⟨.inl, fun hq => hq.resolve_right hne⟩

theorem Remembers.again (hseen : seen packet) : Remembers dedup fun q => seen q ∨ q = packet := by
  have : (fun q => seen q ∨ q = packet) = seen :=
    funext fun q => propext ⟨fun hq => hq.elim id fun heq => heq ▸ hseen, .inl⟩
  rwa [this]

theorem Remembers.insert (packet : Nat) :
    ((dedup.insert packet).1 = true ↔ seen packet ∨ packet + windowSize < dedup.next) ∧
      Remembers (dedup.insert packet).2 fun q => seen q ∨ q = packet := by
  have hwin : windowSize = 129 := rfl
  unfold Dedup.insert
  split
  · next hle =>
    refine ⟨⟨fun hdup => Bool.noConfusion hdup, ?_⟩, h.right hle⟩
    rintro (hseen | hblw)
    · exact absurd (h.lt packet hseen) (not_lt.mpr hle)
    · omega
  next hlt =>
  simp only
  split
  · next hback =>
    have hin : ¬packet + windowSize < dedup.next := by omega
    split
    · next hzero =>
      -- The highest packet has no bit of its own; it was seen.
      have hseen : seen packet := by
        have := h.highest (by omega)
        rwa [show dedup.next - 1 = packet by omega] at this
      exact ⟨⟨fun _ => .inl hseen, fun _ => rfl⟩, h.again hseen⟩
    next hpos =>
    have hnum : dedup.next - 2 - (dedup.next - 1 - packet - 1) = packet := by omega
    have hmark := h.mark (dedup.next - 1 - packet - 1) (by omega) (by omega)
    rw [hnum] at hmark
    refine ⟨?_, hmark⟩
    rw [h.bit _ (by omega) (by omega), hnum]
    exact ⟨.inl, fun hq => hq.resolve_right hin⟩
  next hback =>
  have hblw : packet + windowSize < dedup.next := by omega
  exact ⟨⟨fun _ => .inr hblw, fun _ => rfl⟩, h.below hblw⟩

end

theorem Remembers.foldl : ∀ (packets : List Nat) {dedup : Dedup} {seen : Nat → Prop}, Remembers dedup seen →
    Remembers (packets.foldl (fun dedup packet => (dedup.insert packet).2) dedup) fun q => seen q ∨ q ∈ packets
  | [], dedup, seen, h => by simpa using h
  | packet :: packets, dedup, seen, h => by
    have := Remembers.foldl packets (h.insert packet).2
    simpa only [foldl_cons, mem_cons, or_assoc] using this

theorem remembers_after (packets : List Nat) : Remembers (after packets) (· ∈ packets) := by
  have := remembers_new.foldl packets
  simpa only [after, false_or] using this

theorem Remembers.below_iff (h : Remembers dedup seen) (packet : Nat) :
    packet + windowSize < dedup.next ↔ ∃ highest, seen highest ∧ packet + windowSize ≤ highest := by
  constructor
  · intro hblw
    exact ⟨dedup.next - 1, h.highest (Nat.zero_lt_of_lt hblw), Nat.le_sub_one_of_lt hblw⟩
  · rintro ⟨highest, hseen, hle⟩
    exact hle.trans_lt (h.lt highest hseen)

theorem Remembers.processed : ∀ (packets : List Nat) {dedup : Dedup} {seen : Nat → Prop}, Remembers dedup seen →
    (dedup.processed packets).Nodup ∧ ∀ q ∈ dedup.processed packets, ¬seen q
  | [], dedup, seen, _ => ⟨nodup_nil, fun _ h => absurd h not_mem_nil⟩
  | packet :: packets, dedup, seen, h => by
    obtain ⟨hdup, hnext⟩ := h.insert packet
    obtain ⟨hnodup, hfresh⟩ := Remembers.processed packets hnext
    unfold Dedup.processed
    simp only
    split
    · exact ⟨hnodup, fun q hq hseen => hfresh q hq (.inl hseen)⟩
    next hnot =>
    refine ⟨nodup_cons.mpr ⟨fun hmem => hfresh packet hmem (.inr rfl), hnodup⟩, fun q hq hseen => ?_⟩
    rcases mem_cons.mp hq with rfl | hq
    · exact hnot (hdup.mpr (.inl hseen))
    · exact hfresh q hq (.inl hseen)

/-- The call for `packet` reports a duplicate exactly when the number came before or lies below the 129 numbers that
    end at the highest one; so no number is processed twice, and none of the window is refused that is new. -/
theorem duplicate_iff (packets : List Nat) (packet : Nat) :
    (((after packets).insert packet).1 = true ↔
        packet ∈ packets ∨ ∃ highest ∈ packets, packet + windowSize ≤ highest) ∧
      (new.processed packets).Nodup ∧
      (packet ∉ packets → (∀ q ∈ packets, q < packet + windowSize) → ((after packets).insert packet).1 = false) := by
  have h := remembers_after packets
  have hdup : ((after packets).insert packet).1 = true ↔
      packet ∈ packets ∨ ∃ highest ∈ packets, packet + windowSize ≤ highest := by
    rw [(h.insert packet).1, h.below_iff]
  refine ⟨hdup, (remembers_new.processed packets).1, fun hfresh hwindow => ?_⟩
  rw [Bool.eq_false_iff]
  intro htrue
  rcases hdup.mp htrue with hmem | ⟨highest, hmem, hle⟩
  · exact hfresh hmem
  · exact not_lt.mpr hle (hwindow highest hmem)

theorem lt_of_getLsbD_clz {x : BitVec 128} {i : Nat} (h : x.getLsbD i = true) : i < 128 - x.clz.toNat :=
  (Nat.pow_lt_pow_iff_right Nat.one_lt_two).mp ((Nat.ge_two_pow_of_testBit h).trans_lt BitVec.toNat_lt_two_pow_sub_clz)

theorem getLsbD_clz {x : BitVec 128} (h : 0 < 128 - x.clz.toNat) : x.getLsbD (128 - x.clz.toNat - 1) = true := by
  have hne : x ≠ 0#128 := by
    rintro rfl
    exact absurd h (by decide)
  rw [Nat.sub_right_comm]
  exact BitVec.getLsbD_true_clz_of_ne_zero (by decide) hne

theorem getLsbD_range {len start back : Nat} (hlen : len < 128) :
    (((1#128 <<< len) - 1) <<< start).getLsbD back = true ↔ back < 128 ∧ start ≤ back ∧ back < start + len := by
  have hones : (1#128 <<< len) - 1 = BitVec.ofNat 128 (2 ^ len - 1) := by
    apply BitVec.eq_of_toNat_eq
    have hpos := Nat.two_pow_pos len
    simp [BitVec.toNat_sub, Nat.one_shiftLeft]
    omega
  rw [hones, BitVec.getLsbD_shiftLeft, BitVec.getLsbD_ofNat, Nat.testBit_two_pow_sub_one]
  simp only [Bool.and_eq_true, Bool.not_eq_true', decide_eq_true_eq, decide_eq_false_iff_not]
  omega

theorem Remembers.smallestMissing (h : Remembers dedup seen) (lower : Nat) {upper : Nat} (hupper : upper < dedup.next) :
    (dedup.smallestMissingInInterval lower upper).elim
      (∀ q, ¬(lower < q ∧ q < upper ∧ ¬seen q ∧ dedup.next ≤ q + windowSize))
      (IsLeast {q | lower < q ∧ q < upper ∧ ¬seen q ∧ dedup.next ≤ q + windowSize}) := by
  have hwin : windowSize = 129 := rfl
  unfold smallestMissingInInterval
  extract_lets highest lowerBound upperBound startOffset rangeLen mask gaps smallest
  have hmask : ∀ back, mask.getLsbD back = true ↔
      back < 128 ∧ (rangeLen = 128 ∨ startOffset ≤ back ∧ back < startOffset + rangeLen) := fun back => by
    unfold mask
    split
    · next hfull =>
      rw [BitVec.getLsbD_allOnes]
      simp [hfull]
    next hlen =>
    rw [getLsbD_range (by omega)]
    simp [hlen]
  have hgaps : ∀ back, back < 128 → back + 2 ≤ dedup.next → (gaps.getLsbD back = true ↔ ¬seen (dedup.next - 2 - back) ∧
        (rangeLen = 128 ∨ startOffset ≤ back ∧ back < startOffset + rangeLen)) := fun back hback hnext => by
    rw [BitVec.getLsbD_and, BitVec.getLsbD_not, Bool.and_eq_true, hmask back, ← h.bit back hback hnext]
    simp [hback]
  -- What is missing has a bit among the gaps, at most the leading one.
  have hbit : ∀ q, lower < q ∧ q < upper ∧ ¬seen q ∧ dedup.next ≤ q + windowSize →
      startOffset < 128 ∧ rangeLen ≠ 0 ∧ smallest ≤ q := by
    rintro q ⟨hlow, hup, hseen, hin⟩
    have := (hgaps (dedup.next - 2 - q) (by omega) (by omega)).mpr
      ⟨by rwa [show dedup.next - 2 - (dedup.next - 2 - q) = q by omega], by omega⟩
    have := lt_of_getLsbD_clz this
    omega
  split
  · exact fun q hq => absurd (hbit q hq).1 (by omega)
  split
  · exact fun q hq => (hbit q hq).2.1 ‹_›
  split
  · next hsm =>
    refine ⟨?_, fun q hq => (hbit q hq).2.2⟩
    have hpos : 0 < 128 - gaps.clz.toNat := by omega
    have hlead := getLsbD_clz hpos
    have hrange := (hmask _).mp (Bool.and_eq_true_iff.mp (BitVec.getLsbD_and .. ▸ hlead)).2
    have hseen := ((hgaps _ hrange.1 (by omega)).mp hlead).1
    rw [show dedup.next - 2 - (128 - gaps.clz.toNat - 1) = smallest by omega] at hseen
    exact ⟨by omega, by omega, hseen, by omega⟩
  next hlg =>
  intro q hq
  have := (hbit q hq).2.2
  exact hlg (by omega)

/-- The numbers between `lower` and `upper` that did not come and that the window still covers. -/
def Missing (packets : List Nat) (lower upper : Nat) : Set Nat :=
  {q | lower < q ∧ q < upper ∧ q ∉ packets ∧ ∀ r ∈ packets, r < q + windowSize}

/-- The gap that is found is the smallest one of the window; none is found if there is none. -/
theorem smallest_missing_exact (packets : List Nat) (lower upper : Nat) (hupper : ∃ highest ∈ packets, upper ≤ highest) :
    ((after packets).smallestMissingInInterval lower upper).elim
      (∀ q, q ∉ Missing packets lower upper) (IsLeast (Missing packets lower upper)) := by
  have h := remembers_after packets
  obtain ⟨highest, hmem, hle⟩ := hupper
  have hin : ∀ q, (after packets).next ≤ q + windowSize ↔ ∀ r ∈ packets, r < q + windowSize := fun q => by
    rw [← not_lt, h.below_iff]
    push Not
    rfl
  have hmissing := h.smallestMissing lower (hle.trans_lt (h.lt highest hmem))
  simp only [hin] at hmissing
  exact hmissing

theorem smallest_missing_exact_gap : (after [1, 5, 3]).smallestMissingInInterval 1 5 = some 2 ∧
    IsLeast (Missing [1, 5, 3] 1 5) 2 := by
  have hgap : (after [1, 5, 3]).smallestMissingInInterval 1 5 = some 2 := by decide +kernel
  have := smallest_missing_exact [1, 5, 3] 1 5 ⟨5, by decide, le_rfl⟩
  exact ⟨hgap, this⟩

end Dedup
end SaorsaTransport
