import SaorsaTransport.Theorems.Keys

/-! Packet numbers are recovered from their last bytes. -/

namespace SaorsaTransport
open Library

namespace PacketNumber

variable {pn : PacketNumber} {n largestAcked expected m : Nat}

def Means (pn : PacketNumber) (expected m : Nat) : Prop :=
  m % 2 ^ (pn.len * 8) = pn.truncated ∧ expected < m + 2 ^ (pn.len * 8) / 2 ∧ m ≤ expected + 2 ^ (pn.len * 8) / 2

theorem exists_half (pn : PacketNumber) : ∃ half, 0 < half ∧ half ≤ 2 ^ 31 ∧ 2 ^ (pn.len * 8) = 2 * half := by
  have hlen : 1 ≤ pn.len ∧ pn.len ≤ 4 := by cases pn <;> simp [len]
  refine ⟨2 ^ (pn.len * 8 - 1), Nat.two_pow_pos _, Nat.pow_le_pow_right (by decide) (by omega), ?_⟩
  rw [← Nat.pow_succ', Nat.succ_eq_add_one, Nat.sub_add_cancel (by omega)]

theorem expand_eq (h : pn.Means expected m) : pn.expand expected = m := by
  obtain ⟨half, hpos, -, hwin⟩ := pn.exists_half
  rw [Means, hwin, Nat.mul_div_cancel_left half Nat.two_pos] at h
  obtain ⟨hmod, hlow, hhigh⟩ := h
  rw [expand, hwin, Nat.mul_div_cancel_left half Nat.two_pos, ← hmod]
  have hm := Nat.div_add_mod' m (2 * half)
  have he := Nat.div_add_mod' expected (2 * half)
  have hlt := Nat.mod_lt m (Nat.mul_pos Nat.two_pos hpos)
  have hlt' := Nat.mod_lt expected (Nat.mul_pos Nat.two_pos hpos)
  generalize m / (2 * half) = b at *
  generalize expected / (2 * half) = a at *
  -- `m` has the upper bits of `expected`, or those next to them.
  have hb : b < a + 2 := Nat.lt_of_mul_lt_mul_right (a := 2 * half) (by rw [Nat.add_mul]; omega)
  have ha : a < b + 2 := Nat.lt_of_mul_lt_mul_right (a := 2 * half) (by rw [Nat.add_mul]; omega)
  obtain rfl | rfl | rfl : b = a ∨ b = a + 1 ∨ a = b + 1 := by omega
  · rw [if_neg (by omega), if_neg (by omega)]
    omega
  · rw [Nat.succ_mul] at hm
    rw [if_pos (by omega)]
    omega
  rw [Nat.succ_mul] at he ⊢
  rw [if_neg (by omega), if_pos (by omega)]
  omega

theorem expandU64_eq (hexp : expected + 2 ^ 31 ≤ u64Max) : pn.expandU64 expected = some (pn.expand expected) := by
  obtain ⟨half, -, hle, hwin⟩ := pn.exists_half
  have hsum : checkedAdd expected half = some (expected + half) := if_pos (by omega)
  simp only [expandU64, expand, hwin, Nat.mul_div_cancel_left half Nat.two_pos, hsum, Option.bind_eq_bind, Option.bind_some]
  split
  · exact if_pos (by omega)
  · split <;> rfl

theorem new_means (hle : largestAcked ≤ n) (hnear : n - largestAcked < 2 ^ 31) (hlow : largestAcked ≤ expected)
    (hhigh : expected ≤ n) : ∃ pn, new n largestAcked = some pn ∧ pn.onWire.Means expected n := by
  simp only [new, checkedSub_of_le hle, Option.bind_eq_bind, Option.bind_some]
  -- The length is the first one for which `n` is less than half a window above what was acknowledged.
  split <;> [skip; split <;> [skip; split]] <;> refine ⟨_, rfl, ?_, ?_, ?_⟩ <;>
    simp only [onWire, len, truncated] <;> omega

/-- A number is read back by every peer that expects one from the acknowledged number on, and any truncated number is
    read, without an overflow, as the one that it means. -/
theorem truncation_invertible :
    (∀ n largestAcked expected, n < 2 ^ 62 → largestAcked ≤ n → n - largestAcked < 2 ^ 31 → largestAcked ≤ expected →
      expected ≤ n → ∃ pn, new n largestAcked = some pn ∧ pn.onWire.expandU64 expected = some n) ∧
    ∀ (pn : PacketNumber) expected, expected + 2 ^ 31 ≤ u64Max →
      ∃ k, pn.expandU64 expected = some k ∧ ∀ m, pn.Means expected m → m = k := by
  refine ⟨fun n _ expected hn hle hnear hlow hhigh => ?_, fun pn expected hexpected => ?_⟩
  · obtain ⟨pn, hpn, hmeans⟩ := new_means hle hnear hlow hhigh
    refine ⟨pn, hpn, ?_⟩
    rw [expandU64_eq (by unfold u64Max; omega), expand_eq hmeans]
  · exact ⟨_, expandU64_eq hexpected, fun m hm => (expand_eq hm).symm⟩

theorem truncation_invertible_byte : (∃ pn, new 1000 900 = some pn ∧ pn.onWire.expandU64 950 = some 1000) ∧
    ∃ k, (u8 3).expandU64 255 = some k ∧ ∀ m, (u8 3).Means 255 m → m = k :=
  ⟨truncation_invertible.1 1000 900 950 (by decide) (by decide) (by decide) (by decide) (by decide),
    truncation_invertible.2 (u8 3) 255 (by decide)⟩

end PacketNumber

/-! The packet numbers of the data space, of which `PacketNumberFilter` skips some on purpose. An acknowledgment of
    the last one is found out. -/

open List Option

/-- The data space and its filter, with a record of the numbers that were allocated and of those skipped. -/
structure Numbering where
  filter : PacketNumberFilter
  space : KeySpace
  allocated : List Nat
  skipped : List Nat

namespace Numbering

def skips (self : Numbering) : Option Nat :=
  if self.space.nextPacketNumber = self.filter.nextSkippedPacketNumber then some self.space.nextPacketNumber else none

def step (self : Numbering) (draw : Nat) : Option Numbering :=
  (self.filter.allocate draw self.space).map fun (n, space, filter) =>
    ⟨filter, space, self.allocated ++ [n], self.skipped ++ self.skips.toList⟩

def Start (self : Numbering) : Prop := ∃ draw, self = ⟨.new draw, .new, [], []⟩

/-- If a number is skipped now, the next one to skip is not the number right behind it. -/
def Spaced (self : Numbering) (draw : Nat) : Prop :=
  ∀ n, self.skips = some n → 2 ^ self.filter.exponent + draw % 2 ^ self.filter.exponent ≠ n + 1

instance (self : Numbering) (draw : Nat) : Decidable (self.Spaced draw) :=
  decidable_of_iff (self.skips.all fun n =>
    decide (2 ^ self.filter.exponent + draw % 2 ^ self.filter.exponent ≠ n + 1)) (by
      cases hskips : self.skips <;> simp [Spaced, hskips])

variable {s t : Numbering} {draw : Nat}

theorem step_cases (h : s.step draw = some t) :
    (s.space.nextPacketNumber ≠ s.filter.nextSkippedPacketNumber ∧ t.filter = s.filter ∧
      t.space.nextPacketNumber = s.space.nextPacketNumber + 1 ∧
      t.allocated = s.allocated ++ [s.space.nextPacketNumber] ∧ t.skipped = s.skipped) ∨
    (s.skips = some s.space.nextPacketNumber ∧ s.space.nextPacketNumber = s.filter.nextSkippedPacketNumber ∧
      t.filter = ⟨2 ^ s.filter.exponent + draw % 2 ^ s.filter.exponent, some s.space.nextPacketNumber,
        s.filter.exponent + 1⟩ ∧ t.space.nextPacketNumber = s.space.nextPacketNumber + 2 ∧
      t.allocated = s.allocated ++ [s.space.nextPacketNumber + 1] ∧
      t.skipped = s.skipped ++ [s.space.nextPacketNumber]) := by
  obtain ⟨⟨n, space, filter⟩, halloc, rfl⟩ := map_eq_some_iff.mp h
  obtain ⟨⟨m, mid⟩, hm, halloc⟩ := bind_eq_some_iff.mp halloc
  obtain ⟨rfl, rfl⟩ := KeyedConnection.getTxNumber_inv hm
  dsimp only at halloc
  split at halloc
  · next hne =>
    cases halloc
    exact .inl ⟨hne, rfl, rfl, rfl, by simp [skips, hne]⟩
  next heq =>
  obtain ⟨⟨m, last⟩, hm, halloc⟩ := map_eq_some_iff.mp halloc
  obtain ⟨rfl, rfl⟩ := KeyedConnection.getTxNumber_inv hm
  obtain ⟨rfl, rfl, rfl⟩ := halloc
  have heq := not_not.mp heq
  exact .inr ⟨if_pos heq, heq, by rw [heq], rfl, rfl, by simp [skips, heq]⟩

/-- The numbers that were allocated and skipped stand below the next one, in order and apart, and the filter knows
    the last that was skipped. -/
structure Sound (s : Numbering) : Prop where
  increasing : s.allocated.Pairwise (· < ·)
  allocated_lt : ∀ n ∈ s.allocated, n < s.space.nextPacketNumber
  skipped_lt : ∀ n ∈ s.skipped, n < s.space.nextPacketNumber
  apart : ∀ n ∈ s.skipped, n ∉ s.allocated
  last : s.filter.prevSkippedPacketNumber = s.skipped.getLast?

theorem Sound.start {s : Numbering} (h : s.Start) : s.Sound := by
  obtain ⟨draw, rfl⟩ := h
  exact ⟨List.Pairwise.nil, by simp, by simp, by simp, rfl⟩

theorem pairwise_concat {l : List Nat} {n : Nat} (h : l.Pairwise (· < ·)) (hn : ∀ m ∈ l, m < n) :
    (l ++ [n]).Pairwise (· < ·) :=
  pairwise_append.mpr ⟨h, pairwise_singleton _ _, fun m hm _ hk => mem_singleton.mp hk ▸ hn m hm⟩

theorem Sound.step (h : s.Sound) (hstep : s.step draw = some t) : t.Sound := by
  rcases step_cases hstep with ⟨-, hfil, hnext, hallc, hskip⟩ | ⟨-, -, hfil, hnext, hallc, hskip⟩
  · refine ⟨?_, ?_, ?_, ?_, ?_⟩
    · rw [hallc]
      exact pairwise_concat h.increasing h.allocated_lt
    · simp only [hallc, hnext, mem_append, mem_singleton]
      rintro n (hn | rfl)
      · exact Nat.lt_succ_of_lt (h.allocated_lt n hn)
      · exact lt_add_one _
    · intro n hn
      rw [hnext]
      exact Nat.lt_succ_of_lt (h.skipped_lt n (hskip ▸ hn))
    · intro n hn
      have hlt := h.skipped_lt n (hskip ▸ hn)
      simp only [hallc, mem_append, mem_singleton, not_or]
      exact ⟨h.apart n (hskip ▸ hn), hlt.ne⟩
    · rw [hfil, hskip, h.last]
  refine ⟨?_, ?_, ?_, ?_, ?_⟩
  · rw [hallc]
    exact pairwise_concat h.increasing fun m hm => Nat.lt_succ_of_lt (h.allocated_lt m hm)
  · simp only [hallc, hnext, mem_append, mem_singleton]
    rintro n (hn | rfl)
    · exact Nat.lt_add_right 2 (h.allocated_lt n hn)
    · exact lt_add_one _
  · simp only [hskip, hnext, mem_append, mem_singleton]
    rintro n (hn | rfl)
    · exact Nat.lt_add_right 2 (h.skipped_lt n hn)
    · exact Nat.lt_add_of_pos_right Nat.two_pos
  · simp only [hskip, hallc, mem_append, mem_singleton, not_or]
    rintro n (hn | rfl)
    · exact ⟨h.apart n hn, (Nat.lt_succ_of_lt (h.skipped_lt n hn)).ne⟩
    · exact ⟨fun hmem => lt_irrefl _ (h.allocated_lt _ hmem), ne_of_lt (lt_add_one _)⟩
  · rw [hfil, hskip, getLast?_concat]

/-- The number to skip next has not been passed, and stands below the range of the next draw. -/
structure Ahead (s : Numbering) : Prop where
  le : s.space.nextPacketNumber ≤ s.filter.nextSkippedPacketNumber
  lt : s.filter.nextSkippedPacketNumber < 2 ^ s.filter.exponent

theorem Ahead.start {s : Numbering} (h : s.Start) : s.Ahead := by
  obtain ⟨draw, rfl⟩ := h
  exact ⟨zero_le, Nat.mod_lt _ (by decide)⟩

theorem Ahead.step (h : s.Ahead) (hspaced : s.Spaced draw) (hstep : s.step draw = some t) : t.Ahead := by
  rcases step_cases hstep with ⟨hne, hfil, hnext, -⟩ | ⟨hskips, heq, hfil, hnext, -⟩
  · refine ⟨?_, hfil ▸ h.lt⟩
    rw [hfil, hnext]
    exact lt_of_le_of_ne h.le hne
  -- The draw stands above the skipped number, and not right above it.
  have hspaced := hspaced _ hskips
  have hlt := h.lt
  constructor
  · rw [hfil, hnext]
    show s.space.nextPacketNumber + 2 ≤ 2 ^ s.filter.exponent + draw % 2 ^ s.filter.exponent
    omega
  · rw [hfil]
    show 2 ^ s.filter.exponent + draw % 2 ^ s.filter.exponent < 2 ^ (s.filter.exponent + 1)
    rw [Nat.pow_succ]
    omega

theorem Sound.checkAck_iff (h : s.Sound) (range : Nat × Nat) :
    s.filter.checkAck .data range = .error ⟨.protocolViolation, "unsent packet acked"⟩ ↔
      ∃ n, s.skipped.getLast? = some n ∧ range.1 ≤ n ∧ n ≤ range.2 := by
  unfold PacketNumberFilter.checkAck
  rw [h.last]
  split
  · next hany => simpa [Option.any_eq_true] using hany
  next hany =>
  simpa [Option.any_eq_true] using hany

/-- Over every run in which no draw stands right behind the number skipped with it: allocated numbers strictly
    increase and avoid the skipped ones, `peek` tells the next number, the number to skip next is not passed, and
    an acknowledgment is refused exactly when it covers the last number skipped. -/
theorem optimistic_ack_defence {s : Numbering} (h : Reaches step Spaced Start s) :
    s.allocated.Pairwise (· < ·) ∧ (∀ n ∈ s.skipped, n ∉ s.allocated) ∧
      (∀ draw t, s.step draw = some t → t.allocated = s.allocated ++ [s.filter.peek s.space]) ∧
      s.space.nextPacketNumber ≤ s.filter.nextSkippedPacketNumber ∧
      ∀ range, s.filter.checkAck .data range = .error ⟨.protocolViolation, "unsent packet acked"⟩ ↔
        ∃ n, s.skipped.getLast? = some n ∧ range.1 ≤ n ∧ n ≤ range.2 := by
  have hsound : s.Sound := h.invariant (fun _ => Sound.start) fun _ _ _ hs _ hstep => hs.step hstep
  have hahead : s.Ahead := h.invariant (fun _ => Ahead.start) fun _ _ _ hs hallow hstep => hs.step hallow hstep
  refine ⟨hsound.increasing, hsound.apart, fun draw t hstep => ?_, hahead.le, hsound.checkAck_iff⟩
  rcases step_cases hstep with ⟨hne, -, -, hallocated, -⟩ | ⟨-, heq, -, -, hallocated, -⟩
  · rw [hallocated, PacketNumberFilter.peek, if_pos hne]
  · rw [hallocated, PacketNumberFilter.peek, if_neg (not_not.mpr heq)]

def skips63 : Numbering := ⟨.new 63, .new, [], []⟩

theorem optimistic_ack_defence_after_skip :
    ∃ s, Reaches step Spaced Start s ∧ s.skipped = [63] ∧ s.space.nextPacketNumber ≤ s.filter.nextSkippedPacketNumber ∧
      s.filter.checkAck .data (60, 70) = .error ⟨.protocolViolation, "unsent packet acked"⟩ := by
  obtain ⟨s, hreach, hskipped⟩ : ∃ s, Reaches step Spaced Start s ∧ s.skipped = [63] :=
    Reaches.exists_of_runFrom (s := skips63) (.start ⟨63, rfl⟩) (replicate 64 1) (by decide +kernel)
  obtain ⟨-, -, -, hle, hcheck⟩ := optimistic_ack_defence hreach
  exact ⟨s, hreach, hskipped, hle, (hcheck _).mpr ⟨63, by rw [hskipped]; rfl, by decide, by decide⟩⟩

theorem skipped_of_passed (hpass : s.filter.nextSkippedPacketNumber < s.space.nextPacketNumber)
    (h : Reaches step (fun _ _ => True) (· = s) t) :
    t.filter.nextSkippedPacketNumber < t.space.nextPacketNumber ∧ t.skipped = s.skipped := by
  refine h.invariant (P := fun t => t.filter.nextSkippedPacketNumber < t.space.nextPacketNumber ∧ t.skipped = s.skipped)
    ?_ ?_
  · rintro t rfl
    exact ⟨hpass, rfl⟩
  · rintro t draw u ⟨hlt, hskip⟩ - hstep
    rcases step_cases hstep with ⟨-, hfil, hnext, -, hsame⟩ | ⟨-, heq, -⟩
    · refine ⟨?_, hsame.trans hskip⟩
      rw [hfil, hnext]
      exact Nat.lt_succ_of_lt hlt
    · exact absurd heq hlt.ne'

/-- When 63 is skipped and 64 is drawn, 64 is allocated all the same, and nothing is skipped ever after. -/
theorem skipping_stops :
    ∃ s, Reaches step (fun _ _ => True) Start s ∧ s.skipped = [63] ∧ 64 ∈ s.allocated ∧
      s.filter.nextSkippedPacketNumber = 64 ∧ s.space.nextPacketNumber = 65 ∧
      ∀ t, Reaches step (fun _ _ => True) (· = s) t → t.skipped = [63] := by
  obtain ⟨s, hreach, hskipped, hmem, hnext, hspace⟩ : ∃ s, Reaches step (fun _ _ => True) Start s ∧ s.skipped = [63] ∧
      64 ∈ s.allocated ∧ s.filter.nextSkippedPacketNumber = 64 ∧ s.space.nextPacketNumber = 65 :=
    Reaches.exists_of_runFrom (s := skips63) (.start ⟨63, rfl⟩) (replicate 64 0) (by decide +kernel)
  refine ⟨s, hreach, hskipped, hmem, hnext, hspace, fun t ht => ?_⟩
  exact (skipped_of_passed (by omega) ht).2.trans hskipped

end Numbering
end SaorsaTransport
