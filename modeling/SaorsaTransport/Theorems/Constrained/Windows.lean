import Mathlib.Data.List.Nodup
import SaorsaTransport.Constrained.Engine

/-! The windows of the constrained transport against windows over all indices. A sequence number is the lowest eight bits of
    an index; near the window, the windows do with the number what they would do with the index. -/

namespace SaorsaTransport.Constrained
open Library List SendEntry

variable {x : SequenceNumber × Bytes}

def number (k : Nat) : SequenceNumber := serial 8 k

theorem next_number (k : Nat) : (number k).next = number (k + 1) := serial_succ 8 k

theorem distanceTo_number {a b : Nat} (hlow : a ≤ b + 128) (hhigh : b < a + 128) :
    (number a).distanceTo (number b) = (b : Int) - a := toInt_serial_sub_of_near hlow hhigh

theorem number_inj {a b : Nat} (hlow : a < b + 256) (hhigh : b < a + 256) : number a = number b ↔ a = b :=
  serial_inj_of_near hlow hhigh

theorem exists_number (v : SequenceNumber) {n : Nat} (hn : 255 ≤ n) : ∃ c ≤ n, n < c + 256 ∧ v = number c := by
  refine ⟨n - (number n - v).toNat, Nat.sub_le _ _, ?_, BitVec.eq_of_toNat_eq ?_⟩
  · have := (number n - v).isLt
    omega
  · simp only [number, serial, BitVec.toNat_sub, BitVec.toNat_ofNat]
    omega

theorem number_wrap (n : Nat) : number (n + 256) = number n := by simp [number, serial, BitVec.ofNat_add]

theorem number_of_ahead {n : Nat} {v : SequenceNumber} (h : 0 ≤ (number n).distanceTo v) :
    v = number (n + ((number n).distanceTo v).toNat) := by
  obtain ⟨c, hc, hlow, rfl⟩ := exists_number v (n := n + 255) le_add_self
  by_cases hnear : c < n + 128
  · rw [distanceTo_number (by omega) hnear]
    congr 1
    omega
  rw [← number_wrap n, distanceTo_number (by omega) (by omega)] at h
  omega

theorem isInWindow_number {a b size : Nat} (hlow : a ≤ b + 128) (hhigh : b < a + 128) :
    (number a).isInWindow (number b) size = true ↔ a ≤ b ∧ b ≤ a + size := by
  simp only [SequenceNumber.isInWindow, distanceTo_number hlow hhigh, Bool.and_eq_true, decide_eq_true_eq]
  omega

/-- Chunks with their sequence numbers, from an index on. -/
def numbered : Nat → List Bytes → List (SequenceNumber × Bytes)
  | _, [] => []
  | k, chunk :: chunks => (number k, chunk) :: numbered (k + 1) chunks

theorem numbered_append : ∀ (k : Nat) (l l' : List Bytes), numbered k (l ++ l') = numbered k l ++ numbered (k + l.length) l'
  | k, [], l' => rfl
  | k, chunk :: l, l' => by
    rw [cons_append, numbered, numbered, numbered_append (k + 1) l l', cons_append, length_cons]
    congr 3
    omega

theorem length_numbered : ∀ (k : Nat) (l : List Bytes), (numbered k l).length = l.length
  | _, [] => rfl
  | k, _ :: l => congrArg Nat.succ (length_numbered (k + 1) l)

theorem drop_numbered : ∀ (m k : Nat) (l : List Bytes), (numbered k l).drop m = numbered (k + m) (l.drop m)
  | 0, _, _ | m + 1, k, [] => rfl
  | m + 1, k, chunk :: l => by
    rw [numbered, drop_succ_cons, drop_succ_cons, drop_numbered m (k + 1) l]
    congr 1
    omega

theorem map_snd_numbered : ∀ (k : Nat) (l : List Bytes), (numbered k l).map Prod.snd = l
  | _, [] => rfl
  | k, chunk :: l => congrArg (chunk :: ·) (map_snd_numbered (k + 1) l)

theorem mem_numbered : ∀ {k : Nat} {l : List Bytes}, x ∈ numbered k l → ∃ i, l[i]? = some x.2 ∧ x.1 = number (k + i)
  | _, [], h => absurd h not_mem_nil
  | k, chunk :: l, h => by
    rcases mem_cons.mp h with rfl | h
    · exact ⟨0, rfl, rfl⟩
    obtain ⟨i, hi, hx⟩ := mem_numbered h
    refine ⟨i + 1, hi, hx.trans ?_⟩
    congr 1
    omega

theorem map_fst_numbered : ∀ (k : Nat) (l : List Bytes), (numbered k l).map Prod.fst = (List.range' k l.length).map number
  | _, [] => rfl
  | k, _ :: l => by simp [numbered, map_fst_numbered (k + 1) l, range'_succ]

namespace SendEntry

def chunk (self : SendEntry) : SequenceNumber × Bytes := (self.seq, self.data)

end SendEntry

namespace SendWindow
variable {w w' : SendWindow} {sent : List Bytes} {gone base : Nat}

/-- Of the chunks `sent` the first `gone` have left the window and the others are in it. The base is where the window
    begins, or one of the first two numbers behind it: a handshake can acknowledge those before they exist. -/
structure Carries (w : SendWindow) (sent : List Bytes) (gone base : Nat) : Prop where
  entries : w.unacked.map chunk = numbered gone (sent.drop gone)
  gone_le : gone ≤ sent.length
  room : sent.length ≤ gone + w.config.windowSize
  baseSeq : w.baseSeq = number base
  le_base : gone ≤ base
  base_le : base ≤ max gone 2

theorem Carries.new (config : ArqConfig) : (new config).Carries [] 0 0 :=
  ⟨rfl, le_rfl, zero_le, rfl, le_rfl, zero_le⟩

theorem Carries.length (h : w.Carries sent gone base) : gone + w.unacked.length = sent.length := by
  have := congrArg List.length h.entries
  rw [List.length_map, length_numbered, List.length_drop] at this
  rw [this, Nat.add_sub_cancel' h.gone_le]

theorem Carries.add (h : w.Carries sent gone base) {chunk : Bytes} (hadd : w.add (number sent.length) chunk = some w') :
    w'.Carries (sent ++ [chunk]) gone base ∧ w'.config = w.config := by
  unfold SendWindow.add at hadd
  split at hadd
  · cases hadd
  next hroom =>
  cases hadd
  have hlt : w.unacked.length < w.config.windowSize := by simpa [isFull] using hroom
  have hlen := h.length
  refine ⟨⟨?_, ?_, ?_, h.baseSeq, h.le_base, h.base_le⟩, rfl⟩
  · rw [map_append, h.entries, drop_append_of_le_length h.gone_le, numbered_append, List.length_drop,
      Nat.add_sub_cancel' h.gone_le]
    rfl
  · rw [length_append]
    exact Nat.le_add_right_of_le h.gone_le
  · show (sent ++ [chunk]).length ≤ gone + w.config.windowSize
    rw [length_append, length_singleton]
    omega

theorem dropWhile_acks {p : SendEntry → Bool} {c : Nat} : ∀ {entries : List SendEntry} {k : Nat} {l : List Bytes},
    entries.map chunk = numbered k l →
    (∀ e ∈ entries, ∀ i, k ≤ i → i < k + l.length → e.seq = number i → (p e = true ↔ i ≤ c)) →
    entries.dropWhile p = entries.drop (c + 1 - k) ∧ entries.filter (!p ·) = entries.drop (c + 1 - k) ∧
      ((entries.takeWhile p).length ≠ 0 ↔ k ≤ c ∧ l ≠ [])
  | [], k, l, hents, _ => by
    cases l with
    | nil => simp
    | cons chunk l => cases hents
  | e :: entries, k, [], hents, _ => by cases hents
  | e :: entries, k, chunk :: l, hents, hp => by
    obtain ⟨hhead, htail⟩ := cons.inj hents
    have hk := hp e mem_cons_self k le_rfl (by simp) (congrArg Prod.fst hhead)
    obtain ⟨hdrop, hfil, -⟩ := dropWhile_acks (p := p) (c := c) htail fun e' he' i hi hlt heq =>
      hp e' (mem_cons_of_mem _ he') i (Nat.le_of_succ_le hi) (by simp at hlt ⊢; omega) heq
    by_cases hc : k ≤ c
    · have hpe : p e = true := hk.mpr hc
      rw [dropWhile_cons_of_pos hpe, takeWhile_cons_of_pos hpe, filter_cons_of_neg (by simp [hpe]), hdrop, hfil,
        show c + 1 - k = c + 1 - (k + 1) + 1 by omega, drop_succ_cons]
      exact ⟨rfl, rfl, by simp [hc]⟩
    have hnot : ¬ p e = true := fun hpe => hc (hk.mp hpe)
    rw [dropWhile_cons_of_neg hnot, takeWhile_cons_of_neg hnot, filter_cons_of_pos (by simp [hnot]), hfil,
      show c + 1 - k = 0 by omega, show c + 1 - (k + 1) = 0 by omega]
    exact ⟨rfl, rfl, by simp [hc]⟩

theorem Carries.acknowledge (h : w.Carries sent gone base) (hsize : w.config.windowSize < 64) {c : Nat}
    (hc : c + 1 ≤ max sent.length 2) (hlow : gone < sent.length → base ≤ c + 128) :
    (sent.length ≤ c + 129 →
      (w.acknowledge (number c)).unacked = w.unacked.filter fun e => e.seq.distanceTo (number c) < 0) ∧
    ∃ base', (w.acknowledge (number c)).Carries sent (max gone (min (c + 1) sent.length)) base' := by
  have hle := h.gone_le
  have hroom := h.room
  have hbase := h.le_base
  have hbase' := h.base_le
  rcases lt_or_ge gone sent.length with hlt | hge
  · have hacks : ∀ e ∈ w.unacked, ∀ i, gone ≤ i → i < gone + (sent.drop gone).length → e.seq = number i →
        (w.acks (number c) e = true ↔ i ≤ c) := by
      intro e _ i hi hlt' heq
      rw [List.length_drop] at hlt'
      have hi' : base ≤ i + 128 ∧ i < base + 128 := by omega
      have hc' : base ≤ c + 128 ∧ c < base + 128 := ⟨hlow hlt, by omega⟩
      rw [acks, heq, h.baseSeq, distanceTo_number hi'.1 hi'.2, distanceTo_number hc'.1 hc'.2, decide_eq_true_eq]
      omega
    obtain ⟨hdrop, hfil, htake⟩ := dropWhile_acks h.entries hacks
    have hleft : sent.length ≤ c + 129 →
        (w.acknowledge (number c)).unacked = w.unacked.filter fun e => e.seq.distanceTo (number c) < 0 := fun hnear => by
      show w.unacked.dropWhile _ = _
      rw [hdrop, ← hfil]
      refine filter_congr fun e he => ?_
      obtain ⟨i, hi, hseq⟩ := mem_numbered (h.entries ▸ mem_map_of_mem he)
      have hi := (List.getElem?_eq_some_iff.mp hi).1
      rw [Bool.eq_iff_iff, show e.seq = number (gone + i) from hseq, Bool.not_eq_true', ← Bool.not_eq_true,
        hacks e he (gone + i) (by omega) (by omega) hseq]
      rw [List.length_drop] at hi
      rw [distanceTo_number (by omega) (by omega), decide_eq_true_eq]
      omega
    have hne : sent.drop gone ≠ [] := by rw [Ne, drop_eq_nil_iff]; omega
    have hgone : max gone (min (c + 1) sent.length) ≤ sent.length := by omega
    have hents : (w.acknowledge (number c)).unacked.map chunk =
        numbered (max gone (min (c + 1) sent.length)) (sent.drop (max gone (min (c + 1) sent.length))) := by
      show (w.unacked.dropWhile _).map _ = _
      rw [hdrop, map_drop, h.entries, drop_numbered, drop_drop]
      by_cases hover : c + 1 ≤ sent.length
      · rw [show gone + (c + 1 - gone) = max gone (min (c + 1) sent.length) by omega]
      rw [drop_of_length_le (by omega), drop_of_length_le (by omega)]
      rfl
    refine ⟨hleft, ?_⟩
    by_cases hgc : gone ≤ c
    · refine ⟨c + 1, hents, hgone, ?_, ?_, by omega, by omega⟩
      · show sent.length ≤ _ + w.config.windowSize
        omega
      · show (if 0 < (w.unacked.takeWhile _).length then _ else _) = _
        rw [if_pos (Nat.pos_of_ne_zero (htake.mpr ⟨hgc, hne⟩)), next_number]
    have hsame : max gone (min (c + 1) sent.length) = gone := by omega
    rw [hsame] at hents hgone ⊢
    refine ⟨base, hents, hle, hroom, ?_, hbase, hbase'⟩
    show (if 0 < (w.unacked.takeWhile _).length then _ else _) = _
    rw [if_neg fun hpos => hgc (htake.mp (ne_of_gt hpos)).1]
    exact h.baseSeq
  -- Nothing is in the window.
  have hnil : w.unacked = [] := by
    have := h.length
    exact length_eq_zero_iff.mp (by omega)
  have hsame : max gone (min (c + 1) sent.length) = gone := by omega
  have hwin : w.acknowledge (number c) = w := by
    unfold SendWindow.acknowledge
    rw [hnil]
    obtain ⟨_, _, _⟩ := w
    subst hnil
    rfl
  rw [hsame, hwin]
  exact ⟨fun _ => by rw [hnil]; rfl, base, h⟩

theorem retransmissions_chunks (maxRetries : Nat) (overdue : SequenceNumber → Bool) : ∀ (entries : List SendEntry),
    (retransmissions maxRetries overdue entries).2.map chunk = entries.map chunk ∧
      ∀ l, (retransmissions maxRetries overdue entries).1 = some l → l ⊆ entries.map chunk
  | [] => ⟨rfl, fun l hl => by obtain rfl := Option.some.inj hl; exact List.Subset.refl _⟩
  | entry :: entries => by
    obtain ⟨hch, hsub⟩ := retransmissions_chunks maxRetries overdue entries
    unfold retransmissions
    split
    · split
      · exact ⟨rfl, nofun⟩
      refine ⟨?_, fun l hl => ?_⟩
      · show _ :: map _ _ = _
        rw [hch]
        rfl
      · obtain ⟨l', hl', rfl⟩ := Option.map_eq_some_iff.mp hl
        exact cons_subset_cons _ (hsub l' hl')
    refine ⟨?_, fun l hl => subset_cons_of_subset _ (hsub l hl)⟩
    show _ :: map _ _ = _
    rw [hch]
    rfl

theorem Carries.getRetransmissions (h : w.Carries sent gone base) (overdue : SequenceNumber → Bool) :
    (w.getRetransmissions overdue).2.Carries sent gone base where
  __ := h
  entries := (retransmissions_chunks _ _ _).1.trans h.entries

theorem Carries.mem_retransmits (h : w.Carries sent gone base) {overdue : SequenceNumber → Bool}
    {l : List (SequenceNumber × Bytes)} (hl : (w.getRetransmissions overdue).1 = some l)
    (hx : x ∈ l) : ∃ k, gone ≤ k ∧ sent[k]? = some x.2 ∧ x.1 = number k := by
  have hmem := (retransmissions_chunks _ _ _).2 l hl hx
  rw [h.entries] at hmem
  obtain ⟨i, hi, hseq⟩ := mem_numbered hmem
  rw [List.getElem?_drop] at hi
  exact ⟨gone + i, le_self_add, hi, hseq⟩

/-! Calls of `add` with consecutive numbers, and of `acknowledge`. -/

inductive Call where
  | add (data : Bytes)
  | acknowledge (ack : SequenceNumber)

def call (s : SendWindow × SequenceNumber) : Call → Option (SendWindow × SequenceNumber)
  | .add data => some (((s.1.add s.2 data).map fun window => (window, s.2.next)).getD s)
  | .acknowledge ack => some (s.1.acknowledge ack, s.2)

/-- What is acknowledged does not lie beyond the highest number that was added. -/
def Known (s : SendWindow × SequenceNumber) : Call → Prop
  | .add _ => True
  | .acknowledge ack => (s.2 - 1).distanceTo ack ≤ 0

def Started (s : SendWindow × SequenceNumber) : Prop := ∃ config : ArqConfig, config.windowSize < 64 ∧ s = (new config, 0)

/-- Behind the first chunk stand 256 that were never sent, so that a number before it has an index too. -/
structure Consecutive (s : SendWindow × SequenceNumber) (sent : List Bytes) (gone : Nat) : Prop where
  carries : s.1.Carries sent gone gone
  next : s.2 = number sent.length
  le_gone : 256 ≤ gone
  size : s.1.config.windowSize < 64

section
variable {s : SendWindow × SequenceNumber} {ack : SequenceNumber} (h : Consecutive s sent gone)
include h

theorem Consecutive.index (hack : Known s (.acknowledge ack)) :
    ∃ c, ack = number c ∧ c + 1 ≤ sent.length ∧ sent.length ≤ c + 129 := by
  have hle := h.le_gone.trans h.carries.gone_le
  obtain ⟨n, hn⟩ : ∃ n, sent.length = n + 1 := ⟨sent.length - 1, by omega⟩
  obtain ⟨c, hc, hlow, rfl⟩ := exists_number ack (n := n) (by omega)
  refine ⟨c, rfl, by omega, ?_⟩
  by_contra hfar
  have hprev : s.2 - 1 = number n := by rw [h.next, hn, ← next_number, SequenceNumber.next, BitVec.add_sub_cancel]
  rw [Known, hprev, ← number_wrap c, distanceTo_number (by omega) (by omega)] at hack
  omega

theorem Consecutive.add (data : Bytes) :
    ∃ sent', Consecutive (((s.1.add s.2 data).map fun w => (w, s.2.next)).getD s) sent' gone := by
  cases hadd : s.1.add s.2 data with
  | none => exact ⟨sent, h⟩
  | some w =>
    obtain ⟨hcar, hcfg⟩ := h.carries.add (h.next ▸ hadd)
    refine ⟨sent ++ [data], hcar, ?_, h.le_gone, ?_⟩
    · simp [h.next, next_number]
    · simpa [hcfg] using h.size

/-- What is left are the entries behind the number that is acknowledged. -/
theorem Consecutive.acknowledge (hack : Known s (.acknowledge ack)) :
    (s.1.acknowledge ack).unacked = s.1.unacked.filter (fun e => e.seq.distanceTo ack < 0) ∧
      ∃ gone', Consecutive (s.1.acknowledge ack, s.2) sent gone' := by
  obtain ⟨c, rfl, hc, hlow⟩ := h.index hack
  have hle := h.le_gone
  have hroom := h.carries.room
  have hsize := h.size
  obtain ⟨hfil, base, hcar⟩ := h.carries.acknowledge hsize (hc.trans (le_max_left _ _)) fun _ => by omega
  have hbase : base = _ := le_antisymm (hcar.base_le.trans_eq (max_eq_left (by omega))) hcar.le_base
  exact ⟨hfil hlow, _, hbase ▸ hcar, h.next, by omega, hsize⟩

end

/-- The entries are a run of numbers up to the next one, which begins at the base, and an acknowledgment takes off those
    that are at it or before. -/
theorem acknowledges_exactly {s : SendWindow × SequenceNumber} (hs : Reaches call Known Started s) :
    (∃ first, s.1.unacked.map (·.seq) = (List.range' first s.1.unacked.length).map number ∧
      s.2 = number (first + s.1.unacked.length)) ∧
    s.1.baseSeq = (s.1.unacked.map (·.seq)).headD s.2 ∧
    ∀ ack, Known s (.acknowledge ack) →
      (s.1.acknowledge ack).unacked = s.1.unacked.filter (fun e => e.seq.distanceTo ack < 0) := by
  obtain ⟨sent, gone, h⟩ : ∃ sent gone, Consecutive s sent gone := by
    refine hs.invariant (P := fun s => ∃ sent gone, Consecutive s sent gone) ?_ ?_
    · rintro s ⟨config, hsize, rfl⟩
      have hnil : [] = numbered 256 ((replicate 256 []).drop 256) := by rw [drop_replicate]; rfl
      refine ⟨replicate 256 [], 256, ⟨hnil, ?_, ?_, rfl, le_rfl, le_max_left _ _⟩, ?_, le_rfl, hsize⟩ <;>
        rw [length_replicate]
      · exact le_self_add
      · rfl
    · rintro s (data | ack) t ⟨sent, gone, h⟩ hknown ht
      · obtain rfl := Option.some.inj ht
        obtain ⟨sent', h'⟩ := h.add data
        exact ⟨sent', gone, h'⟩
      · obtain rfl := Option.some.inj ht
        exact ⟨sent, (h.acknowledge hknown).2⟩
  have hlen := h.carries.length
  have hseq : s.1.unacked.map (·.seq) = (List.range' gone s.1.unacked.length).map number := by
    rw [show s.1.unacked.length = (sent.drop gone).length by rw [List.length_drop]; omega, ← map_fst_numbered,
      ← h.carries.entries, map_map]
    rfl
  refine ⟨⟨gone, hseq, by rw [hlen, h.next]⟩, ?_, fun ack hack => (h.acknowledge hack).1⟩
  rw [hseq, h.carries.baseSeq, h.next, ← hlen]
  cases s.1.unacked.length <;> simp [range'_succ]

theorem acknowledges_exactly_stale :
    ((⟨⟨4, 5⟩, 0, [⟨0, [7], 1⟩]⟩ : SendWindow).acknowledge 255).unacked =
      [⟨0, [7], 1⟩].filter (fun e => e.seq.distanceTo 255 < 0) :=
  (acknowledges_exactly (.next (.add [7]) (.start ⟨⟨4, 5⟩, by decide, rfl⟩) trivial rfl)).2.2 255
    (show ((1 : SequenceNumber) - 1).distanceTo 255 ≤ 0 by decide)

end SendWindow

namespace ReceiveWindow
variable {r r' : ReceiveWindow} {sent : List Bytes} {n base c : Nat}

def buffered (r : ReceiveWindow) : List SequenceNumber := r.outOfOrder.map Prod.fst

structure Buffers (r : ReceiveWindow) (sent : List Bytes) (low n : Nat) : Prop where
  ahead : ∀ e ∈ r.outOfOrder, ∃ k, low ≤ k ∧ k < n + 64 ∧ e.1 = number k ∧ sent[k]? = some e.2
  distinct : r.buffered.Nodup

structure Tracks (r : ReceiveWindow) (sent : List Bytes) (n c : Nat) : Prop where
  nextExpected : r.nextExpected = number n
  cumulativeAck : r.cumulativeAck = number c
  buffer : r.Buffers sent (n + 1) n

theorem Tracks.new (sent : List Bytes) (windowSize : Nat) : (new windowSize).Tracks sent 0 0 :=
  ⟨rfl, rfl, nofun, nodup_nil⟩

theorem Tracks.resetWithSeq (r : ReceiveWindow) (sent : List Bytes) (n : Nat) :
    (r.resetWithSeq (number n)).Tracks sent n n := ⟨rfl, rfl, nofun, nodup_nil⟩

theorem Tracks.append (h : r.Tracks sent n c) (more : List Bytes) : r.Tracks (sent ++ more) n c where
  nextExpected := h.nextExpected
  cumulativeAck := h.cumulativeAck
  buffer := by
    refine ⟨fun e he => ?_, h.buffer.distinct⟩
    obtain ⟨k, hlow, hhigh, hseq, hk⟩ := h.buffer.ahead e he
    exact ⟨k, hlow, hhigh, hseq, by rw [List.getElem?_append_left (List.getElem?_eq_some_iff.mp hk).1]; exact hk⟩

theorem Buffers.eraseP (h : r.Buffers sent n base) (hx : x ∈ r.outOfOrder) (hseq : x.1 = number n) :
    (({ r with outOfOrder := r.outOfOrder.eraseP (·.1 = number n) } : ReceiveWindow).Buffers sent (n + 1) base) ∧
      (r.outOfOrder.eraseP (·.1 = number n)).length + 1 = r.outOfOrder.length ∧
      ∀ v, v ∈ r.buffered ↔ v = number n ∨ v ∈ (r.outOfOrder.eraseP (·.1 = number n)).map Prod.fst := by
  obtain ⟨y, l₁, l₂, hl₁, hy, hspl, herase⟩ := exists_of_eraseP hx (p := (·.1 = number n)) (decide_eq_true hseq)
  rw [decide_eq_true_eq] at hy
  have hdist := h.distinct
  rw [buffered, hspl, map_append, map_cons, nodup_middle, nodup_cons, hy] at hdist
  refine ⟨⟨fun e he => ?_, ?_⟩, ?_, fun v => ?_⟩
  · rw [herase] at he
    obtain ⟨k, hlow, hhigh, hk, hdata⟩ := h.ahead e (by
      rw [hspl]
      exact mem_append.mpr ((mem_append.mp he).imp_right (mem_cons_of_mem _)))
    refine ⟨k, lt_of_le_of_ne hlow ?_, hhigh, hk, hdata⟩
    rintro rfl
    refine hdist.1 ?_
    rw [← map_append, ← hk]
    exact mem_map_of_mem he
  · show ((r.outOfOrder.eraseP _).map _).Nodup
    rw [herase, map_append]
    exact hdist.2
  · rw [herase, hspl, length_append, length_append, length_cons]
    omega
  · rw [buffered, herase, hspl, map_append, map_append, map_cons, hy]
    simp only [mem_append, mem_cons]
    exact or_left_comm

theorem drop_take_of_getElem? {k m : Nat} {data : Bytes} (hdata : sent[k]? = some data) (hm : k < m) :
    (sent.take m).drop k = data :: (sent.take m).drop (k + 1) := by
  obtain ⟨hlt, rfl⟩ := List.getElem?_eq_some_iff.mp hdata
  rw [drop_eq_getElem_cons (by rw [length_take]; omega), getElem_take]

theorem drop_take_self (sent : List Bytes) (n : Nat) : (sent.take n).drop n = [] :=
  drop_of_length_le (by rw [length_take]; omega)

/-- Draining the buffer delivers the chunks from `n` to some `m`, and leaves those that are behind `m`. -/
theorem drain_spec : ∀ (fuel : Nat) (r : ReceiveWindow) (n c : Nat), r.outOfOrder.length ≤ fuel →
    r.nextExpected = number n → r.cumulativeAck = number c → c + 1 = n → n ≤ sent.length → base ≤ n → n ≤ base + 64 →
    r.Buffers sent n base →
    ∃ m, n ≤ m ∧ m ≤ sent.length ∧ m ≤ base + 64 ∧ (drain fuel r).1 = numbered n ((sent.take m).drop n) ∧
      (drain fuel r).2.Tracks sent m (m - 1) ∧ (drain fuel r).2.windowSize = r.windowSize ∧
      (drain fuel r).2.outOfOrder <+ r.outOfOrder ∧
      ∀ k, n ≤ k → k < base + 64 → (number k ∈ r.buffered ↔ k < m ∨ number k ∈ (drain fuel r).2.buffered)
  | 0, r, n, c, hfuel, hnext, hcum, hc, hn, _, hnear, hbuf => by
    have hnil := length_eq_zero_iff.mp (Nat.le_zero.mp hfuel)
    refine ⟨n, le_rfl, hn, hnear, by rw [drop_take_self]; rfl, ⟨hnext, ?_, ?_, hbuf.distinct⟩, rfl, .refl _,
      fun k hk _ => (or_iff_right (not_lt.mpr hk)).symm⟩
    · rw [← hc]
      exact hcum
    · rw [drain, hnil]
      nofun
  | fuel + 1, r, n, c, hfuel, hnext, hcum, hc, hn, hbase, hnear, hbuf => by
    have hidx : ∀ {k : Nat}, n ≤ k → k < base + 64 → (number k = number n ↔ k = n) := fun hlow hhigh =>
      number_inj (by omega) (by omega)
    unfold drain
    rw [hnext]
    split
    · next hnone =>
      refine ⟨n, le_rfl, hn, hnear, by rw [drop_take_self]; rfl, ⟨hnext, ?_, fun e he => ?_, hbuf.distinct⟩, rfl, .refl _,
        fun k hk _ => (or_iff_right (not_lt.mpr hk)).symm⟩
      · rw [← hc]
        exact hcum
      · obtain ⟨k, hlow, hhigh, hseq, hk⟩ := hbuf.ahead e he
        refine ⟨k, lt_of_le_of_ne hlow fun heq => ?_, by omega, hseq, hk⟩
        have hfind := find?_eq_none.mp hnone e he
        rw [decide_eq_true_eq, hseq, hidx hlow hhigh] at hfind
        exact hfind heq.symm
    next seq data hsome =>
    have hmem := mem_of_find?_eq_some hsome
    have hseq : seq = number n := by simpa using find?_some hsome
    obtain ⟨k, hlow, hhigh, hk, hdata⟩ := hbuf.ahead _ hmem
    obtain rfl : k = n := (hidx hlow hhigh).mp (hk.symm.trans hseq)
    have hlt : k < sent.length := (List.getElem?_eq_some_iff.mp hdata).1
    obtain ⟨hbuf', hlen, hmems⟩ := hbuf.eraseP hmem hseq
    have hfuel' : (r.outOfOrder.eraseP (·.1 = number k)).length ≤ fuel := by omega
    obtain ⟨m, hm, hm', hnear', hdel, htrk, hsize, hsub, hkept⟩ := drain_spec fuel
      ({ r with nextExpected := number k, outOfOrder := r.outOfOrder.eraseP (·.1 = number k) }.advance seq) (k + 1) k
      hfuel' (next_number k) hseq rfl hlt (by omega) hhigh ⟨hbuf'.ahead, hbuf'.distinct⟩
    refine ⟨m, Nat.le_of_succ_le hm, hm', hnear', ?_, htrk, hsize, hsub.trans eraseP_sublist, fun j hj hj' => ?_⟩
    · rw [drop_take_of_getElem? hdata hm, numbered, ← hdel, ← hseq]
    · rw [hmems, hidx hj hj']
      rcases eq_or_lt_of_le hj with rfl | hj
      · exact iff_of_true (.inl rfl) (.inl hm)
      · exact (or_iff_right (ne_of_gt hj)).trans (hkept j hj hj')

structure Sorted (r : ReceiveWindow) : Prop where
  inside : ∀ e ∈ r.outOfOrder, 0 < r.nextExpected.distanceTo e.1 ∧ r.nextExpected.distanceTo e.1 ≤ r.windowSize
  increasing : r.outOfOrder.Pairwise fun a b => r.nextExpected.distanceTo a.1 < r.nextExpected.distanceTo b.1

theorem pairwise_insertIdx {α : Type} {f : α → Int} {a : α} {p : α → Bool} (hp : ∀ x, p x = true ↔ f a < f x) :
    ∀ {l : List α}, l.Pairwise (f · < f ·) → (∀ x ∈ l, f x ≠ f a) → (l.insertIdx (l.findIdx p) a).Pairwise (f · < f ·)
  | [], _, _ => by simp
  | x :: l, hl, hne => by
    obtain ⟨hx, hl'⟩ := pairwise_cons.mp hl
    obtain ⟨hxa, hne⟩ := forall_mem_cons.mp hne
    rw [findIdx_cons]
    cases hcut : p x with
    | true =>
      have hlt := (hp x).mp hcut
      exact pairwise_cons.mpr ⟨forall_mem_cons.mpr ⟨hlt, fun y hy => hlt.trans (hx y hy)⟩, hl⟩
    | false =>
      have hge : ¬ f a < f x := fun hlt => Bool.false_ne_true (hcut.symm.trans ((hp x).mpr hlt))
      refine pairwise_cons.mpr ⟨fun y hy => ?_, pairwise_insertIdx hp hl' hne⟩
      rcases (mem_insertIdx findIdx_le_length).mp hy with rfl | hy
      · exact lt_of_le_of_ne (not_lt.mp hge) hxa
      · exact hx y hy

theorem Sorted.insert (h : r.Sorted) {seq : SequenceNumber} (data : Bytes) (hfresh : ∀ e ∈ r.outOfOrder, e.1 ≠ seq)
    (hin : 0 < r.nextExpected.distanceTo seq ∧ r.nextExpected.distanceTo seq ≤ r.windowSize) :
    Sorted { r with outOfOrder := r.outOfOrder.insertIdx (r.position seq) (seq, data) } where
  inside e he := by
    rcases (mem_insertIdx findIdx_le_length).mp he with rfl | he
    · exact hin
    · exact h.inside e he
  increasing := by
    refine pairwise_insertIdx (fun _ => decide_eq_true_iff) h.increasing fun e he heq => hfresh e he ?_
    rw [← BitVec.sub_add_cancel e.1 r.nextExpected, BitVec.eq_of_toInt_eq heq, BitVec.sub_add_cancel]

/-- What is left in the buffer once the chunks before `m` are delivered. -/
theorem Sorted.shrink (h : r.Sorted) (hnext : r.nextExpected = number n) {m : Nat} (hn : n ≤ m) (hm : m ≤ n + 64)
    (hsub : r'.outOfOrder <+ r.outOfOrder) (hsize' : r'.windowSize = r.windowSize) (htrk : r'.Tracks sent m c) :
    r'.Sorted := by
  have hshift : ∀ e ∈ r'.outOfOrder,
      0 < r'.nextExpected.distanceTo e.1 ∧ r'.nextExpected.distanceTo e.1 = r.nextExpected.distanceTo e.1 - (m - n) := by
    intro e he
    obtain ⟨k, hlow, hhigh, hk, -⟩ := htrk.buffer.ahead e he
    rw [hnext, htrk.nextExpected, hk, distanceTo_number (by omega) (by omega), distanceTo_number (by omega) (by omega)]
    omega
  refine ⟨fun e he => ⟨(hshift e he).1, ?_⟩, (h.increasing.sublist hsub).imp_of_mem fun ha hb hlt => ?_⟩
  · have := h.inside e (hsub.subset he)
    rw [(hshift e he).2, hsize']
    omega
  · rw [(hshift _ ha).2, (hshift _ hb).2]
    omega

/-- Receive the chunk `k`. If it is expected, it is delivered with those that follow it; otherwise nothing is, and the
    chunk is buffered if it lies in the window. -/
theorem Tracks.receive (h : r.Tracks sent n c) (hsize : r.windowSize < 64) {k : Nat} {data : Bytes}
    (hdata : sent[k]? = some data) (hlow : n ≤ k + 128) (hhigh : k < n + 128) :
    (r.receive (number k) data).2.windowSize = r.windowSize ∧
    ((∃ l m, (r.receive (number k) data).1 = some l ∧ k = n ∧ n < m ∧ m ≤ sent.length ∧
        l = numbered n ((sent.take m).drop n) ∧ (r.receive (number k) data).2.Tracks sent m (m - 1) ∧
        (r.Sorted → (r.receive (number k) data).2.Sorted) ∧ m ≤ n + 64 ∧ (r.receive (number k) data).2.buffered ⊆ r.buffered ∧
        ∀ j, n < j → j < n + 64 → (number j ∈ r.buffered ↔ j < m ∨ number j ∈ (r.receive (number k) data).2.buffered)) ∨
      (r.receive (number k) data).1 = none ∧ k ≠ n ∧ (r.receive (number k) data).2.Tracks sent n c ∧
        (r.Sorted → (r.receive (number k) data).2.Sorted) ∧
        ∀ v, v ∈ (r.receive (number k) data).2.buffered ↔
          v = number k ∧ n ≤ k ∧ k ≤ n + r.windowSize ∨ v ∈ r.buffered) := by
  have hidx : number k = r.nextExpected ↔ k = n := by
    rw [h.nextExpected]
    exact number_inj (by omega) (by omega)
  have hwin : r.isInWindow (number k) = true ↔ n ≤ k ∧ k ≤ n + r.windowSize := by
    rw [isInWindow, h.nextExpected]
    exact isInWindow_number hlow hhigh
  unfold ReceiveWindow.receive
  split
  · next hout =>
    have hne : k ≠ n := by
      rintro rfl
      rw [hwin.mpr ⟨le_rfl, le_self_add⟩] at hout
      cases hout
    rw [Bool.not_eq_true', ← Bool.not_eq_true, hwin] at hout
    exact ⟨rfl, .inr ⟨rfl, hne, h, id, fun v => (or_iff_right fun hv => hout hv.2).symm⟩⟩
  next hin =>
  have hin' : n ≤ k ∧ k ≤ n + r.windowSize := hwin.mp (by simpa using hin)
  split
  · next heq =>
    obtain rfl := hidx.mp heq
    have hlt : k < sent.length := (List.getElem?_eq_some_iff.mp hdata).1
    have hnext : (r.advance (number k)).nextExpected = number (k + 1) := by
      rw [advance, ← next_number, h.nextExpected]
    obtain ⟨m, hm, hm', hnear, hdel, htrk, hsize', hsub, hkept⟩ := drain_spec r.outOfOrder.length
      (r.advance (number k)) (k + 1) k le_rfl hnext rfl rfl hlt (Nat.le_succ k) (by omega) ⟨h.buffer.ahead, h.buffer.distinct⟩
    refine ⟨hsize', .inl ⟨_, m, rfl, rfl, hm, hm', ?_, htrk, fun hsort =>
      hsort.shrink h.nextExpected (by omega) hnear hsub hsize' htrk, hnear, (hsub.map _).subset, hkept⟩⟩
    rw [drop_take_of_getElem? hdata hm, numbered, ← hdel]
  next hne =>
  have hne' : k ≠ n := fun heq => hne (hidx.mpr heq)
  split
  · next hdup =>
    refine ⟨rfl, .inr ⟨rfl, hne', h, id, fun v => (or_iff_right_of_imp fun hv => ?_).symm⟩⟩
    obtain ⟨e, he, heq⟩ := any_eq_true.mp hdup
    rw [hv.1, ← of_decide_eq_true heq]
    exact mem_map_of_mem he
  next hfresh =>
  have hperm := perm_insertIdx (number k, data) r.outOfOrder (i := r.position (number k)) findIdx_le_length
  refine ⟨rfl, .inr ⟨rfl, hne', ⟨h.nextExpected, h.cumulativeAck, fun e he => ?_, ?_⟩, fun hsort =>
    hsort.insert data (fun e he heq => hfresh (any_eq_true.mpr ⟨e, he, decide_eq_true heq⟩)) ?_, fun v => ?_⟩⟩
  · rcases mem_cons.mp (hperm.mem_iff.mp he) with rfl | he
    · exact ⟨k, hin'.1.lt_of_ne' hne', by omega, rfl, hdata⟩
    · exact h.buffer.ahead e he
  · rw [buffered, (hperm.map Prod.fst).nodup_iff, map_cons, nodup_cons]
    refine ⟨fun hmem => hfresh ?_, h.buffer.distinct⟩
    obtain ⟨e, he, heq⟩ := mem_map.mp hmem
    exact any_eq_true.mpr ⟨e, he, decide_eq_true heq⟩
  · rw [h.nextExpected, distanceTo_number (by omega) (by omega)]
    omega
  · rw [buffered, (hperm.map Prod.fst).mem_iff, map_cons, mem_cons, and_iff_left hin']
    rfl

/-! Calls of `receive` for the chunks of a stream, in any order. -/

/-- A window with what it has handed over, and the indices in the stream of what has arrived inside the window. -/
structure Receiving where
  window : ReceiveWindow
  delivered : List (SequenceNumber × Bytes)
  arrived : List Nat

namespace Receiving
variable {stream : List Bytes} {s : Receiving} {p : SequenceNumber × Bytes}

def receive (s : Receiving) (p : SequenceNumber × Bytes) : Option Receiving :=
  let distance := s.window.nextExpected.distanceTo p.1
  some ⟨(s.window.receive p.1 p.2).2, s.delivered ++ (s.window.receive p.1 p.2).1.getD [],
    if 0 ≤ distance ∧ distance ≤ s.window.windowSize then (s.delivered.length + distance.toNat) :: s.arrived
    else s.arrived⟩

/-- The number is within 64 of the one that is expected, and one that was not delivered yet comes with its chunk. -/
def Near (stream : List Bytes) (s : Receiving) (p : SequenceNumber × Bytes) : Prop :=
  -64 ≤ s.window.nextExpected.distanceTo p.1 ∧ s.window.nextExpected.distanceTo p.1 ≤ 64 ∧
    (0 ≤ s.window.nextExpected.distanceTo p.1 →
      stream[s.delivered.length + (s.window.nextExpected.distanceTo p.1).toNat]? = some p.2)

def Started (s : Receiving) : Prop := ∃ size, size < 64 ∧ s = ⟨new size, [], []⟩

structure Exact (stream : List Bytes) (s : Receiving) (n c : Nat) : Prop where
  tracks : s.window.Tracks stream n c
  delivered : s.delivered = numbered 0 (stream.take n)
  le : n ≤ stream.length
  sorted : s.window.Sorted
  size : s.window.windowSize < 64
  cumulative : n ≠ 0 → c + 1 = n
  before : ∀ k < n, k ∈ s.arrived
  kept : ∀ k, n ≤ k → (k ∈ s.arrived ↔ k < n + 64 ∧ number k ∈ s.window.buffered)

theorem Exact.length (h : Exact stream s n c) : s.delivered.length = n := by
  rw [h.delivered, length_numbered, length_take, min_eq_left h.le]

/-- A number of the buffer is that of one chunk near the expected one. -/
theorem Exact.index (h : Exact stream s n c) {e : SequenceNumber × Bytes} (he : e ∈ s.window.outOfOrder) {k : Nat}
    (hlow : n ≤ k) (hhigh : k < n + 192) (hk : e.1 = number k) : n < k ∧ k < n + 64 ∧ stream[k]? = some e.2 := by
  obtain ⟨i, hi, hi', hseq, hdata⟩ := h.tracks.buffer.ahead e he
  obtain rfl := (number_inj (by omega) (by omega)).mp (hseq.symm.trans hk)
  exact ⟨hi, hi', hdata⟩

theorem Exact.receive {t : Receiving} (h : Exact stream s n c) (hnear : Near stream s p) (ht : s.receive p = some t) :
    ∃ m d, Exact stream t m d := by
  obtain rfl := Option.some.inj ht
  obtain ⟨-, hhigh, hdata⟩ := hnear
  rw [h.tracks.nextExpected] at hhigh hdata
  by_cases hold : (number n).distanceTo p.1 < 0
  · -- a number from before is outside the window
    rw [ReceiveWindow.receive, isInWindow, h.tracks.nextExpected, if_pos (by simp [SequenceNumber.isInWindow, hold])]
    simp only [if_neg fun hin : 0 ≤ _ ∧ _ => absurd hold (not_lt.mpr hin.1)]
    simpa using ⟨n, c, h⟩
  rw [h.length] at hdata
  rw [h.tracks.nextExpected, h.length]
  obtain ⟨hsize, hcases⟩ := h.tracks.receive h.size (hdata (not_lt.mp hold)) (by omega) (by omega)
  have hseq := number_of_ahead (not_lt.mp hold)
  rw [← hseq] at hsize hcases
  generalize hd : (number n).distanceTo p.1 = d at *
  obtain ⟨d, rfl⟩ := Int.eq_ofNat_of_zero_le (not_lt.mp hold)
  have hw := h.size
  rcases hcases with ⟨l, m, hl, hkn, hlt, hm, rfl, htrk, hsort, hnear, hsub, hkept⟩ | ⟨hl, hkn, htrk, hsort, hbuf⟩
  · obtain rfl : d = 0 := by simpa using hkn
    refine ⟨m, m - 1, htrk, ?_, hm, hsort h.sorted, hsize ▸ h.size, by omega, fun k hk => ?_, fun k hk => ?_⟩
    · rw [← take_append_drop n (stream.take m), numbered_append, take_take, min_eq_left hlt.le, length_take,
        min_eq_left h.le, zero_add, ← h.delivered, hl]
      rfl
    · rw [if_pos (by omega), mem_cons]
      rcases lt_trichotomy k n with hkn | rfl | hkn
      · exact .inr (h.before k hkn)
      · exact .inl rfl
      · exact .inr ((h.kept k hkn.le).mpr ⟨by omega, (hkept k hkn (by omega)).mpr (.inl hk)⟩)
    · rw [if_pos (by omega), mem_cons, or_iff_right (by simp; omega), h.kept k (by omega)]
      constructor
      · rintro ⟨hk', hin⟩
        exact ⟨by omega, ((hkept k (by omega) hk').mp hin).resolve_left (by omega)⟩
      · rintro ⟨hk', hin⟩
        obtain ⟨e, he, heq⟩ := mem_map.mp (hsub hin)
        obtain ⟨hlow, hhigh, -⟩ := h.index he (by omega) (by omega) heq
        exact ⟨hhigh, (hkept k hlow hhigh).mpr (.inr hin)⟩
  · refine ⟨n, c, htrk, ?_, h.le, hsort h.sorted, hsize ▸ h.size, h.cumulative, fun k hk => ?_, fun k hk => ?_⟩
    · rw [hl, Option.getD_none, append_nil, h.delivered]
    · split
      · exact mem_cons_of_mem _ (h.before k hk)
      · exact h.before k hk
    · rw [hbuf]
      split
      · next hin =>
        have hsame : k < n + 64 → (number k = p.1 ↔ k = n + (d : Int).toNat) := fun _ => by
          rw [hseq]
          exact number_inj (by omega) (by omega)
        rw [mem_cons, h.kept k hk, and_or_left]
        refine or_congr_left ⟨fun heq => ?_, fun hnum => (hsame hnum.1).mp hnum.2.1⟩
        exact ⟨by omega, (hsame (by omega)).mpr heq, by omega, by omega⟩
      · next hout => rw [or_iff_right fun hv => hout (by omega), h.kept k hk]

/-- What arrived up to the first gap is handed over in order, each chunk once; what arrived behind it is kept, sorted. -/
theorem receives_exactly (hs : Reaches Receiving.receive (Near stream) Started s) :
    s.delivered = numbered 0 (stream.take s.delivered.length) ∧ s.window.nextExpected = number s.delivered.length ∧
      (∀ k < s.delivered.length, k ∈ s.arrived) ∧ s.delivered.length ∉ s.arrived ∧
      (∀ e, e ∈ s.window.outOfOrder ↔ ∃ k ∈ s.arrived, s.delivered.length < k ∧ e.1 = number k ∧ stream[k]? = some e.2) ∧
      s.window.Sorted ∧ (s.delivered ≠ [] → s.window.cumulativeAck.next = s.window.nextExpected) := by
  obtain ⟨n, c, h⟩ : ∃ n c, Exact stream s n c := by
    refine hs.invariant (P := fun s => ∃ n c, Exact stream s n c) ?_ fun s p t ⟨n, c, h⟩ hnear ht => h.receive hnear ht
    rintro s ⟨size, hsize, rfl⟩
    exact ⟨0, 0, .new stream size, rfl, zero_le, ⟨nofun, .nil⟩, hsize, fun h => absurd rfl h, nofun,
      fun k _ => iff_of_false nofun fun h => nomatch h.2⟩
  rw [h.length]
  refine ⟨h.delivered, h.tracks.nextExpected, h.before, fun hin => ?_, fun e => ⟨fun he => ?_, ?_⟩, h.sorted, fun hne => ?_⟩
  · obtain ⟨-, hbuf⟩ := (h.kept n le_rfl).mp hin
    obtain ⟨e, he, heq⟩ := mem_map.mp hbuf
    exact absurd (h.index he le_rfl (by omega) heq).1 (lt_irrefl n)
  · obtain ⟨k, hk, hk', hseq, hdata⟩ := h.tracks.buffer.ahead e he
    exact ⟨k, (h.kept k (by omega)).mpr ⟨hk', hseq ▸ mem_map_of_mem he⟩, hk, hseq, hdata⟩
  · rintro ⟨k, hin, hk, hseq, hdata⟩
    obtain ⟨hk', hbuf⟩ := (h.kept k hk.le).mp hin
    obtain ⟨e', he', heq⟩ := mem_map.mp hbuf
    have hdata' := (h.index he' hk.le (by omega) heq).2.2
    rwa [show e = e' from Prod.ext (hseq.trans heq.symm) (Option.some.inj (hdata.symm.trans hdata'))]
  · rw [h.tracks.cumulativeAck, h.tracks.nextExpected, next_number, h.cumulative (h.length ▸ mt length_eq_zero_iff.mp hne)]

/-- Of three chunks the last comes first and waits for the second. -/
theorem receives_exactly_reordered : ∃ s, Reaches Receiving.receive (Near [[1], [2], [3]]) Started s ∧
    s.arrived = [0, 2] ∧ s.delivered.length = 1 ∧ s.window.outOfOrder = [(2, [3])] ∧ s.window.Sorted := by
  have hs : Reaches Receiving.receive (Near [[1], [2], [3]]) Started ⟨⟨4, 1, 0, [(2, [3])]⟩, [(0, [1])], [0, 2]⟩ :=
    .next (0, [1]) (.next (2, [3]) (.start ⟨4, by decide, rfl⟩) ⟨by decide, by decide, fun _ => rfl⟩ rfl)
      ⟨by decide, by decide, fun _ => rfl⟩ rfl
  exact ⟨_, hs, rfl, rfl, rfl, (receives_exactly hs).2.2.2.2.2.1⟩

end Receiving
end ReceiveWindow
end SaorsaTransport.Constrained
