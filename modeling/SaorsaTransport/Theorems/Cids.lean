import SaorsaTransport.Library.Intervals
import SaorsaTransport.RemoteCids

/-! The local connection identifiers in every run of issuing, timed retirement and `RETIRE_CONNECTION_ID` frames. A frame
    may name one identifier too many: the number that will be issued next passes the check. -/

namespace SaorsaTransport
open Library List Option

namespace CidState

theorem pushTimestamp_spec {sequence : Nat} (timestamp : Nat) : ∀ {records : List CidTimestamp},
    (∀ r ∈ records, r.sequence < sequence) → records.Pairwise (·.sequence < ·.sequence) →
    ∃ next, pushTimestamp sequence timestamp records = some next ∧ next.Pairwise (·.sequence < ·.sequence) ∧
      ∀ r ∈ next, r ∈ records ∨ r.sequence = sequence
  | [], _, _ => ⟨_, rfl, pairwise_singleton _ _, by simp⟩
  | [last], hlt, _ => by
    have hlast : last.sequence < sequence := hlt last (by simp)
    by_cases htime : timestamp = last.timestamp
    · exact ⟨[⟨sequence, timestamp⟩], by simp [pushTimestamp, htime, hlast], pairwise_singleton _ _, by simp⟩
    refine ⟨[last, ⟨sequence, timestamp⟩], by simp [pushTimestamp, htime], ?_, by simp⟩
    simpa using hlast
  | first :: second :: rest, hlt, hpair => by
    obtain ⟨hfst, hrest⟩ := pairwise_cons.mp hpair
    obtain ⟨next, hnext, hord, hmem⟩ :=
      pushTimestamp_spec timestamp (fun r hr => hlt r (mem_cons_of_mem _ hr)) hrest
    refine ⟨first :: next, by simp [pushTimestamp, hnext], pairwise_cons.mpr ⟨fun r hr => ?_, hord⟩, ?_⟩
    · rcases hmem r hr with hr | hr
      · exact hfst r hr
      · exact hr ▸ hlt first (by simp)
    · intro r hr
      rcases mem_cons.mp hr with rfl | hr
      · exact .inl (by simp)
      · exact (hmem r hr).imp_left (mem_cons_of_mem _)

structure Sound (s : CidState) : Prop where
  active : ∀ seq ∈ s.activeSeq, seq < s.issued
  prev_le : s.prevRetireSeq ≤ s.retireSeq
  retire_le : s.retireSeq ≤ s.issued
  ordered : s.retireTimestamp.Pairwise (·.sequence < ·.sequence)
  pending : ∀ r ∈ s.retireTimestamp, s.retireSeq ≤ r.sequence ∧ r.sequence < s.issued

variable {s t : CidState}

theorem Sound.trackLifetime (h : s.Sound) (sequence now : Nat)
    (hnew : ∀ r ∈ s.retireTimestamp, r.sequence < sequence) (hret : s.retireSeq ≤ sequence) (hiss : sequence < s.issued) :
    ∃ records, s.trackLifetime sequence now = some { s with retireTimestamp := records } ∧
      Sound { s with retireTimestamp := records } ∧ ∀ r ∈ records, r.sequence ≤ sequence := by
  have hsame : Sound { s with retireTimestamp := s.retireTimestamp } ∧ ∀ r ∈ s.retireTimestamp, r.sequence ≤ sequence :=
    ⟨h, fun r hr => (hnew r hr).le⟩
  unfold CidState.trackLifetime
  split
  · exact ⟨_, rfl, hsame⟩
  split
  · exact ⟨_, rfl, hsame⟩
  next expireAt _ =>
  obtain ⟨records, hpush, hord, hmem⟩ := pushTimestamp_spec expireAt hnew h.ordered
  refine ⟨records, by rw [hpush]; rfl, ⟨h.active, h.prev_le, h.retire_le, hord, fun r hr => ?_⟩, fun r hr => ?_⟩
  · rcases hmem r hr with hr | hr
    · exact h.pending r hr
    · exact hr ▸ ⟨hret, hiss⟩
  · rcases hmem r hr with hr | hr
    · exact (hnew r hr).le
    · exact hr.le

theorem Sound.trackAll (now : Nat) : ∀ (n first : Nat) {s : CidState}, s.Sound →
    (∀ r ∈ s.retireTimestamp, r.sequence < first) → s.retireSeq ≤ first → first + n ≤ s.issued →
    ∃ records, trackAll now s (range' first n) = some { s with retireTimestamp := records } ∧
      Sound { s with retireTimestamp := records }
  | 0, _, s, h, _, _, _ => ⟨s.retireTimestamp, rfl, h⟩
  | n + 1, first, s, h, hnew, hret, hiss => by
    obtain ⟨records, htrk, hsnd, hle⟩ := h.trackLifetime first now hnew hret (by omega)
    obtain ⟨records', htrk', hsnd'⟩ := Sound.trackAll now n (first + 1) hsnd
      (fun r hr => Nat.lt_succ_of_le (hle r hr)) (Nat.le_succ_of_le hret) (by show first + 1 + n ≤ s.issued; omega)
    exact ⟨records', by simp [range'_succ, CidState.trackAll, htrk, htrk'], hsnd'⟩

theorem Sound.new (cidLen : Nat) (cidLifetime : Option Nat) (now issued : Nat) :
    ∃ s, CidState.new cidLen cidLifetime now issued = some s ∧ s.Sound ∧ s.issued = issued := by
  have hbase : Sound ⟨[], issued, (range issued).toFinset, 0, 0, cidLen, cidLifetime⟩ :=
    ⟨by simp, le_rfl, zero_le, List.Pairwise.nil, by simp⟩
  obtain ⟨records, htrk, hsnd⟩ := Sound.trackAll now issued 0 hbase (by simp) le_rfl (by simp)
  rw [← range_eq_range'] at htrk
  exact ⟨_, htrk, hsnd, rfl⟩

theorem Sound.newCids (h : s.Sound) (now n : Nat) :
    ∃ t, s.newCids (range' s.issued n) now = some t ∧ t.Sound ∧ t.issued = s.issued + n ∧
      t.prevRetireSeq = s.prevRetireSeq ∧ t.retireSeq = s.retireSeq := by
  unfold CidState.newCids
  cases n with
  | zero => exact ⟨s, rfl, h, rfl, rfl, rfl⟩
  | succ n =>
    have hlast : (range' s.issued (n + 1)).getLast? = some (s.issued + n) := by
      simp [getLast?_range']
    have hsnd : Sound { s with
        issued := s.issued + (range' s.issued (n + 1)).length
        activeSeq := s.activeSeq ∪ (range' s.issued (n + 1)).toFinset } := by
      refine ⟨fun seq hseq => ?_, h.prev_le, ?_, h.ordered, fun r hr => ?_⟩
      · simp only [Finset.mem_union, List.mem_toFinset, mem_range'_1] at hseq
        simp only [length_range']
        rcases hseq with hseq | hseq
        · exact Nat.lt_add_right _ (h.active seq hseq)
        · exact hseq.2
      · exact Nat.le_add_right_of_le h.retire_le
      · exact ⟨(h.pending r hr).1, Nat.lt_add_right _ (h.pending r hr).2⟩
    obtain ⟨records, htrk, htrkd, -⟩ := hsnd.trackLifetime (s.issued + n) now
      (fun r hr => Nat.lt_add_right _ (h.pending r hr).2) (Nat.le_add_right_of_le h.retire_le)
      (by simp only [length_range']; omega)
    rw [hlast]
    exact ⟨_, htrk, htrkd, by simp, rfl, rfl⟩

/-- A timeout takes a record off the queue; the request to retire moves up to it, or waits. -/
theorem Sound.onCidTimeout (h : s.Sound) :
    s.onCidTimeout.2.Sound ∧ s.prevRetireSeq ≤ s.onCidTimeout.2.prevRetireSeq ∧
      s.retireSeq ≤ s.onCidTimeout.2.retireSeq ∧ s.onCidTimeout.2.issued = s.issued := by
  obtain ⟨records, issued, activeSeq, prev, retire, cidLen, lifetime⟩ := s
  cases records with
  | nil =>
    simp only [CidState.onCidTimeout, head?_nil, tail_nil, map_none, getD_none]
    split
    · exact ⟨h, le_rfl, le_rfl, rfl⟩
    · exact ⟨{ h with prev_le := le_rfl }, h.prev_le, le_rfl, rfl⟩
  | cons first rest =>
    obtain ⟨hfst, hrest⟩ := pairwise_cons.mp h.ordered
    have hpend := h.pending first mem_cons_self
    simp only [CidState.onCidTimeout, head?_cons, tail_cons, map_some, getD_some]
    split
    · exact ⟨⟨h.active, h.prev_le, h.retire_le, hrest, fun r hr => h.pending r (mem_cons_of_mem _ hr)⟩, le_rfl, le_rfl, rfl⟩
    refine ⟨⟨h.active, ?_, hpend.2, hrest, fun r hr => ?_⟩, h.prev_le, ?_, rfl⟩
    · exact Nat.le_succ_of_le hpend.1
    · exact ⟨hfst r hr, (h.pending r (mem_cons_of_mem _ hr)).2⟩
    · exact Nat.le_succ_of_le hpend.1

theorem Sound.onCidRetirement (h : s.Sound) (sequence limit : Nat) :
    (s.onCidRetirement sequence limit).2.Sound ∧
      (s.onCidRetirement sequence limit).2 = { s with activeSeq := (s.onCidRetirement sequence limit).2.activeSeq } := by
  unfold CidState.onCidRetirement
  split
  · exact ⟨h, rfl⟩
  split
  · exact ⟨h, rfl⟩
  · exact ⟨{ h with active := fun seq hseq => h.active seq (Finset.mem_of_mem_erase hseq) }, rfl⟩

theorem onCidRetirement_unissued (s : CidState) {sequence : Nat} (limit : Nat) (hunissued : s.issued < sequence) :
    ∃ reason, s.onCidRetirement sequence limit = (.error ⟨.protocolViolation, reason⟩, s) := by
  unfold CidState.onCidRetirement
  rw [if_pos hunissued]
  split
  · exact ⟨_, rfl⟩
  · exact ⟨_, rfl⟩

end CidState

namespace LocalCids
open CidState

/-- The batches on their way hold the numbers from `start` to `stop`, in order. -/
def Consecutive (stop : Nat) : Nat → List (List Nat × Nat) → Prop
  | start, [] => start = stop
  | start, (ids, _) :: rest => ∃ n, ids = range' start n ∧ Consecutive stop (start + n) rest

theorem Consecutive.concat {num now : Nat} : ∀ {batches : List (List Nat × Nat)} {start stop : Nat},
    Consecutive stop start batches → Consecutive (stop + num) start (batches ++ [(range' stop num, now)])
  | [], start, stop, h => by
    obtain rfl := h
    exact ⟨num, rfl, rfl⟩
  | (ids, _) :: rest, start, stop, ⟨n, hids, hrest⟩ => ⟨n, hids, hrest.concat⟩

structure Sound (s : LocalCids) : Prop where
  cids : s.cids.Sound
  queue : Consecutive s.cidsIssued s.cids.issued s.newIdentifiers

variable {s t : LocalCids}

theorem Sound.start (h : s.Start) : s.Sound := by
  obtain ⟨cidLen, cidLifetime, now, preferredAddress, hnew, hiss, hq⟩ := h
  obtain ⟨cids, hcids, hsnd, hcnt⟩ := CidState.Sound.new cidLen cidLifetime now (if preferredAddress then 2 else 1)
  obtain rfl := some.inj (hcids.symm.trans hnew)
  exact ⟨hsnd, by rw [hq, hiss]; exact hcnt⟩

theorem Sound.step (h : s.Sound) (event : Event) :
    ∃ t, s.step event = some t ∧ t.Sound ∧ s.cids.prevRetireSeq ≤ t.cids.prevRetireSeq ∧
      s.cids.retireSeq ≤ t.cids.retireSeq := by
  cases event with
  | sendNewIdentifiers now num => exact ⟨_, rfl, ⟨h.cids, h.queue.concat⟩, le_rfl, le_rfl⟩
  | takeNewIdentifiers =>
    have hq := h.queue
    simp only [LocalCids.step]
    split
    · exact ⟨s, rfl, h, le_rfl, le_rfl⟩
    next ids now rest hbatches =>
    rw [hbatches] at hq
    obtain ⟨n, rfl, hrest⟩ := hq
    obtain ⟨cids, hnew, hsnd, hiss, hprev, hret⟩ := h.cids.newCids now n
    exact ⟨_, by rw [hnew]; rfl, ⟨hsnd, hiss ▸ hrest⟩, hprev.ge, hret.ge⟩
  | pushNewCid =>
    obtain ⟨hsnd, hprev, hret, hiss⟩ := h.cids.onCidTimeout
    exact ⟨_, rfl, ⟨hsnd, hiss ▸ h.queue⟩, hprev, hret⟩
  | retireConnectionId sequence limit =>
    obtain ⟨hsnd, hsame⟩ := h.cids.onCidRetirement sequence limit
    refine ⟨_, rfl, ⟨hsnd, ?_⟩, ?_, ?_⟩
    · show Consecutive s.cidsIssued (s.cids.onCidRetirement sequence limit).2.issued s.newIdentifiers
      rw [hsame]
      exact h.queue
    · show s.cids.prevRetireSeq ≤ (s.cids.onCidRetirement sequence limit).2.prevRetireSeq
      rw [hsame]
    · show s.cids.retireSeq ≤ (s.cids.onCidRetirement sequence limit).2.retireSeq
      rw [hsame]

/-- In every reachable state the active numbers were issued, the two retirement marks only move up and stay within
    what was issued, and a frame that names a number not yet issued is refused and changes nothing, unless it names
    the very next one. -/
theorem local_cids_sound (h : Reaches step (fun _ _ => True) Start s) :
    (∀ seq ∈ s.cids.activeSeq, seq < s.cids.issued) ∧
      s.cids.prevRetireSeq ≤ s.cids.issued ∧ s.cids.retireSeq ≤ s.cids.issued ∧
      (∀ event t, s.step event = some t →
        s.cids.prevRetireSeq ≤ t.cids.prevRetireSeq ∧ s.cids.retireSeq ≤ t.cids.retireSeq) ∧
      ∀ sequence limit, s.cids.issued ≤ sequence → sequence ≠ s.cids.issued →
        ∃ reason, s.cids.onCidRetirement sequence limit = (.error ⟨.protocolViolation, reason⟩, s.cids) := by
  have hsound : s.Sound := h.invariant (fun _ => Sound.start) fun s event t hs _ hstep => by
    obtain ⟨u, hu, hsound, -⟩ := hs.step event
    exact some.inj (hu.symm.trans hstep) ▸ hsound
  refine ⟨hsound.cids.active, hsound.cids.prev_le.trans hsound.cids.retire_le, hsound.cids.retire_le, ?_, ?_⟩
  · intro event t hstep
    obtain ⟨u, hu, -, hprev, hretire⟩ := hsound.step event
    obtain rfl : u = t := some.inj (hu.symm.trans hstep)
    exact ⟨hprev, hretire⟩
  · intro sequence limit hle hne
    exact onCidRetirement_unissued _ limit (hle.lt_of_ne' hne)

def oneIssued : LocalCids := ⟨⟨[⟨0, 3600⟩], 1, {0}, 0, 0, 8, some 3600⟩, 1, []⟩

theorem start_oneIssued : oneIssued.Start := ⟨8, some 3600, 0, false, rfl, rfl, rfl⟩

theorem local_cids_sound_oneIssued :
    Reaches step (fun _ _ => True) Start oneIssued ∧
      ∃ reason, oneIssued.cids.onCidRetirement 2 8 = (.error ⟨.protocolViolation, reason⟩, oneIssued.cids) :=
  ⟨.start start_oneIssued, (local_cids_sound (.start start_oneIssued)).2.2.2.2 2 8 (by decide) (by decide)⟩

/-- The number that no identifier has yet, and none is on its way for, is taken for one that was issued. -/
theorem next_cid_retired :
    Reaches step (fun _ _ => True) Start oneIssued ∧ oneIssued.newIdentifiers = [] ∧ oneIssued.cidsIssued = 1 ∧
      1 ∉ oneIssued.cids.activeSeq ∧ (oneIssued.cids.onCidRetirement 1 8).1 = .ok true :=
  ⟨.start start_oneIssued, rfl, rfl, by decide, rfl⟩

end LocalCids

/-! The queue of remote connection identifiers against the history of its calls. -/

open Function CidQueue

namespace CidQueue

/-- The partial map that the ring buffer denotes: the data held for a sequence number. -/
def held (self : CidQueue) (k : Nat) : Option CidData := window self.buffer self.cursor self.offset k

theorem held_bound {self : CidQueue} {k : Nat} {d : CidData} (h : self.held k = some d) :
    self.offset ≤ k ∧ k < self.offset + LEN :=
  window_isSome h

/-- Only the identifier with the smallest sequence number can be without a reset token. -/
def Tokens (q : CidQueue) : Prop := ∀ k d, q.held k = some d → q.offset < k → d.2.isSome

/-- A frame that is accepted enters the map, and the window moves to the first identifier from `retirePriorTo` on.
    When it moves, the range that it leaves is returned. -/
structure Inserted (q : CidQueue) (cid : NewConnectionId) (out : Option ((Nat × Nat) × ResetToken)) (q' : CidQueue) :
    Prop where
  held : ∀ k, q'.held k =
    if k = cid.sequence then some (cid.id, some cid.resetToken)
    else if max q.offset cid.retirePriorTo ≤ k then q.held k else none
  mono : q.offset ≤ q'.offset
  passed : cid.retirePriorTo ≤ q'.offset
  active : (q'.held q'.offset).isSome
  range : out.map (·.1) = if q.offset < q'.offset then some (q.offset, min q'.offset (q.offset + LEN)) else none

/-- An identifier is given up for the next one, and the range from it on is returned. -/
structure Advanced (q : CidQueue) (out : Option (ResetToken × (Nat × Nat))) (q' : CidQueue) : Prop where
  held : ∀ k, q'.held k = if k = q.offset then none else q.held k
  lt : q.offset < q'.offset
  le : q'.offset ≤ q.offset + LEN
  active : (q'.held q'.offset).isSome
  range : out.map (·.2) = some (q.offset, q'.offset)

variable {q : CidQueue} {cid : NewConnectionId}

theorem insert_error {e : InsertError} (h : (q.insert cid).1 = .error e) : (q.insert cid).2 = q := by
  unfold insert at h ⊢
  split
  · rfl
  next hseq =>
  rw [if_neg hseq] at h
  dsimp only at h ⊢
  split
  · rfl
  next hlim =>
  rw [if_neg hlim] at h
  split at h
  · cases h
  split at h
  · cases h
  · split at h <;> cases h

theorem window_record (hprior : cid.retirePriorTo ≤ cid.sequence)
    (hseq : q.offset ≤ cid.sequence) (hlim : cid.sequence - q.offset < LEN + (cid.retirePriorTo - q.offset)) (k : Nat) :
    window (q.record cid) (slot q.cursor (cid.retirePriorTo - q.offset)) (max q.offset cid.retirePriorTo) k =
      if k = cid.sequence then some (cid.id, some cid.resetToken)
      else if max q.offset cid.retirePriorTo ≤ k then q.held k else none := by
  have hbase : q.offset + (cid.retirePriorTo - q.offset) = max q.offset cid.retirePriorTo := by omega
  have h₁ : cid.retirePriorTo - q.offset ≤ cid.sequence - q.offset := by omega
  have h₂ : cid.sequence - q.offset < cid.retirePriorTo - q.offset + LEN := by omega
  have hmove := @window_move _ _ q.buffer q.cursor q.offset k _ _ (some (cid.id, some cid.resetToken)) h₁ h₂
  rwa [hbase, Nat.add_sub_cancel' hseq] at hmove

theorem insert_ok {q' : CidQueue} {out : Option ((Nat × Nat) × ResetToken)}
    (hprior : cid.retirePriorTo ≤ cid.sequence) (hact : (q.held q.offset).isSome) (htok : Tokens q)
    (h : q.insert cid = (.ok out, q')) : Inserted q cid out q' := by
  unfold insert at h
  split at h
  · cases h
  next hseq =>
  have hseq := not_lt.mp hseq
  dsimp only at h
  split at h
  · cases h
  next hlim =>
  have hwin := window_record hprior hseq (not_le.mp hlim)
  split at h
  · next hzero =>
    obtain ⟨hout, rfl⟩ := Prod.mk.inj h
    obtain rfl : none = out := Except.ok.inj hout
    rw [hzero, slot_zero, show max q.offset cid.retirePriorTo = q.offset by omega] at hwin
    refine ⟨?_, le_rfl, Nat.sub_eq_zero_iff_le.mp hzero, ?_, (if_neg (lt_irrefl _)).symm⟩
    · rw [show max q.offset cid.retirePriorTo = q.offset by omega]
      exact hwin
    · rw [held, hwin q.offset]
      split
      · rfl
      · rwa [if_pos le_rfl]
  next hpos =>
  rw [show max q.offset cid.retirePriorTo = cid.retirePriorTo by omega] at hwin
  split at h
  · next hnil =>
    -- The new identifier is there, so the search finds one.
    have hnew := hwin cid.sequence
    rw [if_pos rfl, window, if_pos (by omega)] at hnew
    have hmem : (cid.sequence - cid.retirePriorTo, (cid.id, some cid.resetToken)) ∈
        occupied (q.record cid) (slot q.cursor (cid.retirePriorTo - q.offset)) :=
      mem_occupied.mpr ⟨show cid.sequence - cid.retirePriorTo < LEN by omega, hnew⟩
    rw [show occupied _ _ = [] from hnil] at hmem
    cases hmem
  next i id token rest hiter =>
  obtain ⟨hi, hval, hemp⟩ := occupied_cons hiter
  have hskip : ∀ k, window (q.record cid) (slot (slot q.cursor (cid.retirePriorTo - q.offset)) i)
      (cid.retirePriorTo + i) k =
        window (q.record cid) (slot q.cursor (cid.retirePriorTo - q.offset)) cid.retirePriorTo k := fun k =>
    window_skip hi.le fun j hj => (window_add (hj.trans hi)).trans (hemp j hj)
  have hfound : window (q.record cid) (slot q.cursor (cid.retirePriorTo - q.offset)) cid.retirePriorTo
      (cid.retirePriorTo + i) = some (id, token) := (window_add hi).trans hval
  -- What is found lies behind the old start, so it has a token.
  obtain ⟨tok, rfl⟩ : ∃ tok, token = some tok := by
    rw [hwin] at hfound
    split at hfound
    · exact ⟨cid.resetToken, (congrArg (·.2) (some.inj hfound)).symm⟩
    rw [if_pos le_self_add] at hfound
    exact isSome_iff_exists.mp (htok _ _ hfound (by omega))
  obtain ⟨hout, rfl⟩ := Prod.mk.inj h
  cases hout
  refine ⟨fun k => ?_, show q.offset ≤ cid.retirePriorTo + i by omega, le_self_add, ?_, ?_⟩
  · rw [show max q.offset cid.retirePriorTo = cid.retirePriorTo by omega]
    exact (hskip k).trans (hwin k)
  · rw [held, hskip, hfound]
    rfl
  · rw [if_pos (show q.offset < cid.retirePriorTo + i by omega)]
    rfl

theorem next_some {q' : CidQueue} {out : Option (ResetToken × (Nat × Nat))} (hact : (q.held q.offset).isSome)
    (htok : Tokens q) (h : q.next = (out, q')) : q' = q ∧ out = none ∨ Advanced q out q' := by
  unfold next at h
  split at h
  · next p i id token rest hiter =>
    obtain ⟨hp, -, hpre⟩ := occupied_cons hiter
    obtain ⟨hpi, hi, hval, hemp⟩ := occupied_cons_cons hiter
    -- The first of them is the active identifier.
    have hp0 : p.1 = 0 := by
      by_contra hne
      rw [held, window_start, ← slot_zero q.cursor, hpre 0 (Nat.pos_of_ne_zero hne)] at hact
      cases hact
    have hheld : q.held (q.offset + i) = some (id, token) := (window_add hi).trans hval
    obtain ⟨tok, rfl⟩ := isSome_iff_exists.mp (htok _ _ hheld (by omega))
    cases h
    have hgap : ∀ j < i, window (update q.buffer q.cursor none) q.cursor q.offset (q.offset + j) = none := by
      intro j hj
      rw [window_add (hj.trans hi), update_apply]
      split
      · rfl
      next hne =>
      refine hemp j ?_ hj
      rw [hp0]
      refine Nat.pos_of_ne_zero fun h0 => hne ?_
      rw [h0, slot_zero]
    have hmap : ∀ k, window (update q.buffer q.cursor none) q.cursor q.offset k =
        if k = q.offset then none else q.held k := fun k => by
      by_cases hk : k = q.offset
      · rw [if_pos hk, hk, window_start, update_self]
      rw [if_neg hk, held, window, window]
      refine if_ctx_congr Iff.rfl (fun hin => ?_) fun _ => rfl
      rw [update_of_ne]
      intro heq
      have := slot_inj (heq.trans (slot_zero q.cursor).symm) (by omega) (by omega)
      omega
    refine .inr ⟨fun k => ?_, show q.offset < q.offset + i by omega, show q.offset + i ≤ q.offset + LEN by omega, ?_, rfl⟩
    · exact (window_skip hi.le hgap).trans (hmap k)
    · rw [held]
      simp only
      rw [window_skip hi.le hgap, hmap, if_neg (by omega), hheld]
      rfl
  cases h
  exact .inl ⟨rfl, rfl⟩

end CidQueue

inductive CidOp where
  | insert (cid : NewConnectionId)
  | next

/-- A queue with what it accepted and with the ranges it returned for retirement. -/
structure CidHistory where
  queue : CidQueue
  accepted : List (Nat × ConnectionId)
  retired : List (Nat × Nat)

namespace CidHistory
open CidQueue

def start (cid : ConnectionId) : CidHistory := ⟨.new cid, [(0, cid)], []⟩

def step (h : CidHistory) : CidOp → CidHistory
  | .insert cid =>
    match h.queue.insert cid with
    | (.error _, queue) => { h with queue }
    | (.ok out, queue) =>
      { queue, accepted := (cid.sequence, cid.id) :: h.accepted, retired := (out.map (·.1)).toList ++ h.retired }
  | .next =>
    let (out, queue) := h.queue.next
    { h with queue, retired := (out.map (·.2)).toList ++ h.retired }

def run (cid : ConnectionId) (ops : List CidOp) : CidHistory := ops.foldl step (start cid)

/-- What a queue holds and what it gave up, in terms of its history. -/
structure Kept (h : CidHistory) : Prop where
  active : (h.queue.held h.queue.offset).isSome
  tokens : h.queue.Tokens
  held : ∀ k id, (∃ token, h.queue.held k = some (id, token)) ↔ (k, id) ∈ h.accepted ∧ h.queue.offset ≤ k
  once : ∀ k id, (k, id) ∈ h.accepted → k < h.queue.offset → cover h.retired k = 1
  range : ∀ r ∈ h.retired, r.1 < r.2 ∧ r.2 ≤ r.1 + LEN ∧ r.2 ≤ h.queue.offset

theorem held_new (cid : ConnectionId) (k : Nat) : (new cid).held k = if k = 0 then some (cid, none) else none := by
  by_cases hk : k = 0
  · rw [if_pos hk, hk]
    rfl
  rw [if_neg hk, held, window]
  split
  · next hin =>
    have hlt : k < LEN := by simpa [new] using hin.2
    refine update_of_ne (fun heq => hk ?_) _ fun _ => none
    exact slot_inj (heq.trans (slot_zero _).symm) (by omega) (by omega)
  · rfl

theorem kept_start (cid : ConnectionId) : Kept (start cid) where
  active := by
    show ((new cid).held 0).isSome = true
    rw [held_new]
    rfl
  tokens k d hd hk := by
    have hd : (new cid).held k = some d := hd
    have hk : 0 < k := hk
    rw [held_new, if_neg hk.ne'] at hd
    cases hd
  held k id := by
    have hzero : (start cid).queue.offset ≤ k := Nat.zero_le k
    rw [and_iff_left hzero]
    show (∃ token, (new cid).held k = some (id, token)) ↔ (k, id) ∈ [(0, cid)]
    rw [held_new, mem_singleton, Prod.mk.injEq]
    constructor
    · rintro ⟨token, htk⟩
      split at htk
      · next hk => exact ⟨hk, (congrArg (·.1) (some.inj htk)).symm⟩
      · cases htk
    · rintro ⟨rfl, rfl⟩
      exact ⟨none, if_pos rfl⟩
  once k id _ hk := absurd hk (Nat.not_lt_zero k)
  range r hr := absurd hr not_mem_nil

variable {h : CidHistory}

theorem Kept.cover_eq_zero (H : Kept h) {k : Nat} (hk : h.queue.offset ≤ k) : cover h.retired k = 0 := by
  by_contra hne
  obtain ⟨r, hr, hrk⟩ := cover_pos_iff.mp (Nat.pos_of_ne_zero hne)
  exact absurd hrk.2 (by have := (H.range r hr).2.2; omega)

theorem Kept.retire (H : Kept h) {offset last : Nat} (h₁ : h.queue.offset < last)
    (h₂ : last ≤ h.queue.offset + LEN) (h₃ : last ≤ offset)
    (hcov : ∀ k id, (k, id) ∈ h.accepted → h.queue.offset ≤ k → k < offset → k < last) :
    (∀ k id, (k, id) ∈ h.accepted → k < offset → cover ((h.queue.offset, last) :: h.retired) k = 1) ∧
      ∀ r ∈ (h.queue.offset, last) :: h.retired, r.1 < r.2 ∧ r.2 ≤ r.1 + LEN ∧ r.2 ≤ offset := by
  refine ⟨fun k id hacc hk => ?_, fun r hr => ?_⟩
  · rw [cover_cons]
    by_cases hpass : k < h.queue.offset
    · rw [H.once k id hacc hpass, mark_neg fun hin => absurd hin.1 (not_le.mpr hpass)]
    have hge := not_lt.mp hpass
    rw [H.cover_eq_zero hge, mark_pos ⟨hge, hcov k id hacc hge hk⟩]
  · rcases mem_cons.mp hr with rfl | hr
    · exact ⟨h₁, h₂, h₃⟩
    obtain ⟨hlt, hlen, hle⟩ := H.range r hr
    exact ⟨hlt, hlen, by omega⟩

/-- A frame agrees with the history: it retires nothing behind itself, and names no number with another identifier. -/
structure Agrees (h : CidHistory) (cid : NewConnectionId) : Prop where
  prior : cid.retirePriorTo ≤ cid.sequence
  same : ∀ id, (cid.sequence, id) ∈ h.accepted → id = cid.id

theorem Kept.insert {h : CidHistory} (H : Kept h) {cid : NewConnectionId} (A : Agrees h cid) :
    Kept (h.step (.insert cid)) := by
  simp only [step]
  cases hins : h.queue.insert cid with
  | mk result queue =>
    cases result with
    | error e =>
      have herr : (h.queue.insert cid).1 = .error e := by rw [hins]
      have hsame := insert_error herr
      rw [hins] at hsame
      obtain rfl := hsame
      exact H
    | ok out =>
      have I := insert_ok A.prior H.active H.tokens hins
      have hnew : queue.held cid.sequence = some (cid.id, some cid.resetToken) := by rw [I.held, if_pos rfl]
      have hold : ∀ k, k ≠ cid.sequence → queue.offset ≤ k → queue.held k = h.queue.held k := fun k hk hge => by
        rw [I.held, if_neg hk, if_pos (max_le (I.mono.trans hge) (I.passed.trans hge))]
      have hretd : ∀ k id, (k, id) ∈ (cid.sequence, cid.id) :: h.accepted → k < queue.offset →
          (k, id) ∈ h.accepted := fun k id hacc hk => by
        rcases mem_cons.mp hacc with heq | hacc
        · cases heq
          exact absurd (held_bound hnew).1 (not_le.mpr hk)
        · exact hacc
      have hrgs : (∀ k id, (k, id) ∈ h.accepted → k < queue.offset →
          cover ((out.map (·.1)).toList ++ h.retired) k = 1) ∧
            ∀ r ∈ (out.map (·.1)).toList ++ h.retired, r.1 < r.2 ∧ r.2 ≤ r.1 + LEN ∧ r.2 ≤ queue.offset := by
        rw [I.range]
        by_cases hmove : h.queue.offset < queue.offset
        · rw [if_pos hmove]
          refine H.retire (lt_min hmove (Nat.lt_add_of_pos_right (by decide))) (min_le_right _ _) (min_le_left _ _)
            fun k id hacc hge hk => lt_min hk ?_
          obtain ⟨token, htk⟩ := (H.held k id).mpr ⟨hacc, hge⟩
          exact (held_bound htk).2
        have hstay := le_antisymm (not_lt.mp hmove) I.mono
        rw [if_neg hmove, hstay]
        exact ⟨H.once, H.range⟩
      refine ⟨I.active, fun k d hd hk => ?_, fun k id => ?_, fun k id hacc hk => hrgs.1 k id (hretd k id hacc hk) hk,
        hrgs.2⟩
      · by_cases heq : k = cid.sequence
        · rw [heq, hnew] at hd
          rw [← some.inj hd]
          rfl
        rw [hold k heq hk.le] at hd
        exact H.tokens k d hd (I.mono.trans_lt hk)
      · constructor
        · rintro ⟨token, htk⟩
          have hge := (held_bound htk).1
          refine ⟨?_, hge⟩
          by_cases heq : k = cid.sequence
          · rw [heq, hnew] at htk
            cases htk
            exact heq ▸ mem_cons_self
          rw [hold k heq hge] at htk
          exact mem_cons_of_mem _ ((H.held k id).mp ⟨token, htk⟩).1
        · rintro ⟨hacc, hge⟩
          by_cases heq : k = cid.sequence
          · have hid : id = cid.id := by
              rcases mem_cons.mp hacc with hpair | hacc
              · exact (Prod.mk.inj hpair).2
              · exact A.same id (heq ▸ hacc)
            rw [heq, hnew, hid]
            exact ⟨_, rfl⟩
          rw [hold k heq hge]
          refine (H.held k id).mpr ⟨?_, I.mono.trans hge⟩
          exact (mem_cons.mp hacc).resolve_left fun hpair => heq (Prod.mk.inj hpair).1

theorem Kept.next {h : CidHistory} (H : Kept h) : Kept (h.step .next) := by
  simp only [step]
  cases hnext : h.queue.next with
  | mk out queue =>
    rcases next_some H.active H.tokens hnext with ⟨rfl, rfl⟩ | A
    · exact H
    have hold : ∀ k, queue.offset ≤ k → queue.held k = h.queue.held k := fun k hge => by
      rw [A.held, if_neg (A.lt.trans_le hge).ne']
    obtain ⟨honce, hrange⟩ := H.retire A.lt A.le le_rfl fun k _ _ _ hk => hk
    rw [A.range]
    refine ⟨A.active, fun k d hd hk => ?_, fun k id => ?_, honce, hrange⟩
    · rw [hold k hk.le] at hd
      exact H.tokens k d hd (A.lt.trans hk)
    · constructor
      · rintro ⟨token, htk⟩
        have hge := (held_bound htk).1
        rw [hold k hge] at htk
        exact ⟨((H.held k id).mp ⟨token, htk⟩).1, hge⟩
      · rintro ⟨hacc, hge⟩
        rw [hold k hge]
        exact (H.held k id).mpr ⟨hacc, A.lt.le.trans hge⟩

/-- The frames of a run: each retires nothing behind itself, and a number that is repeated, the first one included,
    carries the same identifier. -/
structure Consistent (cid : ConnectionId) (ops : List CidOp) : Prop where
  prior : ∀ f, .insert f ∈ ops → f.retirePriorTo ≤ f.sequence
  first : ∀ f, .insert f ∈ ops → f.sequence = 0 → f.id = cid
  same : ∀ f g, .insert f ∈ ops → .insert g ∈ ops → f.sequence = g.sequence → f.id = g.id

theorem mem_accepted_step {op : CidOp} {p : Nat × ConnectionId} (hp : p ∈ (h.step op).accepted) :
    p ∈ h.accepted ∨ ∃ f, op = .insert f ∧ p = (f.sequence, f.id) := by
  cases op with
  | insert f =>
    simp only [step] at hp
    split at hp
    · exact .inl hp
    · exact (mem_cons.mp hp).symm.imp_right fun heq => ⟨f, rfl, heq⟩
  | next => exact .inl hp

theorem kept_run {cid : ConnectionId} {all : List CidOp} (C : Consistent cid all) : ∀ (ops : List CidOp) (h : CidHistory),
    (∀ op ∈ ops, op ∈ all) → Kept h →
      (∀ p ∈ h.accepted, p = (0, cid) ∨ ∃ f, .insert f ∈ all ∧ p = (f.sequence, f.id)) → Kept (ops.foldl step h)
  | [], _, _, H, _ => H
  | op :: ops, h, hsub, H, hacc => by
    have hop := hsub op mem_cons_self
    refine kept_run C ops (h.step op) (fun op hop => hsub op (mem_cons_of_mem _ hop)) ?_ fun p hp => ?_
    · cases op with
      | next => exact H.next
      | insert f =>
        refine H.insert ⟨C.prior f hop, fun id hid => ?_⟩
        rcases hacc _ hid with heq | ⟨g, hg, heq⟩
        · obtain ⟨hseq, rfl⟩ := Prod.mk.inj heq
          exact (C.first f hop hseq).symm
        obtain ⟨hseq, rfl⟩ := Prod.mk.inj heq
        exact C.same g f hg hop hseq.symm
    · rcases mem_accepted_step hp with hp | ⟨f, rfl, rfl⟩
      · exact hacc p hp
      · exact .inr ⟨f, hop, rfl⟩

/-- The queue after any calls: the window holds exactly the identifiers that were accepted and not passed, the active
    one among them; an error changes nothing; what was accepted and passed lies in exactly one of the returned ranges,
    and none of these is longer than the window. -/
theorem cid_queue_refines (cid : ConnectionId) (ops : List CidOp) (C : Consistent cid ops) :
    let h := run cid ops
    (h.queue.held h.queue.offset).isSome = true ∧
      (∀ k id, (∃ token, h.queue.held k = some (id, token)) ↔ (k, id) ∈ h.accepted ∧ h.queue.offset ≤ k) ∧
      (∀ k d, h.queue.held k = some d → h.queue.offset ≤ k ∧ k < h.queue.offset + LEN) ∧
      (∀ f e, (h.queue.insert f).1 = .error e → (h.queue.insert f).2 = h.queue) ∧
      (∀ k id, (k, id) ∈ h.accepted → k < h.queue.offset → cover h.retired k = 1) ∧
      ∀ r ∈ h.retired, r.1 < r.2 ∧ r.2 - r.1 ≤ LEN := by
  intro h
  have H : Kept h := by
    refine kept_run C ops (start cid) (fun op hop => hop) (kept_start cid) fun p hp => .inl ?_
    exact mem_singleton.mp hp
  refine ⟨H.active, H.held, fun k d hd => held_bound hd, fun f e he => insert_error he, H.once, fun r hr => ?_⟩
  obtain ⟨hlt, hlen, -⟩ := H.range r hr
  exact ⟨hlt, Nat.sub_le_iff_le_add'.mpr hlen⟩

/-- The theorem at a run with a gap, a repeated frame, a jump of `retirePriorTo` over the window and a local switch. -/
theorem cid_queue_refines_jump :
    let frame : Nat → Nat → CidOp := fun n prior => .insert ⟨n, prior, [UInt8.ofNat n], []⟩
    let ops : List CidOp := [frame 1 0, frame 3 0, frame 1 0, .next, frame 8 7, frame 9 0, .next]
    (run [0] ops).queue.offset = 9 ∧ (run [0] ops).retired = [(8, 9), (1, 6), (0, 1)] ∧
      cover (run [0] ops).retired 3 = 1 := by
  intro frame ops
  have C : Consistent [0] ops := by
    refine ⟨by simp [ops, frame], by simp [ops, frame], fun f g hf hg => ?_⟩
    have hid : ∀ f, .insert f ∈ ops → f.id = [UInt8.ofNat f.sequence] := by simp [ops, frame]
    rw [hid f hf, hid g hg]
    exact fun h => h ▸ rfl
  have hoffset : (run [0] ops).queue.offset = 9 := by decide +kernel
  have hacc : (3, [3]) ∈ (run [0] ops).accepted := by decide +kernel
  exact ⟨hoffset, by decide +kernel, (cid_queue_refines [0] ops C).2.2.2.2.1 3 [3] hacc (hoffset ▸ by decide)⟩

end CidHistory

/-! How many sequence numbers can wait for a `RETIRE_CONNECTION_ID` frame. A frame for an identifier that is retired
    already adds one without a count. -/

namespace CidQueue
variable {q q' : CidQueue}

theorem insert_offset {cid : NewConnectionId} {out : Option ((Nat × Nat) × ResetToken)}
    (h : q.insert cid = (.ok out, q')) : q.offset ≤ q'.offset ∧ (out.isSome → q.offset < q'.offset) := by
  unfold insert at h
  split at h
  · cases h
  dsimp only at h
  split at h
  · cases h
  split at h
  · obtain ⟨hout, rfl⟩ := Prod.mk.inj h
    cases hout
    exact ⟨le_rfl, fun hsome => Bool.noConfusion hsome⟩
  next hcnt =>
  have hmv : ∀ i, q.offset < cid.retirePriorTo + i := fun i => by omega
  split at h
  · obtain ⟨hout, rfl⟩ := Prod.mk.inj h
    cases hout
    exact ⟨le_rfl, fun hsome => Bool.noConfusion hsome⟩
  next i id token rest _ =>
  cases token with
  | none | some token =>
    obtain ⟨-, rfl⟩ := Prod.mk.inj h
    exact ⟨(hmv i).le, fun _ => hmv i⟩

theorem insert_retired {cid : NewConnectionId} (h : (q.insert cid).1 = .error .retired) : cid.sequence < q.offset := by
  unfold insert at h
  split at h
  · assumption
  dsimp only at h
  split at h
  · cases h
  split at h
  · cases h
  split at h
  · cases h
  · split at h <;> cases h

theorem next_offset {out : Option (ResetToken × (Nat × Nat))} (h : q.next = (out, q')) :
    q' = q ∧ out = none ∨ q.offset < q'.offset ∧ ∀ token range, out = some (token, range) → range.2 < range.1 + LEN := by
  unfold next at h
  split at h
  · next p i id token rest hiter =>
    obtain ⟨hlt, hi, -⟩ := occupied_cons_cons hiter
    cases h
    refine .inr ⟨show q.offset < q.offset + i by omega, fun tok range hout => ?_⟩
    obtain ⟨_, -, heq⟩ := Option.map_eq_some_iff.mp hout
    obtain ⟨-, rfl⟩ := Prod.mk.inj heq
    exact Nat.add_lt_add_left hi _
  cases h
  exact .inl ⟨rfl, rfl⟩

end CidQueue

namespace RemoteCids
variable {s t : RemoteCids}

/-- Few enough numbers wait, and few enough stand in each packet; none do before something is retired. -/
structure Bounded (s : RemoteCids) : Prop where
  waiting : s.retireCids.length ≤ maxPendingRetiredCids
  sent : ∀ packet ∈ s.inFlight, packet.length ≤ maxPendingRetiredCids
  initial : s.remCids.offset = 0 → s.retireCids = [] ∧ ∀ packet ∈ s.inFlight, packet = []

theorem Bounded.start (h : s.Start) : s.Bounded := by
  obtain ⟨hwait, hsent, -⟩ := h
  exact ⟨by simp [hwait], by simp [hsent], fun _ => ⟨hwait, by simp [hsent]⟩⟩

theorem Bounded.of_moved {remCids : CidQueue} {retireCids : List Nat} {token : Option ResetToken} (h : s.Bounded)
    (hmv : s.remCids.offset < remCids.offset) (hwait : retireCids.length ≤ maxPendingRetiredCids) :
    Bounded { s with remCids, retireCids, statelessResetToken := token } :=
  ⟨hwait, h.sent, fun hzero => absurd (hzero ▸ hmv) (Nat.not_lt_zero _)⟩

theorem Bounded.updateRemCid (h : s.Bounded) (hroom : s.retireCids.length + CidQueue.LEN ≤ maxPendingRetiredCids + 1) :
    s.updateRemCid.Bounded := by
  unfold RemoteCids.updateRemCid
  split
  · next remCids hnext =>
    rcases next_offset hnext with ⟨rfl, -⟩ | ⟨hmv, -⟩
    · exact h
    · exact h.of_moved hmv h.waiting
  next resetToken range remCids hnext =>
  rcases next_offset hnext with ⟨-, hout⟩ | ⟨hmv, hrange⟩
  · cases hout
  refine h.of_moved hmv ?_
  have hlen := hrange _ _ rfl
  have hpos : 0 < CidQueue.LEN := by decide
  rw [length_append, retired, length_range']
  omega

theorem Bounded.leaveInitialCid (h : s.Bounded) : s.leaveInitialCid.Bounded := by
  unfold RemoteCids.leaveInitialCid
  split
  · next hinit => exact h.updateRemCid (by rw [(h.initial hinit.2).1]; decide)
  · exact h

theorem Bounded.newConnectionId (h : s.Bounded) (frame : NewConnectionId)
    (hroom : frame.sequence < s.remCids.offset → s.retireCids.length < maxPendingRetiredCids) :
    (s.newConnectionId frame).2.Bounded := by
  unfold RemoteCids.newConnectionId
  split
  · exact h
  split
  · exact h
  split
  · next remCids hins =>
    have hle := (insert_offset hins).1
    refine Bounded.leaveInitialCid ⟨h.waiting, h.sent, fun hzero => h.initial ?_⟩
    exact Nat.le_zero.mp (hle.trans hzero.le)
  · next range resetToken remCids hins =>
    have hmv := (insert_offset hins).2 rfl
    dsimp only
    split
    · exact h.of_moved hmv h.waiting
    next hcnt =>
    refine (h.of_moved hmv ?_).leaveInitialCid
    rw [length_append, retired, length_range']
    exact not_lt.mp hcnt
  · next remCids hins =>
    have hsame : remCids = s.remCids := by
      rw [← insert_error (congrArg Prod.fst hins), hins]
    exact hsame ▸ h
  next remCids hins =>
  have hsame : remCids = s.remCids := by
    rw [← insert_error (congrArg Prod.fst hins), hins]
  have hretd := insert_retired (congrArg Prod.fst hins)
  subst hsame
  refine ⟨?_, h.sent, fun hzero => absurd (hzero ▸ hretd) (Nat.not_lt_zero _)⟩
  rw [length_append]
  exact hroom hretd

/-- A frame for an identifier that is retired already comes only while there is room in the queue, and a path changes only
    while there is room for all that a switch can retire. -/
def Roomy (s : RemoteCids) : Event → Prop
  | .newConnectionId frame => frame.sequence < s.remCids.offset → s.retireCids.length < maxPendingRetiredCids
  | .updateRemCid => s.retireCids.length + CidQueue.LEN ≤ maxPendingRetiredCids + 1
  | _ => True

instance (s : RemoteCids) : ∀ event, Decidable (s.Roomy event) := fun event => by
  unfold Roomy
  split <;> infer_instance

theorem Bounded.step (h : s.Bounded) {event : Event} (hroom : s.Roomy event) (hstep : s.step event = some t) :
    t.Bounded := by
  cases event with
  | newConnectionId frame =>
    have hnext := h.newConnectionId frame hroom
    simp only [RemoteCids.step] at hstep
    split at hstep
    · exact Option.some.inj hstep ▸ h
    split at hstep
    · next heq =>
      rw [heq] at hnext
      exact Option.some.inj hstep ▸ hnext
    next heq =>
    rw [heq] at hnext
    cases hstep
    exact { hnext with }
  | updateRemCid => exact Option.some.inj hstep ▸ h.updateRemCid hroom
  | transmit count =>
    cases hstep
    refine ⟨(length_take_le' _ _).trans h.waiting, ?_, fun hzero => ?_⟩
    · simp only [mem_append, mem_singleton]
      rintro packet (hpkt | rfl)
      · exact h.sent packet hpkt
      · rw [length_reverse, length_drop]
        exact (Nat.sub_le _ _).trans h.waiting
    · obtain ⟨hnone, hsent⟩ := h.initial hzero
      simp only [hnone, take_nil, drop_nil, reverse_nil, mem_append, mem_singleton, true_and]
      rintro packet (hpkt | rfl)
      · exact hsent packet hpkt
      · rfl
  | probe index =>
    simp only [RemoteCids.step] at hstep
    split at hstep
    · cases hstep
      have hget : ∀ P : List Nat → Prop, P [] → (∀ packet ∈ s.inFlight, P packet) → P (s.inFlight.getD index []) := by
        intro P hnil hall
        rw [getD_eq_getElem?_getD]
        cases hidx : s.inFlight[index]? with
        | none => exact hnil
        | some packet => exact hall packet (mem_of_getElem? hidx)
      refine ⟨?_, fun packet hpkt => ?_, fun hzero => ⟨?_, fun packet hpkt => ?_⟩⟩
      · exact hget (·.length ≤ maxPendingRetiredCids) zero_le h.sent
      · rcases mem_or_eq_of_mem_set hpkt with hpkt | rfl
        · exact h.sent packet hpkt
        · exact zero_le
      · exact hget (· = []) rfl (h.initial hzero).2
      · rcases mem_or_eq_of_mem_set hpkt with hpkt | rfl
        · exact (h.initial hzero).2 packet hpkt
        · rfl
    · exact Option.some.inj hstep ▸ h

/-- Whatever frames the peer sends, the connection is closed or the queue stays within its bound, as long as frames for
    identifiers that are retired already and changes of the path find room there. -/
theorem retire_backlog_bounded (h : Reaches step Roomy Start s) :
    s.error.isSome ∨ s.retireCids.length ≤ maxPendingRetiredCids :=
  .inr (h.invariant (P := Bounded) (fun _ => Bounded.start) fun _ _ _ hs hroom hstep => hs.step hroom hstep).waiting

def client : RemoteCids := ⟨.client, .new [7], [], [], none, none⟩

def retireFirst : NewConnectionId := ⟨1, 1, [8], [0]⟩

def firstAgain : NewConnectionId := ⟨0, 0, [7], [0]⟩

theorem retire_backlog_bounded_client :
    ∃ s, Reaches step Roomy Start s ∧ s.retireCids = [0, 0, 1] ∧
      (s.error.isSome ∨ s.retireCids.length ≤ maxPendingRetiredCids) := by
  obtain ⟨s, hreach, hwaiting⟩ : ∃ s, Reaches step Roomy Start s ∧ s.retireCids = [0, 0, 1] :=
    Reaches.exists_of_runFrom (s := client) (.start ⟨rfl, rfl, rfl⟩) [.newConnectionId retireFirst,
      .newConnectionId firstAgain, .newConnectionId ⟨2, 1, [9], [0]⟩, .updateRemCid] (by decide +kernel)
  exact ⟨s, hreach, hwaiting, retire_backlog_bounded hreach⟩

/-- A frame for a retired identifier, sent over and over, fills the queue beyond the bound, and nothing is closed. -/
theorem retire_backlog_grows : ∃ s, Reaches step (fun _ _ => True) Start s ∧ s.error = none ∧ s.retireCids.length = 101 :=
  Reaches.exists_of_runFrom (s := client) (.start ⟨rfl, rfl, rfl⟩)
    (.newConnectionId retireFirst :: replicate 100 (.newConnectionId firstAgain)) (by decide +kernel)

end RemoteCids
end SaorsaTransport
