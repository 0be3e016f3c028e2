import SaorsaTransport.Theorems.Streams.SendInv

/-! What the handshake does to the streams: parameters are noted, rejected 0-RTT data is forgotten with
    its streams, and a Retry sends everything again. -/

namespace SaorsaTransport
open Library AList List Option Function

namespace PendingStreamsQueue

variable {q q' : PendingStreamsQueue} {id id' : StreamId}

def Queued (q : PendingStreamsQueue) (id : StreamId) : Prop := ∃ e ∈ q.iter, e.id = id

instance (q : PendingStreamsQueue) (id : StreamId) : Decidable (q.Queued id) := inferInstanceAs (Decidable (∃ _ ∈ _, _))

theorem queued_pushPending (priority : Int) : (q.pushPending id' priority).Queued id ↔ id = id' ∨ q.Queued id := by
  unfold Queued pushPending iter
  simp only [mem_append, (MaxHeap.push_perm q.streams _).mem_iff, mem_cons]
  constructor
  · rintro ⟨e, he | rfl | he, rfl⟩
    · exact .inr ⟨e, .inl he, rfl⟩
    · exact .inl rfl
    · exact .inr ⟨e, .inr he, rfl⟩
  · rintro (rfl | ⟨e, he | he, rfl⟩)
    · exact ⟨_, .inr (.inl rfl), rfl⟩
    · exact ⟨e, .inl he, rfl⟩
    · exact ⟨e, .inr (.inr he), rfl⟩

theorem queued_pop {e : PendingStream} (h : q.pop = some (e, q')) : q'.next = none ∧ (q.Queued id → id = e.id ∨ q'.Queued id) := by
  unfold pop at h
  split at h
  · next hn =>
    cases h
    refine ⟨rfl, fun ⟨e', he', hid⟩ => ?_⟩
    rw [iter, hn] at he'
    rcases mem_append.mp he' with he' | he'
    · exact .inl (by rw [← hid, mem_singleton.mp he'])
    · exact .inr ⟨e', mem_append_right _ he', hid⟩
  next hn =>
  obtain ⟨top, htop, h⟩ := map_eq_some_iff.mp h
  cases h
  refine ⟨hn, fun ⟨e', he', hid⟩ => ?_⟩
  rw [iter, hn, MaxHeap.peek_eq_some htop] at he'
  rcases mem_cons.mp he' with rfl | he'
  · exact .inl hid.symm
  · exact .inr ⟨e', mem_append_right _ he', hid⟩

theorem queued_reinsertPending (hn : q.next = none) (priority : Int) :
    (q.reinsertPending id' priority).Queued id ↔ id = id' ∨ q.Queued id := by
  unfold Queued reinsertPending iter
  rw [hn]
  simp only [isSome_none, Bool.false_eq_true, if_false, toList_some, toList_none, mem_append,
    mem_singleton, not_mem_nil, false_or]
  constructor
  · rintro ⟨e, rfl | he, rfl⟩
    · exact .inl rfl
    · exact .inr ⟨e, he, rfl⟩
  · rintro (rfl | ⟨e, he, rfl⟩)
    · exact ⟨_, .inl rfl, rfl⟩
    · exact ⟨e, .inr he, rfl⟩

end PendingStreamsQueue

namespace StreamsState

variable {s t : StreamsState} {id : StreamId}

theorem setMaxDataRemotes_of_none (maxData : Nat) (h : ∀ i, s.sendAt ⟨s.side.peer, .bi, i⟩ = none) :
    ∀ count, s.setMaxDataRemotes maxData count = s
  | 0 => rfl
  | count + 1 => by
    unfold setMaxDataRemotes
    rw [setMaxDataRemotes_of_none maxData h count]
    dsimp only
    rw [h count]

theorem setParams_of_local (h : ∀ id stream, s.sendAt id = some stream → id.initiator = s.side) (params : TransportParameters) :
    s.setParams params = s.noteParams params := by
  rw [setParams_eq]
  refine setMaxDataRemotes_of_none _ (fun i => ?_) _
  cases hat : (s.noteParams params).sendAt ⟨s.side.peer, .bi, i⟩ with
  | none => exact hat
  | some stream => exact absurd (h _ stream hat) (Side.peer_ne _)

/-- The local streams of a direction below `count` are gone, and nothing else changed. -/
structure Removed (s t : StreamsState) (gone goneRecv : StreamId → Prop) : Prop where
  eq : t = { s with send := t.send, recv := t.recv }
  send : ∀ id, gone id → id ∉ t.send
  sendAt : ∀ id, ¬gone id → t.sendAt id = s.sendAt id
  mem_send : ∀ id, id ∈ t.send → id ∈ s.send
  recv : ∀ id, goneRecv id → id ∉ t.recv
  lookup_recv : ∀ id, ¬goneRecv id → t.recv.lookup id = s.recv.lookup id

theorem lt_succ_iff {side : Side} {dir : Dir} {count : Nat} : (id.initiator = side ∧ id.dir = dir ∧ id.index < count + 1) ↔
    id = ⟨side, dir, count⟩ ∨ id.initiator = side ∧ id.dir = dir ∧ id.index < count := by
  obtain ⟨i, d, n⟩ := id
  simp only [StreamId.mk.injEq, Nat.lt_succ_iff_lt_or_eq]
  tauto

theorem removed_removeLocals {dir : Dir} : ∀ {count : Nat} {t : StreamsState}, s.removeLocals dir count = some t →
    Removed s t (fun id => id.initiator = s.side ∧ id.dir = dir ∧ id.index < count)
      (fun id => dir = .bi ∧ id.initiator = s.side ∧ id.dir = dir ∧ id.index < count)
  | 0, t, h => by
    cases h
    exact ⟨rfl, fun id hid => absurd hid.2.2 (Nat.not_lt_zero _), fun _ _ => rfl, fun _ h => h,
      fun id hid => absurd hid.2.2.2 (Nat.not_lt_zero _), fun _ _ => rfl⟩
  | count + 1, t, h => by
    obtain ⟨u, hu, h⟩ := bind_eq_some_iff.mp h
    have ih := removed_removeLocals hu
    have hside : u.side = s.side := by rw [ih.eq]
    dsimp only at h
    rw [hside] at h
    split at h
    · cases h
      refine ⟨by rw [ih.eq], fun id hid hin => ?_, fun id hid => ?_, fun id hid => ih.mem_send id (mem_erase.mp hid).2,
        fun id hid hin => ?_, fun id hid => ?_⟩
      · obtain ⟨hne, hin⟩ := mem_erase.mp hin
        exact ih.send id ((lt_succ_iff.mp hid).resolve_left hne) hin
      · obtain ⟨hne, hid⟩ := not_or.mp (mt lt_succ_iff.mpr hid)
        rw [StreamsState.sendAt, lookup_erase_ne hne]
        exact ih.sendAt id hid
      · rw [if_pos hid.1] at hin
        obtain ⟨hne, hin⟩ := mem_erase.mp hin
        exact ih.recv id ⟨hid.1, (lt_succ_iff.mp hid.2).resolve_left hne⟩ hin
      · split
        · next hb =>
          obtain ⟨hne, hid⟩ := not_or.mp (mt lt_succ_iff.mpr fun h => hid ⟨hb, h⟩)
          rw [lookup_erase_ne hne]
          exact ih.lookup_recv id fun h => hid h.2
        · next hb => exact ih.lookup_recv id fun h => hb h.1
    · cases h

structure Rejected (s t : StreamsState) : Prop where
  eq : t = { s with
    send := t.send, recv := t.recv, next := fun _ => 0, sentMaxRemote := t.sentMaxRemote, pending := s.pending.clear
    sendStreams := 0, dataSent := 0, connectionBlocked := [] }
  send : ∀ id : StreamId, id.initiator = s.side → id.index < s.next id.dir → id ∉ t.send
  sendAt : ∀ id : StreamId, id.initiator ≠ s.side → t.sendAt id = s.sendAt id
  mem_send : ∀ id, id ∈ t.send → id ∈ s.send
  recvAt : ∀ id, t.recvAt id = s.recvAt id ∨ id.initiator = s.side ∧ t.recvAt id = none
  mem_recv : ∀ id : StreamId, id.initiator ≠ s.side → (id ∈ t.recv ↔ id ∈ s.recv)
  recv : ∀ id : StreamId, id.initiator = s.side → id ∈ t.recv → id ∈ s.recv ∧ ¬(id.dir = .bi ∧ id.index < s.next id.dir)
  pooled : s.Pooled → t.Pooled

theorem rejected_zeroRttRejected (h : s.zeroRttRejected = some t) : Rejected s t := by
  obtain ⟨u, hu, h⟩ := bind_eq_some_iff.mp h
  obtain ⟨v, hv, rfl⟩ := exists_of_bind h
  obtain ⟨u', hu', rfl⟩ := exists_of_bind hu
  obtain ⟨v', hv', rfl⟩ := exists_of_bind hv
  have r₁ := removed_removeLocals hu'
  have r₂ := removed_removeLocals hv'
  have hside : u'.side = s.side := by rw [r₁.eq]
  have hnext : u'.next = s.next := by rw [r₁.eq]
  have hnext' : v'.next = update u'.next .bi 0 := by rw [r₂.eq]
  have huni : update u'.next .bi 0 .uni = s.next .uni := by rw [update_of_ne (by decide), hnext]
  have hzero : update v'.next .uni 0 = fun _ => 0 := by
    funext dir
    rw [hnext']
    cases dir <;> simp [update]
  dsimp only at r₂
  rw [huni, hside] at r₂
  have hfree : v'.freeRecv = s.freeRecv := by rw [r₂.eq, r₁.eq]
  have hw : v'.streamReceiveWindow = s.streamReceiveWindow := by rw [r₂.eq, r₁.eq]
  have hlook : ∀ id : StreamId, v'.recv.lookup id =
      if id.initiator = s.side ∧ id.dir = .bi ∧ id.index < s.next .bi then none else s.recv.lookup id := fun id => by
    rw [show v'.recv.lookup id = u'.recv.lookup id from r₂.lookup_recv id fun hg => by cases hg.1]
    split
    · next hg => exact lookup_eq_none.mpr (r₁.recv id ⟨rfl, hg⟩)
    · next hg => exact r₁.lookup_recv id fun h => hg h.2
  refine ⟨?_, fun id h1 h2 hin => ?_, fun id hi => ?_, fun id hin => r₁.mem_send id (r₂.mem_send id hin), fun id => ?_,
    fun id hi => ?_, fun id hi hin => ?_, fun hp => ⟨?_, fun id r hl => ?_⟩⟩
  · rw [hzero, r₂.eq, r₁.eq]
  · cases hd : id.dir with
    | bi => exact r₁.send id ⟨h1, hd, by rwa [hd] at h2⟩ (r₂.mem_send id hin)
    | uni => exact r₂.send id ⟨h1, hd, by rwa [hd] at h2⟩ hin
  · exact (r₂.sendAt id fun hg => hi hg.1).trans (r₁.sendAt id fun hg => hi hg.1)
  · rw [StreamsState.recvAt, hlook]
    split
    · next hg => exact .inr ⟨hg.1, rfl⟩
    · exact .inl rfl
  · rw [← lookup_isSome, ← lookup_isSome, hlook, if_neg fun hg => hi hg.1]
  · have hin := lookup_isSome.mpr hin
    rw [hlook] at hin
    split at hin
    · cases hin
    · next hng => exact ⟨lookup_isSome.mp hin, fun hb => hng ⟨hi, hb.1, hb.1 ▸ hb.2⟩⟩
  · rw [hfree, hw]
    exact hp.free
  · rw [hlook] at hl
    split at hl
    · cases hl
    rw [hw]
    exact hp.entry id r hl

end StreamsState

def Send.rewind (self : Send) : Send :=
  if self.pending.isFullyAcked && !self.finPending then self
  else { self with pending := self.pending.retransmitAllFor0rtt }

namespace StreamsState

variable {s t : StreamsState} {id : StreamId}

/-- The client's streams of `range` start over; those that have something to send are queued. -/
structure Rewound (s t : StreamsState) (range : StreamId → Prop) : Prop where
  eq : t = { s with send := t.send, pending := t.pending }
  mem : ∀ id, id ∈ t.send ↔ id ∈ s.send
  rewound : ∀ id, range id → t.sendAt id = (s.sendAt id).map Send.rewind
  sendAt : ∀ id, ¬range id → t.sendAt id = s.sendAt id
  queued : ∀ id, s.pending.Queued id → t.pending.Queued id
  pushed : ∀ id stream, range id → s.sendAt id = some stream →
    ¬(stream.pending.isFullyAcked && !stream.finPending) = true → stream.isPending = true ∨ t.pending.Queued id

section
variable {u : StreamsState} {range : StreamId → Prop}

theorem Rewound.skipped (h : Rewound s u range) (hid : ¬range id)
    (hskip : ∀ stream, u.sendAt id = some stream → (stream.pending.isFullyAcked && !stream.finPending) = true) :
    Rewound s u fun i => i = id ∨ range i where
  __ := h
  rewound i hi := by
    rcases hi with rfl | hi
    · rw [← h.sendAt i hid]
      cases hat : u.sendAt i with
      | none => rfl
      | some stream => rw [map_some, Send.rewind, if_pos (hskip stream hat)]
    · exact h.rewound i hi
  sendAt i hi := h.sendAt i (not_or.mp hi).2
  pushed i stream hi hs hn := by
    rcases hi with rfl | hi
    · exact absurd (hskip stream ((h.sendAt i hid).trans hs)) hn
    · exact h.pushed i stream hi hs hn

theorem Rewound.again (h : Rewound s u range) (hid : ¬range id) {stream : Send} (hs : u.sendAt id = some stream)
    (hskip : ¬(stream.pending.isFullyAcked && !stream.finPending) = true) {pending : PendingStreamsQueue}
    (hque : ∀ i, u.pending.Queued i → pending.Queued i) (hpushed : stream.isPending = true ∨ pending.Queued id) :
    Rewound s ({ u with pending }.setSend id { stream with pending := stream.pending.retransmitAllFor0rtt })
      fun i => i = id ∨ range i where
  eq := by rw [h.eq]; rfl
  mem i := by
    rw [mem_setSend, ← h.mem]
    exact or_iff_right_of_imp fun hi => hi ▸ mem_of_sendAt hs
  rewound i hi := by
    by_cases heq : i = id
    · rw [heq, sendAt_setSend_self, ← h.sendAt id hid, hs, map_some, Send.rewind, if_neg hskip]
    rw [sendAt_setSend_ne _ heq, ← h.rewound i (hi.resolve_left heq)]
    rfl
  sendAt i hi := by
    obtain ⟨hne, hi⟩ := not_or.mp hi
    rw [sendAt_setSend_ne _ hne, ← h.sendAt i hi]
    rfl
  queued i hq := hque i (h.queued i hq)
  pushed i st hi hst hn := by
    rcases hi with rfl | hi
    · obtain rfl := some.inj (hs.symm.trans ((h.sendAt i hid).trans hst))
      exact hpushed
    · exact (h.pushed i st hi hst hn).imp_right (hque i)

end

theorem rewound_dir (dir : Dir) (s : StreamsState) : ∀ count,
    Rewound s (s.retransmitAllFor0rttDir dir count) fun id => id.initiator = .client ∧ id.dir = dir ∧ id.index < count
  | 0 => ⟨rfl, fun _ => Iff.rfl, fun id hid => absurd hid.2.2 (Nat.not_lt_zero _), fun _ _ => rfl, fun _ h => h,
      fun id _ hid => absurd hid.2.2 (Nat.not_lt_zero _)⟩
  | count + 1 => by
    have ih := rewound_dir dir s count
    have hnot : ¬(Side.client = .client ∧ dir = dir ∧ count < count) := fun h => lt_irrefl _ h.2.2
    simp only [lt_succ_iff]
    unfold retransmitAllFor0rttDir
    dsimp only
    split
    · next hnone => exact ih.skipped hnot fun stream hs => by cases hnone.symm.trans hs
    next stream hs =>
    split
    · next hskip => exact ih.skipped hnot fun stream' hs' => some.inj (hs.symm.trans hs') ▸ hskip
    next hskip =>
    split
    · next hp => exact ih.again hnot hs hskip (fun _ => id) (.inl hp)
    exact ih.again hnot hs hskip (fun i hq => (PendingStreamsQueue.queued_pushPending _).mpr (.inr hq))
      (.inr ((PendingStreamsQueue.queued_pushPending _).mpr (.inl rfl)))

theorem rewound_retransmitAllFor0rtt (s : StreamsState) :
    Rewound s s.retransmitAllFor0rtt fun id => id.initiator = .client ∧ id.index < s.next id.dir := by
  have r₁ := rewound_dir .bi s (s.next .bi)
  have hnext : (s.retransmitAllFor0rttDir .bi (s.next .bi)).next = s.next := by rw [r₁.eq]
  have r₂ := rewound_dir .uni (s.retransmitAllFor0rttDir .bi (s.next .bi))
    ((s.retransmitAllFor0rttDir .bi (s.next .bi)).next .uni)
  unfold retransmitAllFor0rtt
  dsimp only
  rw [hnext] at r₂ ⊢
  generalize s.retransmitAllFor0rttDir .bi (s.next .bi) = u at r₁ r₂ ⊢
  have huni : ∀ {id : StreamId}, id.dir = .uni → ¬(id.initiator = .client ∧ id.dir = .bi ∧ id.index < s.next .bi) :=
    fun hd h => Dir.noConfusion (hd.symm.trans h.2.1)
  have hbi : ∀ {id : StreamId}, id.dir = .bi → ¬(id.initiator = .client ∧ id.dir = .uni ∧ id.index < s.next .uni) :=
    fun hd h => Dir.noConfusion (hd.symm.trans h.2.1)
  refine ⟨by rw [r₂.eq, r₁.eq], fun id => (r₂.mem id).trans (r₁.mem id), fun id hid => ?_, fun id hid => ?_,
    fun id hq => r₂.queued id (r₁.queued id hq), fun id stream hid hs hn => ?_⟩
  · cases hd : id.dir with
    | bi => exact (r₂.sendAt id (hbi hd)).trans (r₁.rewound id ⟨hid.1, hd, hd ▸ hid.2⟩)
    | uni => rw [r₂.rewound id ⟨hid.1, hd, hd ▸ hid.2⟩, r₁.sendAt id (huni hd)]
  · exact (r₂.sendAt id fun h => hid ⟨h.1, by rw [h.2.1]; exact h.2.2⟩).trans
      (r₁.sendAt id fun h => hid ⟨h.1, by rw [h.2.1]; exact h.2.2⟩)
  · cases hd : id.dir with
    | bi => exact (r₁.pushed id stream ⟨hid.1, hd, hd ▸ hid.2⟩ hs hn).imp_right (r₂.queued id)
    | uni => exact r₂.pushed id stream ⟨hid.1, hd, hd ▸ hid.2⟩ ((r₁.sendAt id (huni hd)).trans hs) hn

end StreamsState

open StreamsState

inductive Turned : Event → Sending → Sending → Prop
  | early {s : StreamsState} {ms : List StreamMeta} (params : TransportParameters) :
      Turned (.init0rtt params) ⟨s, ms⟩ ⟨s.noteParams params, ms⟩
  | done {s : StreamsState} {ms : List StreamMeta} (params : TransportParameters) :
      Turned (.established params) ⟨s, ms⟩ ⟨s.noteParams params, ms⟩
  | rejected {s t : StreamsState} {ms : List StreamMeta} (params : TransportParameters) : Rejected s t →
      (∀ id, t.sendAt id = none) → Turned (.zeroRttRejected params) ⟨s, ms⟩ ⟨t.noteParams params, []⟩
  | rewound {s t : StreamsState} {ms : List StreamMeta} : Rewound s t (fun id => id ∈ s.send ∧ id.initiator = s.side) →
      Turned .retry ⟨s, ms⟩ ⟨t, []⟩

section
variable {phase phase' : Phase} {s t : StreamsState} {ms : List StreamMeta}

theorem SendInv.rejected (h : SendInv phase ⟨s, ms⟩) (hp : phase ≠ .ready) (hr : Rejected s t) :
    (∀ id, t.sendAt id = none) ∧ ∀ id ∈ t.send, id.initiator ≠ s.side ∧ id.index < s.maxRemote id.dir := by
  have hpeer : ∀ id ∈ t.send, id.initiator ≠ s.side ∧ id.index < s.maxRemote id.dir := fun id hid => by
    have hkn : id.index < if id.initiator = s.side then s.next id.dir else s.maxRemote id.dir :=
      h.known id (hr.mem_send id hid)
    split at hkn
    · next hi =>
      exact absurd hid (hr.send id hi hkn)
    next hi =>
    exact ⟨hi, hkn⟩
  refine ⟨fun id => ?_, hpeer⟩
  cases hat : t.sendAt id with
  | none => rfl
  | some stream =>
    have hi := (hpeer id (mem_of_sendAt hat)).1
    exact absurd (h.localOnly hp id stream ((hr.sendAt id hi).symm.trans hat)) hi

theorem SendInv.rewound_at (h : SendInv phase ⟨s, ms⟩) (hp : phase ≠ .ready)
    (hr : Rewound s t fun id => id ∈ s.send ∧ id.initiator = s.side) {id : StreamId} {stream : Send}
    (hs : t.sendAt id = some stream) :
    ∃ before, s.sendAt id = some before ∧ stream = before.rewind ∧ id ∈ s.send ∧ id.initiator = s.side := by
  by_cases hid : id ∈ s.send ∧ id.initiator = s.side
  · rw [hr.rewound id hid] at hs
    obtain ⟨before, hb, rfl⟩ := map_eq_some_iff.mp hs
    exact ⟨before, hb, rfl, hid⟩
  rw [hr.sendAt id hid] at hs
  exact absurd ⟨mem_of_sendAt hs, h.localOnly hp id stream hs⟩ hid

theorem SendInv.turned {e : Event} {x y : Sending} (h : SendInv phase x) (hp : phase ≠ .ready) (ht : Turned e x y) :
    SendInv phase' y := by
  cases ht with
  | early params | done params => exact ⟨h.known, fun _ => h.localOnly hp, h.used, h.reliable, fun _ => h.pristine hp⟩
  | @rejected s t ms params hr hnone =>
    have hat : ∀ id stream, (t.noteParams params).sendAt id ≠ some stream := fun id stream hs => by
      rw [show (t.noteParams params).sendAt id = t.sendAt id from rfl, hnone id] at hs
      cases hs
    refine ⟨fun id hid => ?_, fun _ id stream hs => absurd hs (hat id stream), fun m hm => (by cases hm),
      fun id stream hs => absurd hs (hat id stream), fun _ id stream hs => absurd hs (hat id stream)⟩
    obtain ⟨hi, hlt⟩ := (h.rejected hp hr).2 id hid
    have hside : t.side = s.side := by rw [hr.eq]
    have hmax : t.maxRemote = s.maxRemote := by rw [hr.eq]
    show id.index < if id.initiator = t.side then t.next id.dir else t.maxRemote id.dir
    rw [hside, if_neg hi, hmax]
    exact hlt
  | @rewound s t ms hr =>
    have hside : t.side = s.side := by rw [hr.eq]
    have hnext : t.next = s.next := by rw [hr.eq]
    have hmax : t.maxRemote = s.maxRemote := by rw [hr.eq]
    have hat := fun id stream => @SendInv.rewound_at _ s t ms h hp hr id stream
    refine ⟨fun id hid => (h.known id ((hr.mem id).mp hid)).mono hside (fun dir => by rw [hnext]) (fun dir => by rw [hmax]),
      fun _ id stream hs => ?_, fun m hm => (by cases hm), fun id stream hs hres => ?_, fun _ id stream hs => ?_⟩
    · obtain ⟨-, -, -, -, hi⟩ := hat id stream hs
      exact hi.trans hside.symm
    · obtain ⟨before, hb, rfl, -⟩ := hat id stream hs
      have hpri := h.pristine hp id before hb
      obtain ⟨w, hw⟩ := h.reliable id before hb (isReset_eq_false_of_state (by unfold Send.rewind; split <;> rfl) hres)
      refine ⟨w, ?_⟩
      unfold Send.rewind
      split
      · next hskip =>
        refine hpri.rewind hw ?_ rfl
        -- Nothing was written, so nothing was sent.
        have hzero : before.pending.unackedLen = 0 := by
          rw [Bool.and_eq_true] at hskip
          exact of_decide_eq_true hskip.1
        have := hpri.unackedLen
        have := hw.unsent
        omega
      · exact hpri.rewind hw rfl rfl
    · obtain ⟨before, hb, rfl, -⟩ := hat id stream hs
      have hpri := h.pristine hp id before hb
      unfold Send.rewind
      split
      · exact hpri
      · exact { hpri with }

theorem sendInv_fresh (h : s.Fresh) : SendInv phase ⟨s, []⟩ := by
  have hat : ∀ id stream, s.sendAt id ≠ some stream := fun id stream hs => by
    rw [h.sendAt id] at hs
    cases hs
  refine ⟨fun id hid => ?_, fun _ id stream hs => absurd hs (hat id stream), fun m hm => (by cases hm),
    fun id stream hs => absurd hs (hat id stream), fun _ id stream hs => absurd hs (hat id stream)⟩
  obtain ⟨hi, hlt, -⟩ := (h.mem_send id).mp hid
  show id.index < if id.initiator = s.side then s.next id.dir else s.maxRemote id.dir
  rw [hi, if_neg (Side.peer_ne _)]
  exact hlt

end

namespace Connection
variable {allow : Connection → Event → Prop} {c d : Connection} {e : Event}

theorem turned_step (hinv : SendInv c.phase c.sending) (he : c.Enabled e) (hh : Handshake e) (h : c.step e = some d) :
    c.phase ≠ .ready ∧ Turned e c.sending d.sending := by
  cases e with
  | init0rtt params =>
    have hp : c.phase ≠ .ready := fun hr => Phase.noConfusion (he.1.symm.trans hr)
    cases h
    refine ⟨hp, ?_⟩
    rw [setParams_of_local (s := c.streams) (hinv.localOnly hp)]
    exact .early params
  | established params =>
    cases h
    refine ⟨he, ?_⟩
    rw [setParams_of_local (s := c.streams) (hinv.localOnly he)]
    exact .done params
  | zeroRttRejected params =>
    have hp : c.phase ≠ .ready := fun hr => Phase.noConfusion (Eq.trans (Eq.symm he) hr)
    obtain ⟨t, ht, rfl⟩ := exists_of_bind h
    have hr := rejected_zeroRttRejected ht
    have hnone := (@SendInv.rejected _ _ _ c.inflight hinv hp hr).1
    refine ⟨hp, ?_⟩
    rw [setParams_of_local fun id stream hs => by rw [hnone id] at hs; cases hs]
    exact .rejected params hr hnone
  | retry =>
    cases h
    refine ⟨he.1, ?_⟩
    show Turned _ ⟨c.streams, c.inflight⟩ ⟨c.streams.retransmitAllFor0rtt, []⟩
    have hr := rewound_retransmitAllFor0rtt c.streams
    have hkn : ∀ id : StreamId, id ∈ c.streams.send → id.initiator = c.streams.side → id.index < c.streams.next id.dir :=
      fun id hid hi => by
        have hlt : id.index < if id.initiator = c.streams.side then c.streams.next id.dir else c.streams.maxRemote id.dir :=
          hinv.known id hid
        rwa [if_pos hi] at hlt
    have hiff : ∀ id : StreamId, id ∈ c.streams.send → (id ∈ c.streams.send ∧ id.initiator = c.streams.side ↔
        id.initiator = .client ∧ id.index < c.streams.next id.dir) := fun id hid =>
      ⟨fun h => ⟨h.2.trans he.2, hkn id hid h.2⟩, fun h => ⟨hid, h.1.trans he.2.symm⟩⟩
    exact .rewound ⟨hr.eq, hr.mem, fun id hid => hr.rewound id ((hiff id hid.1).mp hid), fun id hid => by
      by_cases hmem : id ∈ c.streams.send
      · exact hr.sendAt id fun h => hid ((hiff id hmem).mpr h)
      · rw [sendAt_of_notMem hmem, sendAt_of_notMem fun h => hmem ((hr.mem id).mp h)], hr.queued,
      fun id stream hid => hr.pushed id stream ((hiff id hid.1).mp hid)⟩
  | _ => exact hh.elim

theorem Reached.sendInv_and {P : Sending → Prop} (hsta : ∀ s : StreamsState, s.Fresh → P ⟨s, []⟩)
    (hmove : ∀ {phase acks x y}, SendInv phase x → P x → Move phase acks x y → P y)
    (hturned : ∀ {c e y}, allow c e → c.phase ≠ .ready → SendInv c.phase c.sending → P c.sending →
      Turned e c.sending y → P y) (h : Reached allow c) : SendInv c.phase c.sending ∧ P c.sending := by
  induction h with
  | start hc =>
    obtain ⟨hf, hp, -⟩ := hc.spec
    rw [sending, inflight, hp]
    exact ⟨sendInv_fresh hf, hsta _ hf⟩
  | @next c d e hc he hd ih =>
    obtain ⟨hinv, hP⟩ := ih
    by_cases hh : Handshake e
    · obtain ⟨hp, ht⟩ := turned_step hinv he.1 hh hd
      exact ⟨hinv.turned hp ht, hturned he.2 hp hinv hP ht⟩
    obtain ⟨hph, hm⟩ := moves_step (Reached.base hc).1 he.1 hh hd
    rw [hph]
    clear hd hph
    generalize d.sending = y at hm
    induction hm with
    | refl => exact ⟨hinv, hP⟩
    | tail _ hm ih => exact ⟨ih.1.move hm, hmove ih.1 ih.2 hm⟩

theorem Reached.sendInv (h : Reached allow c) : SendInv c.phase c.sending :=
  (h.sendInv_and (P := fun _ => True) (fun _ _ => trivial) (fun _ _ _ => trivial) fun _ _ _ _ _ => trivial).1

end Connection

/-! What is still to be delivered of a stream is queued or in flight: its bytes, and the mark of its end.
    Only a Retry can lose the latter, when it is all that a stream has to say. -/

open StreamsState PendingStreamsQueue Send

structure Tracked (x : Sending) : Prop where
  queued : ∀ id stream, x.streams.sendAt id = some stream → stream.isReset = false → stream.isPending = true →
    x.streams.pending.Queued id
  fin : ∀ id stream, x.streams.sendAt id = some stream → stream.state = .dataSent false →
    stream.finPending = true ∨ stream.pending.unsent < stream.pending.offset ∨ ∃ m ∈ x.inflight, m.id = id ∧ m.fin = true

/-- The stream was finished without data, and its FIN is on the way. -/
def Send.finOnly (self : Send) : Bool :=
  self.state == .dataSent false && self.pending.isFullyAcked && !self.finPending

section
variable {phase : Phase} {acks : Prop} {s t : StreamsState} {ms ms' : List StreamMeta} {id : StreamId}

variable {stream : Send}

theorem queued_enqueue {id' : StreamId} (h : s.pending.Queued id') : (s.enqueue id stream).Queued id' := by
  unfold enqueue
  split
  · exact h
  · exact (queued_pushPending _).mpr (.inr h)

theorem queued_enqueue_self (h : stream.isPending = true → s.pending.Queued id) : (s.enqueue id stream).Queued id := by
  unfold enqueue
  split
  · next hp => exact h hp
  · exact (queued_pushPending _).mpr (.inl rfl)

theorem isPending_of_unsent (h : stream.pending.unsent < stream.pending.offset) : stream.isPending = true := by
  unfold isPending SendBuffer.hasUnsentData
  rw [bne_iff_ne.mpr (ne_of_lt h)]
  rfl

theorem isPending_of_lost {o : Nat} (h : stream.pending.retransmits.Mem o) : stream.isPending = true := by
  obtain ⟨r, hr, -⟩ := h
  have hne : stream.pending.retransmits.isEmpty = false := isEmpty_eq_false_iff_exists_mem.mpr ⟨r, hr⟩
  unfold isPending SendBuffer.hasUnsentData
  rw [hne, Bool.not_false, Bool.or_true]
  rfl

theorem isPending_of_fin (h : stream.finPending = true) : stream.isPending = true := by
  unfold isPending
  rw [h, Bool.or_true]

section
variable (h : Tracked ⟨s, ms⟩)
include h

theorem Tracked.found {entry : Option Send} (hl : s.send.lookup id = some entry) (maxData : Nat)
    (hr : (getOrInsertSend maxData entry).isReset = false) :
    (getOrInsertSend maxData entry).isPending = true → s.pending.Queued id := by
  cases entry with
  | none => exact nofun
  | some stream => exact h.queued id stream (sendAt_of_lookup hl) hr

theorem Tracked.store (hsend : t.send = (s.setSend id stream).send)
    (hqueue : ∀ id', id' ≠ id → s.pending.Queued id' → t.pending.Queued id') (hms : ∀ m ∈ ms, m.id ≠ id → m ∈ ms')
    (hque : stream.isReset = false → stream.isPending = true → t.pending.Queued id)
    (hfin : stream.state = .dataSent false →
      stream.finPending = true ∨ stream.pending.unsent < stream.pending.offset ∨ ∃ m ∈ ms', m.id = id ∧ m.fin = true) :
    Tracked ⟨t, ms'⟩ := by
  have hself : ∀ st, t.sendAt id = some st → st = stream := fun st hs => by
    rw [StreamsState.sendAt, hsend] at hs
    exact some.inj (hs.symm.trans (sendAt_setSend_self (s := s) stream))
  have hne : ∀ id', id' ≠ id → t.sendAt id' = s.sendAt id' := fun id' hid' => by
    rw [StreamsState.sendAt, hsend]
    exact sendAt_setSend_ne stream hid'
  refine ⟨fun id' st hs hr hp => ?_, fun id' st hs hst => ?_⟩
  · by_cases hid : id' = id
    · subst hid
      obtain rfl := hself st hs
      exact hque hr hp
    · exact hqueue id' hid (h.queued id' st ((hne id' hid).symm.trans hs) hr hp)
  · by_cases hid : id' = id
    · subst hid
      obtain rfl := hself st hs
      exact hfin hst
    refine (h.fin id' st ((hne id' hid).symm.trans hs) hst).imp_right (Or.imp_right ?_)
    rintro ⟨m, hm, rfl, hmfin⟩
    exact ⟨m, hms m hm hid, rfl, hmfin⟩

theorem Tracked.kept {U : StreamId → Prop} (hk : SendKept U s t) : Tracked ⟨t, ms⟩ := by
  have hpending : t.pending = s.pending := by rw [hk.outgoing]
  refine ⟨fun id st hs hr hp => ?_, fun id st hs hst => ?_⟩
  all_goals
    have htch := hk.sendAt id
    rw [hs] at htch
    generalize hat : s.sendAt id = before at htch
  · rw [hpending]
    cases htch with
    | created ha =>
      unfold isPending at hp
      rw [ha.pending, ha.finPending] at hp
      cases hp
    | some ha =>
      refine h.queued id _ hat (isReset_eq_false_of_state ha.state.symm hr) ?_
      unfold isPending at hp ⊢
      rwa [ha.pending, ha.finPending] at hp
  · cases htch with
    | created ha =>
      rw [ha.state] at hst
      cases hst
    | some ha =>
      rw [ha.pending, ha.finPending]
      exact h.fin id _ hat (ha.state.symm.trans hst)

theorem Tracked.perm (hp : ∀ m ∈ ms, m.fin = true → m ∈ ms' ∨
    ∀ stream, s.sendAt m.id = some stream → stream.isReset = true) : Tracked ⟨s, ms'⟩ := by
  refine ⟨h.queued, fun id st hs hst => (h.fin id st hs hst).imp_right (Or.imp_right ?_)⟩
  rintro ⟨m, hm, rfl, hmfin⟩
  refine ⟨m, (hp m hm hmfin).resolve_right fun hrst => ?_, rfl, hmfin⟩
  have hr := hrst st hs
  unfold isReset at hr
  rw [hst] at hr
  cases hr

end

theorem fin_sent {stream' : Send} {maxLen : Nat} {m : StreamMeta} {encodeLength : Bool} {written : Bytes}
    {inflight : List (Nat × Nat)} (hrel : SendBuffer.Reliable stream'.pending written inflight)
    (hnext : stream.nextFrame id maxLen = some (stream', m, encodeLength)) (hst : stream.state = .dataSent false)
    (h : stream.finPending = true ∨ stream.pending.unsent < stream.pending.offset) :
    stream'.finPending = true ∨ stream'.pending.unsent < stream'.pending.offset ∨ m.fin = true := by
  obtain ⟨pending, hp, rfl, -, hfin⟩ := nextFrame_spec hnext
  obtain ⟨hoff, huns⟩ := SendBuffer.pollTransmit_unsent hp
  have hle := hrel.unsent
  dsimp only at *
  rw [hst] at hfin
  cases hm : m.fin with
  | true => exact .inr (.inr rfl)
  | false =>
    rcases h with h | h
    · exact .inl (by rw [h]; rfl)
    refine .inr (.inl ?_)
    have hne : m.offsets.2 ≠ pending.offset := fun heq => by
      rw [hm, heq] at hfin
      simp [SendState.isDataSent] at hfin
    rcases huns with hu | hu <;> omega

theorem Tracked.move {x y : Sending} (hinv : SendInv phase x) (h : Tracked x) (hm : Move phase acks x y) : Tracked y := by
  cases hm with
  | kept hk hU => exact h.kept hk
  | perm hp => exact h.perm fun m hm _ => .inl (hp.mem_iff.mp hm)
  | raised n => exact ⟨h.queued, h.fin⟩
  | @wrote s ms id entry limit chunks _ hl hid hlim hst hle hmax =>
    have hr : (getOrInsertSend (s.maxSendData id) entry).isReset = false := by simp [isReset, hst]
    refine h.store rfl (fun _ _ => queued_enqueue) (fun _ hm _ => hm)
      (fun _ _ => queued_enqueue_self (h.found hl (s.maxSendData id) hr)) fun hs => ?_
    exact SendState.noConfusion (hst.symm.trans hs)
  | @finished s ms id entry hl hid hst =>
    have hr : (getOrInsertSend (s.maxSendData id) entry).isReset = false := by simp [isReset, hst]
    exact h.store rfl (fun _ _ => queued_enqueue) (fun _ hm _ => hm)
      (fun _ _ => queued_enqueue_self (h.found hl (s.maxSendData id) hr)) fun _ => .inl rfl
  | reset hl hid hr hn hrest =>
    exact h.store rfl (fun _ _ h => h) (fun _ hm _ => hm) (by rintro ⟨⟩) (by rintro ⟨⟩)
  | ignored hrdy hrst =>
    refine h.perm fun m hm _ => ?_
    rcases mem_cons.mp hm with rfl | hm
    · exact .inr hrst
    · exact .inl hm
  | @acked s ms m stream stream' done rest hrdy hat hr hrest hack =>
    obtain ⟨w, hw⟩ := hinv.reliable m.id stream hat hr
    obtain ⟨t, ht, -, hoff, huns, hretx, -⟩ := hw.ack (.of_eq (rangesOf_cons_self m ms))
    obtain ⟨pending, state, hp, rfl, hst⟩ := ack_spec hack
    obtain rfl := some.inj (hp.symm.trans ht)
    refine h.store rfl (fun _ _ h => h) (fun m' hm hne => ?_) (fun _ hpend => ?_) fun hs => ?_
    · exact (mem_cons.mp hm).resolve_left fun heq => hne (by rw [heq])
    · refine h.queued m.id stream hat hr ?_
      unfold isPending SendBuffer.hasUnsentData at hpend ⊢
      rwa [hoff, huns, hretx] at hpend
    · -- The FIN is not the one that was acknowledged.
      obtain ⟨a, ha, hs'⟩ : ∃ a, stream.state = .dataSent a ∧ SendState.dataSent (a || m.fin) = .dataSent false := by
        rcases hst with ⟨a, ha, hs'⟩ | ⟨hne, hs'⟩
        · exact ⟨a, ha, hs'.symm.trans hs⟩
        · exact absurd (hs'.symm.trans hs) (hne false)
      obtain ⟨rfl, hmfin⟩ := Bool.or_eq_false_iff.mp (SendState.dataSent.inj hs')
      rw [hoff, huns]
      refine (h.fin m.id stream hat ha).imp_right (Or.imp_right ?_)
      rintro ⟨m', hm', hid, hfin'⟩
      refine ⟨m', (mem_cons.mp hm').resolve_left fun heq => ?_, hid, hfin'⟩
      rw [heq, hmfin] at hfin'
      cases hfin'
  | @freed s t ms id stream hrdy hacks hat hdone hfree =>
    suffices he : Tracked ⟨s.eraseSend id, ms⟩ from he.kept (U := fun _ => False) (grown_streamFreed hfree).sendKept
    exact ⟨fun id' st hs => h.queued id' st (sendAt_of_eraseSend hs), fun id' st hs => h.fin id' st (sendAt_of_eraseSend hs)⟩
  | @lost s ms m stream hrdy hat =>
    refine h.store rfl (fun _ _ => queued_enqueue) (fun m' hm hne => ?_)
      (fun hr _ => queued_enqueue_self (h.queued m.id stream hat hr)) fun hs => ?_
    · exact (mem_cons.mp hm).resolve_left fun heq => hne (by rw [heq])
    · rcases h.fin m.id stream hat hs with hf | hu | ⟨m', hm', hid, hfin'⟩
      · exact .inl (by rw [hf]; rfl)
      · exact .inr (.inl hu)
      rcases mem_cons.mp hm' with rfl | hm'
      · exact .inl (by rw [hfin', Bool.or_true])
      · exact .inr (.inr ⟨m', hm', hid, hfin'⟩)
  | @skipped s ms next queue hpop hrst =>
    refine ⟨fun id st hs hr hp => ?_, h.fin⟩
    refine ((queued_pop hpop).2 (h.queued id st hs hr hp)).resolve_left fun heq => ?_
    subst heq
    rw [hrst st hs] at hr
    cases hr
  | @sent s ms next queue stream stream' maxLen m encodeLength fair hpop hat hr hroom hnext =>
    have hpop' := fun id => @queued_pop _ _ id _ hpop
    have hrequeue : ∀ id, queue.Queued id ∨ id = next.id ∧ stream'.isPending = true →
        (({ s with pending := queue } : StreamsState).requeue fair next.id stream').Queued id := fun id hq => by
      unfold requeue
      split
      · have hq' := hq.symm.imp_left And.left
        split
        · exact (queued_pushPending _).mpr hq'
        · exact (queued_reinsertPending (hpop' id).1 _).mpr hq'
      · next hp => exact hq.resolve_right fun h => hp h.2
    obtain ⟨pending, hp, hstream, hid, -⟩ := nextFrame_spec hnext
    obtain ⟨w, hw⟩ := hinv.reliable next.id stream hat hr
    obtain ⟨t, r, e, ht, hrel, -⟩ := hw.pollTransmit hroom
    obtain ⟨rfl, -⟩ := Prod.mk.inj (some.inj (hp.symm.trans ht))
    refine h.store rfl (fun id' hne hq => hrequeue id' (.inl (((hpop' id').2 hq).resolve_left hne)))
      (fun m' hm _ => mem_cons_of_mem m hm) (fun _ hpend => hrequeue next.id (.inr ⟨rfl, hpend⟩)) fun hs => ?_
    have hst : stream.state = .dataSent false := by
      rw [hstream] at hs
      exact hs
    rcases or_assoc.mpr (h.fin next.id stream hat hst) with hf | ⟨m', hm', hid', hfin'⟩
    · have hrel' : SendBuffer.Reliable stream'.pending w (r :: rangesOf next.id ms) := by
        rw [hstream]
        exact hrel
      exact (fin_sent hrel' hnext hst hf).imp_right (Or.imp_right fun hm => ⟨m, mem_cons_self, hid, hm⟩)
    · exact .inr (.inr ⟨m', mem_cons_of_mem m hm', hid', hfin'⟩)

theorem Tracked.rewound (hinv : SendInv phase ⟨s, ms⟩) (hp : phase ≠ .ready) (h : Tracked ⟨s, ms⟩)
    (hr : Rewound s t fun id => id ∈ s.send ∧ id.initiator = s.side)
    (hfin : ∀ id stream, s.sendAt id = some stream → stream.finOnly = false) : Tracked ⟨t, []⟩ := by
  have hat : ∀ id stream, t.sendAt id = some stream → ∃ before, s.sendAt id = some before ∧ stream = before.rewind ∧
      (before.isPending = true ∨ (before.pending.isFullyAcked && !before.finPending) = true ∨ t.pending.Queued id) :=
    fun id stream hs => by
      obtain ⟨before, hb, rfl, hid⟩ := hinv.rewound_at hp hr hs
      refine ⟨before, hb, rfl, ?_⟩
      by_cases hskip : (before.pending.isFullyAcked && !before.finPending) = true
      · exact .inr (.inl hskip)
      · exact (hr.pushed id before hid hb hskip).imp_right .inr
  refine ⟨fun id st hs hres hpend => ?_, fun id st hs hst => ?_⟩
  · obtain ⟨before, hb, rfl, hq⟩ := hat id st hs
    have hres' : before.isReset = false := isReset_eq_false_of_state (by unfold rewind; split <;> rfl) hres
    rcases hq with hq | hskip | hq
    · exact hr.queued id (h.queued id before hb hres' hq)
    · refine hr.queued id (h.queued id before hb hres' ?_)
      unfold rewind at hpend
      rwa [if_pos hskip] at hpend
    · exact hq
  · obtain ⟨before, hb, rfl, -⟩ := hat id st hs
    have hst' : before.state = .dataSent false := by
      unfold rewind at hst
      split at hst <;> exact hst
    have hlen := (hinv.pristine hp id before hb).unackedLen
    have honly := hfin id before hb
    unfold finOnly at honly
    rw [hst'] at honly
    unfold rewind
    split
    · next hskip =>
      rw [Bool.and_assoc, hskip] at honly
      cases honly
    next hskip =>
    cases hf : before.finPending with
    | true => exact .inl rfl
    | false =>
      refine .inr (.inl ?_)
      rw [hf, Bool.not_false, Bool.and_true] at hskip
      have hpos : before.pending.unackedLen ≠ 0 := fun h0 => hskip (beq_iff_eq.mpr h0)
      show 0 < before.pending.offset
      omega

end

namespace Connection

def NoFinOnly (c : Connection) : Event → Prop
  | .retry => ∀ id stream, c.streams.sendAt id = some stream → stream.finOnly = false
  | _ => True

instance (c : Connection) : DecidablePred c.NoFinOnly
  | .retry => decidable_of_iff (∀ e ∈ c.streams.send.entries, ∀ stream ∈ e.2, stream.finOnly = false) <| by
    refine ⟨fun h id stream hs => ?_, fun h e he stream hs => h e.1 stream ?_⟩
    · obtain ⟨entry, hl, rfl⟩ := bind_eq_some_iff.mp hs
      exact h _ (AList.mem_lookup_iff.mp hl) stream rfl
    · rw [sendAt_of_lookup (AList.mem_lookup_iff.mpr he)]
      exact hs
  | .openStream _ | .accept _ | .send _ _ | .recv _ _ | .poll | .setMaxConcurrent _ _ | .setReceiveWindow _ | .frame _
  | .packetEnd | .transmit _ _ _ _ | .ack _ | .lost _ | .probe _ | .init0rtt _ | .established _ | .zeroRttRejected _ =>
    inferInstanceAs (Decidable True)

variable {c : Connection} {id : StreamId}

theorem Reached.tracked (h : Reached NoFinOnly c) : SendInv c.phase c.sending ∧ Tracked c.sending := by
  have hnone : ∀ {t : StreamsState}, (∀ id, t.sendAt id = none) → Tracked ⟨t, []⟩ := fun {t} hn => by
    have hat : ∀ id stream, t.sendAt id ≠ some stream := fun id stream hs => by
      rw [hn id] at hs
      cases hs
    exact ⟨fun id stream hs => absurd hs (hat id stream), fun id stream hs => absurd hs (hat id stream)⟩
  refine h.sendInv_and (fun s hs => hnone hs.sendAt) (fun hinv hx hm => hx.move hinv hm)
    fun {c e y} hallow hp hinv hx ht => ?_
  cases ht with
  | early params | done params => exact ⟨hx.queued, hx.fin⟩
  | rejected params hr hn => exact hnone hn
  | rewound hr => exact Tracked.rewound hinv hp hx hr hallow

/-- While no Retry arrives for a stream that waits for its FIN alone, every byte of a finished stream that
    is not acknowledged is queued or in flight, and so is its FIN. -/
theorem finished_streams_tracked (h : Reached NoFinOnly c) {stream : Send} (hs : c.streams.sendAt id = some stream)
    {finishAcked : Bool} (hstate : stream.state = .dataSent finishAcked) :
    (∀ o < stream.offset, ¬stream.pending.Acked o →
      c.streams.pending.Queued id ∧ (stream.pending.retransmits.Mem o ∨ stream.pending.unsent ≤ o) ∨
      ∃ m ∈ c.inflight, m.id = id ∧ InSpan m.offsets o) ∧
    (finishAcked = false →
      c.streams.pending.Queued id ∧ (stream.finPending = true ∨ stream.pending.unsent < stream.offset) ∨
      ∃ m ∈ c.inflight, m.id = id ∧ m.fin = true) := by
  obtain ⟨hinv, htracked⟩ := h.tracked
  have hr : stream.isReset = false := by simp [isReset, hstate]
  have hqueued := htracked.queued id stream hs hr
  refine ⟨fun o ho hna => ?_, fun hf => ?_⟩
  · obtain ⟨w, hw⟩ := hinv.reliable id stream hs hr
    by_cases hu : stream.pending.unsent ≤ o
    · exact .inl ⟨hqueued (isPending_of_unsent (hu.trans_lt ho)), .inr hu⟩
    have honce := hw.once o
    rw [mark_neg hna, mark_pos (not_le.mp hu)] at honce
    by_cases hm : stream.pending.retransmits.Mem o
    · exact .inl ⟨hqueued (isPending_of_lost hm), .inl hm⟩
    rw [mark_neg hm] at honce
    obtain ⟨r, hr, hin⟩ := cover_pos_iff.mp (show 0 < cover (rangesOf id c.sending.inflight) o by omega)
    obtain ⟨m, hm, hid, rfl⟩ := mem_rangesOf.mp hr
    exact .inr ⟨m, hm, hid, hin⟩
  · subst hf
    rcases htracked.fin id stream hs hstate with hf | hu | hm
    · exact .inl ⟨hqueued (isPending_of_fin hf), .inl hf⟩
    · exact .inl ⟨hqueued (isPending_of_unsent hu), .inr hu⟩
    · exact .inr hm

/-- Two 0-RTT streams are finished; the server asks to retry, and then one packet is lost. -/
theorem finished_streams_tracked_retried :
    let P : TransportParameters := ⟨100, 100, 100, 100, 10, 10⟩
    let a : StreamId := ⟨.client, .uni, 0⟩
    ∃ c stream, runNew NoFinOnly .client 1 1 50 1000 500
        [.init0rtt P, .openStream .uni, .openStream .uni, .send a (.write [1, 2, 3]), .send a .finish,
          .send ⟨.client, .uni, 1⟩ .finish, .transmit 0 0 30 true, .retry, .transmit 0 0 60 true, .established P, .lost 0] =
          some c ∧
      c.streams.sendAt a = some stream ∧ stream.state = .dataSent false ∧
      (∀ o < stream.offset, ¬stream.pending.Acked o →
        c.streams.pending.Queued a ∧ (stream.pending.retransmits.Mem o ∨ stream.pending.unsent ≤ o) ∨
        ∃ m ∈ c.inflight, m.id = a ∧ InSpan m.offsets o) ∧
      (c.streams.pending.Queued a ∧ (stream.finPending = true ∨ stream.pending.unsent < stream.offset) ∨
        ∃ m ∈ c.inflight, m.id = a ∧ m.fin = true) := by
  intro P a
  have hrun : ((runNew NoFinOnly .client 1 1 50 1000 500
      [.init0rtt P, .openStream .uni, .openStream .uni, .send a (.write [1, 2, 3]), .send a .finish,
        .send ⟨.client, .uni, 1⟩ .finish, .transmit 0 0 30 true, .retry, .transmit 0 0 60 true, .established P, .lost 0]).bind
      fun c => (c.streams.sendAt a).map fun stream => stream.state) = some (.dataSent false) := by decide +kernel
  obtain ⟨c, hc, hstate⟩ := bind_eq_some_iff.mp hrun
  obtain ⟨stream, hs, hstate⟩ := map_eq_some_iff.mp hstate
  obtain ⟨h1, h2⟩ := finished_streams_tracked (reached_runNew hc) hs hstate
  exact ⟨c, stream, hc, hs, hstate, h1, h2 rfl⟩

/-- An empty stream was finished and its FIN sent. A Retry discards the packet, and sends nothing again. -/
theorem retry_drops_fin :
    let P : TransportParameters := ⟨100, 100, 100, 100, 10, 10⟩
    let a : StreamId := ⟨.client, .uni, 0⟩
    (runNew (fun _ _ => True) .client 1 1 50 1000 500
      [.init0rtt P, .openStream .uni, .send a .finish, .transmit 0 0 60 true, .retry]).map
      (fun c => ((c.streams.sendAt a).map fun stream => (stream.state, stream.finPending), c.streams.pending.iter.length,
        c.inflight)) = some (some (.dataSent false, false), 0, []) := by
  decide +kernel

end Connection
end SaorsaTransport
