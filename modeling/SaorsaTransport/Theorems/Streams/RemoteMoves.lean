import SaorsaTransport.Theorems.Streams.SendMoves

/-! What an event can do to the streams of the peer, broken into the smallest moves. -/

namespace SaorsaTransport
open Library StreamsState Option AList

/-- No stream of the peer comes, goes or is reported; one that is stopped or finished was so before, or was
    accepted. -/
structure RemoteKept (s t : StreamsState) : Prop where
  side : t.side = s.side
  remote : t.toRemote = { s.toRemote with sentMaxRemote := t.sentMaxRemote, opened := t.opened }
  pooled : s.Pooled → t.Pooled
  mem_send : ∀ id : StreamId, id.initiator ≠ s.side → (id ∈ t.send ↔ id ∈ s.send)
  mem_recv : ∀ id : StreamId, id.initiator ≠ s.side → (id ∈ t.recv ↔ id ∈ s.recv)
  stopped : ∀ (id : StreamId) rs, id.initiator ≠ s.side → t.recvAt id = some rs → rs.stopped = true →
    (∃ rs', s.recvAt id = some rs' ∧ rs'.stopped = true) ∨ id.index < s.nextReportedRemote id.dir
  finished : ∀ (id : StreamId) stream, id.initiator ≠ s.side → t.sendAt id = some stream → stream.state ≠ .ready →
    (∃ stream', s.sendAt id = some stream' ∧ stream'.state ≠ .ready) ∨ id.index < s.nextReportedRemote id.dir

/-- A move may leave a state in which the counters of the peer's streams are wrong, unless it is `strict`. -/
inductive RemoteMove (strict : Prop) (phase : Phase) : StreamsState → StreamsState → Prop
  | kept {s t : StreamsState} : RemoteKept s t → RemoteMove strict phase s t
  | touched {s : StreamsState} {id : StreamId} (notify : Bool) : phase = .ready →
      (strict → id.initiator ≠ s.side → id.index < s.maxRemote id.dir ∨ id ∈ s.send) →
      RemoteMove strict phase s (s.onStreamFrame notify id)
  | accepted {s : StreamsState} (dir : Dir) : RemoteMove strict phase s (s.accept dir).1
  | grown {s t : StreamsState} : Grown s t (fun _ => 0) → RemoteMove strict phase s t
  | closedRecv {s t : StreamsState} {id : StreamId} : id ∈ s.recv →
      (id.initiator ≠ s.side → id.index < s.nextReportedRemote id.dir ∨ ∃ rs, s.recvAt id = some rs ∧ rs.stopped = true) →
      Grown (s.eraseRecv id) t ((s.eraseRecv id).dropOf id .recv) → RemoteMove strict phase s t
  | closedSend {s t : StreamsState} {id : StreamId} {stream : Send} : s.sendAt id = some stream → stream.state ≠ .ready →
      Grown (s.eraseSend id) t ((s.eraseSend id).dropOf id .send) → RemoteMove strict phase s t
  /-- A stream that was read out of order is lost to a read in order. -/
  | lostRecv {s : StreamsState} {id : StreamId} : (id.initiator ≠ s.side → id.index < s.nextReportedRemote id.dir) →
      (strict → id.initiator ≠ s.side → id ∈ s.send) → RemoteMove strict phase s (s.eraseRecv id)

abbrev RemoteMoves (strict : Prop) (phase : Phase) : StreamsState → StreamsState → Prop :=
  Relation.ReflTransGen (RemoteMove strict phase)

section
variable {strict : Prop} {phase : Phase} {s t u : StreamsState} {id : StreamId}

theorem remoteKept_of_eq (hside : t.side = s.side) (hsend : t.send = s.send) (hrecv : t.recv = s.recv)
    (hfree : t.freeRecv = s.freeRecv) (hw : t.streamReceiveWindow = s.streamReceiveWindow)
    (hrem : t.toRemote = { s.toRemote with sentMaxRemote := t.sentMaxRemote, opened := t.opened }) : RemoteKept s t := by
  have hsendAt : ∀ id, t.sendAt id = s.sendAt id := fun id => by rw [sendAt, hsend]; rfl
  have hrecvAt : ∀ id, t.recvAt id = s.recvAt id := fun id => by rw [recvAt, hrecv]; rfl
  refine ⟨hside, hrem, fun hp => ⟨?_, ?_⟩, fun id _ => by rw [hsend], fun id _ => by rw [hrecv],
    fun id rs _ hr hs => .inl ⟨rs, (hrecvAt id).symm.trans hr, hs⟩,
    fun id st _ hr hs => .inl ⟨st, (hsendAt id).symm.trans hr, hs⟩⟩
  · rw [hfree, hw]
    exact hp.free
  · rw [hrecv, hw]
    exact hp.entry

theorem remoteMoves_of_eq (hside : t.side = s.side) (hsend : t.send = s.send) (hrecv : t.recv = s.recv)
    (hfree : t.freeRecv = s.freeRecv) (hw : t.streamReceiveWindow = s.streamReceiveWindow)
    (hrem : t.toRemote = { s.toRemote with sentMaxRemote := t.sentMaxRemote, opened := t.opened }) :
    RemoteMoves strict phase s t :=
  .single (.kept (remoteKept_of_eq hside hsend hrecv hfree hw hrem))

variable {rs : Recv} {stream a b : Send} {maxData errorCode : Nat} {pending pending' : Retransmits} {m : StreamMeta}
variable {r : Except TransportError Bool}

/-- Storing a receiving half, which is only stopped if it was before or is one that was accepted. -/
theorem remoteKept_setRecv (hmem : id ∈ s.recv) (h : id.initiator ≠ s.side → rs.stopped = true →
      (∃ rs', s.recvAt id = some rs' ∧ rs'.stopped = true) ∨ id.index < s.nextReportedRemote id.dir) :
    RemoteKept s (s.setRecv id rs) := by
  refine ⟨rfl, rfl, fun hp => hp.setRecv rs, fun _ _ => Iff.rfl, fun id' _ => ?_, fun id' rs' hi hr hs => ?_,
    fun id' st _ hr hs => .inl ⟨st, hr, hs⟩⟩
  · rw [mem_setRecv]
    exact or_iff_right_of_imp fun hid => hid ▸ hmem
  · by_cases hid : id' = id
    · subst hid
      rw [recvAt_setRecv_self] at hr
      cases hr
      exact h hi hs
    rw [recvAt_setRecv_ne rs hid] at hr
    exact .inl ⟨rs', hr, hs⟩

theorem remoteKept_takeBytes {newBytes : Nat} (hmem : id ∈ s.recv) (h : id.initiator ≠ s.side → rs.stopped = true →
      (∃ rs', s.recvAt id = some rs' ∧ rs'.stopped = true) ∨ id.index < s.nextReportedRemote id.dir) :
    RemoteKept s (s.takeBytes id rs newBytes) := by
  have hk := remoteKept_setRecv hmem h
  exact { hk with side := rfl, remote := rfl, pooled := fun hp => ⟨(hk.pooled hp).free, (hk.pooled hp).entry⟩ }

theorem Outbound.remoteKept {P : StreamId → Prop} (h : Outbound P s t)
    (hP : ∀ id, P id → id.initiator ≠ s.side → id.index < s.nextReportedRemote id.dir) : RemoteKept s t := by
  have hrecv := congrArg Incoming.recv h.incoming
  refine ⟨h.side, by rw [h.remote], fun hp => ⟨?_, ?_⟩, fun id _ => h.mem id, fun id _ => by rw [hrecv],
    fun id rs _ hr hs => .inl ⟨rs, by rwa [recvAt, ← hrecv], hs⟩,
    fun id stream hi hr hs => (h.finished id stream hr hs).imp_right fun hid => hP id hid hi⟩
  · rw [h.incoming]
    exact hp.free
  · rw [h.incoming]
    exact hp.entry

theorem Outbound.remoteMoves (h : Outbound (fun _ => False) s t) : RemoteMoves strict phase s t :=
  .single (.kept (Outbound.remoteKept h nofun))

theorem getOrInsertSend_state {entry : Option Send} (hl : s.send.lookup id = some entry)
    (h : (getOrInsertSend maxData entry).state ≠ .ready) : ∃ stream, s.sendAt id = some stream ∧ stream.state ≠ .ready := by
  cases entry with
  | none => exact absurd rfl h
  | some stream => exact ⟨stream, sendAt_of_lookup hl, h⟩

theorem getOrInsertRecv_stopped (hp : s.Pooled) {entry : Option StreamRecv} (hl : s.recv.lookup id = some entry)
    (h : (getOrInsertRecv s.streamReceiveWindow entry).stopped = true) :
    ∃ rs, s.recvAt id = some rs ∧ rs.stopped = true := by
  rw [getOrInsertRecv_eq hp hl] at h
  unfold recvOr at h
  cases hat : s.recvAt id with
  | none =>
    rw [hat] at h
    cases h
  | some rs =>
    rw [hat] at h
    exact ⟨rs, rfl, h⟩

theorem Credited.remoteMove {credits : Nat} (h : Credited s t credits) : RemoteMove strict phase s t :=
  .kept (remoteKept_of_eq (by rw [h.eq]) (by rw [h.eq]) (by rw [h.eq]) (by rw [h.eq]) (by rw [h.eq]) (by rw [h.eq]))

theorem remoteMoves_credits {credits : Nat} {transmit : Bool} (h : u.addReadCredits credits = some (t, transmit))
    (hs : RemoteMoves strict phase s u) : RemoteMoves strict phase s t :=
  hs.tail (Credited.remoteMove (credited_addReadCredits h))

theorem remoteMoves_touched {notify : Bool} (hrdy : phase = .ready)
    (h : strict → id.initiator ≠ u.side → id.index < u.maxRemote id.dir ∨ id ∈ u.send)
    (hs : RemoteMoves strict phase s u) : RemoteMoves strict phase s (u.onStreamFrame notify id) :=
  hs.tail (.touched notify hrdy h)

theorem validateReceiveId_remote (h : s.validateReceiveId id = .ok ()) (hi : id.initiator ≠ s.side) :
    id.index < s.maxRemote id.dir := by
  unfold validateReceiveId at h
  rw [if_neg fun h => hi h.symm] at h
  split at h
  · cases h
  · next hlt => exact not_le.mp hlt

theorem ingest_stopped {rs' : Recv} {frame : StreamFrame} {payloadLen received newBytes : Nat} {closed : Bool}
    (h : rs.ingest frame payloadLen received maxData = some (.ok (rs', newBytes, closed))) : rs'.stopped = rs.stopped := by
  unfold Recv.ingest at h
  dsimp only at h
  split at h
  · cases h
  split at h
  · cases h
  split at h
  · cases h
  obtain ⟨a, -, h⟩ := bind_eq_some_iff.mp h
  obtain ⟨rfl, -, -⟩ : _ = rs' ∧ _ ∧ _ := by simpa using h
  rfl

theorem reset_stopped {rs' : Recv} {finalOffset received : Nat} {fresh : Bool}
    (h : rs.reset errorCode finalOffset received maxData = .ok (rs', fresh)) : rs'.stopped = rs.stopped := by
  rcases (Recv.reset_ok h).2.2.2 with ⟨-, rfl, -⟩ | ⟨-, -, rfl⟩ <;> rfl

theorem remoteMoves_received (hp : s.Pooled) (hrdy : phase = .ready) {frame : StreamFrame} {payloadLen : Nat}
    (h : s.received frame payloadLen = some (t, r)) : RemoteMoves strict phase s t := by
  cases received_cases h with
  | invalid | closed => exact .refl
  | finished hl | rejected hl =>
    exact .single (.kept (remoteKept_setRecv (mem_of_lookup_recv hl) fun _ hs => .inl (getOrInsertRecv_stopped hp hl hs)))
  | @taken entry rs newBytes closed hv hl _ hi hstop =>
    have hk : RemoteKept s (s.takeBytes frame.id rs newBytes) :=
      remoteKept_takeBytes (mem_of_lookup_recv hl) fun _ hs => absurd (hstop.symm.trans hs) Bool.false_ne_true
    exact .tail (.single (.kept hk)) (.touched true hrdy fun _ hne => .inl (validateReceiveId_remote hv hne))
  | discarded hl _ hi hstop hadd =>
    refine remoteMoves_credits hadd (.single (.kept (remoteKept_takeBytes (mem_of_lookup_recv hl) fun _ hs => ?_)))
    exact .inl (getOrInsertRecv_stopped hp hl ((ingest_stopped hi).symm.trans hs))
  | @ended entry rs newBytes transmit u _ hl _ hi hstop hfree hadd =>
    have hstopped := getOrInsertRecv_stopped hp hl ((ingest_stopped hi).symm.trans hstop)
    have hk : RemoteKept s (s.takeBytes frame.id rs newBytes) :=
      remoteKept_takeBytes (mem_of_lookup_recv hl) fun _ _ => .inl hstopped
    exact remoteMoves_credits hadd (.tail (.single (.kept hk)) (.closedRecv ((mem_setRecv _).mpr (.inl rfl))
      (fun _ => .inr ⟨_, recvAt_setRecv_self (s := s) _, hstop⟩) (grown_streamRecvFreed hfree)))

theorem remoteMoves_settled {finalOffset : Nat} (h : Settled u t rs finalOffset)
    (hs : RemoteMoves strict phase s u) : RemoteMoves strict phase s t := by
  rcases h with ⟨-, rfl⟩ | ⟨newBytes, credits, transmit, -, -, hadd⟩
  · exact hs
  · exact remoteMoves_credits hadd (hs.tail (.kept (remoteKept_of_eq rfl rfl rfl rfl rfl rfl)))

theorem remoteMoves_receivedReset (hp : s.Pooled) (hrdy : phase = .ready) {frame : ResetStream}
    (h : s.receivedReset frame = some (t, r)) : RemoteMoves strict phase s t := by
  cases receivedReset_cases h with
  | invalid | closed => exact .refl
  | rejected hl =>
    exact .single (.kept (remoteKept_setRecv (mem_of_lookup_recv hl) fun _ hs => .inl (getOrInsertRecv_stopped hp hl hs)))
  | redundant hl hr =>
    exact .single (.kept (remoteKept_setRecv (mem_of_lookup_recv hl) fun _ hs =>
      .inl (getOrInsertRecv_stopped hp hl ((reset_stopped hr).symm.trans hs))))
  | accepted hv hl hr hstop hs =>
    refine remoteMoves_settled hs (.tail (.single (.kept (remoteKept_setRecv (mem_of_lookup_recv hl) fun _ hs => ?_)))
      (.touched true hrdy fun _ hne => .inl (validateReceiveId_remote hv hne)))
    exact absurd (hstop.symm.trans hs) Bool.false_ne_true
  | @disposed entry rs u _ transmit hv hl hr hstop hfree hs =>
    have hstopped := getOrInsertRecv_stopped hp hl ((reset_stopped hr).symm.trans hstop)
    have hk : RemoteKept s (s.setRecv frame.id rs) := remoteKept_setRecv (mem_of_lookup_recv hl) fun _ _ => .inl hstopped
    have hg := grown_streamRecvFreed hfree
    refine remoteMoves_settled hs (.tail (.tail (.single (.kept hk)) (.closedRecv ((mem_setRecv _).mpr (.inl rfl))
      (fun _ => .inr ⟨_, recvAt_setRecv_self (s := s) _, hstop⟩) hg)) (.touched false hrdy fun _ hne => .inl ?_))
    exact (validateReceiveId_remote hv (hg.side ▸ hne)).trans_le (hg.maxRemote _)

theorem remoteMoves_receivedStopSending (hrdy : phase = .ready) (errorCode : Nat) :
    RemoteMoves strict phase s (s.receivedStopSending id errorCode).1 := by
  unfold receivedStopSending
  split
  · exact .refl
  split
  · exact .refl
  split
  · exact .refl
  next entry hl =>
  have hmem := mem_of_lookup_send hl
  have hk : RemoteKept s (s.setSend id ((getOrInsertSend (s.maxSendData id) entry).tryStop errorCode).1) :=
    Outbound.remoteKept (P := fun _ => False) (outbound_insert hmem (fun hne =>
      .inl (getOrInsertSend_state hl ((tryStop_alike _ _).state ▸ hne))) rfl rfl rfl rfl rfl) nofun
  dsimp only
  split
  · exact remoteMoves_touched hrdy (fun _ _ => .inr ((mem_setSend (s := s) _).mpr (.inl rfl)))
      (.tail (.single (.kept hk)) (.kept (remoteKept_of_eq rfl rfl rfl rfl rfl rfl)))
  · exact .single (.kept hk)

theorem remoteMoves_receivedMaxStreamData (hrdy : phase = .ready) {offset : Nat} {r : Except TransportError Unit}
    (hbd : strict → id.initiator ≠ s.side → id.dir = .bi → id.index < s.maxRemote id.dir)
    (h : s.receivedMaxStreamData id offset = some (t, r)) : RemoteMoves strict phase s t := by
  have hbd : ¬(id.initiator ≠ s.side ∧ id.dir = .uni) → strict → id.initiator ≠ s.side →
      id.index < s.maxRemote id.dir := fun hdir hstr hne => by
    refine hbd hstr hne ?_
    cases hd : id.dir with
    | bi => rfl
    | uni => exact absurd ⟨hne, hd⟩ hdir
  cases receivedMaxStreamData_cases h with
  | refused => exact .refl
  | closed hdir => exact .single (.touched false hrdy fun hstr hne => .inl (hbd hdir hstr hne))
  | raised hdir hl ha =>
    refine remoteMoves_touched hrdy (fun hstr hne => .inl (hbd hdir hstr hne)) (.single (.kept ?_))
    exact Outbound.remoteKept (P := fun _ => False) (outbound_insert (mem_of_lookup_send hl) (fun hne =>
      .inl (getOrInsertSend_state hl (ha.state ▸ hne))) rfl rfl rfl rfl rfl) nofun

section
variable (hid : id.initiator ≠ s.side → id.index < s.nextReportedRemote id.dir)
include hid

theorem remoteMoves_stop {r : Except ClosedStream Unit}
    (h : s.stop pending id errorCode = some (t, pending', r)) : RemoteMoves strict phase s t := by
  cases stop_cases h with
  | closed => exact .refl
  | stopped hl => exact .single (.kept (remoteKept_setRecv (mem_of_lookup_recv hl) fun hne _ => .inr (hid hne)))
  | kept hl _ _ hadd =>
    exact remoteMoves_credits hadd (.single (.kept (remoteKept_setRecv (mem_of_lookup_recv hl) fun hne _ => .inr (hid hne))))
  | freed hl _ _ hfree hadd =>
    exact remoteMoves_credits hadd (.single (.closedRecv (mem_of_lookup_recv hl) (fun hne => .inl (hid hne))
      (grown_streamRecvFreed hfree)))

theorem remoteMoves_checkReset {r : Except ClosedStream (Option Nat)}
    (h : s.checkReset pending id = some (t, pending', r)) : RemoteMoves strict phase s t := by
  rcases checkReset_cases h with rfl | ⟨rs, code, hat, -, -, hfree⟩
  · exact .refl
  · exact .single (.closedRecv (mem_of_recvAt hat) (fun hne => .inl (hid hne)) (grown_streamRecvFreed hfree))

end

/-- An ordered read of `id` finds a stream that was read out of order. -/
def illegalRead (s : StreamsState) (id : StreamId) (ordered : Bool) : Bool :=
  ordered && match s.recv.lookup id with
    | none => false
    | some entry =>
      let rs := getOrInsertRecv s.streamReceiveWindow entry
      !rs.stopped && !rs.assembler.state.isOrdered

theorem illegalRead_of_error {entry : Option StreamRecv} {ordered : Bool} {e : IllegalOrderedRead}
    (hl : s.recv.lookup id = some entry) (hs : (getOrInsertRecv s.streamReceiveWindow entry).stopped = false)
    (h : (getOrInsertRecv s.streamReceiveWindow entry).assembler.ensureOrdering ordered = .error e) :
    illegalRead s id ordered = true := by
  unfold Assembler.ensureOrdering at h
  split at h
  · next hc =>
    obtain ⟨h1, h2⟩ := Bool.and_eq_true_iff.mp hc
    simp [illegalRead, hl, hs, h1, h2]
  · split at h <;> cases h

/-- Taking a half out of the map to read it and putting it back changes nothing for the peer's streams. -/
theorem remoteKept_putBack (hmem : id ∈ s.recv) (hs : rs.stopped = false) :
    RemoteKept s ((s.eraseRecv id).setRecv id rs) := by
  have hk : RemoteKept s (s.setRecv id rs) := remoteKept_setRecv hmem fun _ h => absurd (hs.symm.trans h) Bool.false_ne_true
  have hat : ∀ id', ((s.eraseRecv id).setRecv id rs).recvAt id' = (s.setRecv id rs).recvAt id' := fun id' => by
    by_cases hid : id' = id
    · subst hid
      rw [recvAt_setRecv_self, recvAt_setRecv_self]
    · rw [recvAt_setRecv_ne rs hid, recvAt_setRecv_ne rs hid, recvAt_eraseRecv_ne hid]
  refine ⟨rfl, rfl, fun hp => (Pooled.eraseRecv hp).setRecv rs, hk.mem_send, fun id' _ => ?_,
    fun id' rs' hi hr hs' => hk.stopped id' rs' hi ((hat id').symm.trans hr) hs', hk.finished⟩
  rw [mem_setRecv, mem_eraseRecv]
  by_cases hid : id' = id
  · subst hid
    exact ⟨fun _ => hmem, fun _ => .inl rfl⟩
  · exact ⟨fun h => (h.resolve_left hid).2, fun h => .inr ⟨hid, h⟩⟩

theorem remoteMoves_session (hid : id.initiator ≠ s.side → id.index < s.nextReportedRemote id.dir) {ordered : Bool}
    (hlegal : strict → id.initiator ≠ s.side → illegalRead s id ordered = true → id ∈ s.send)
    {maxLengths : List Nat} {r : Except ReadableError (List (Except ReadError (Option Chunk)))}
    (h : Chunks.session s pending id ordered maxLengths = some (t, pending', r)) : RemoteMoves strict phase s t := by
  cases Chunks.session_cases h with
  | closed => exact .refl
  | stopped hl => exact .single (.kept (remoteKept_setRecv (mem_of_lookup_recv hl) fun hne _ => .inr (hid hne)))
  | lost hl hstop hens =>
    exact .single (.lostRecv hid fun hstr hne => hlegal hstr hne (illegalRead_of_error hl hstop hens))
  | readable hl hstop _ _ hadd =>
    exact remoteMoves_credits hadd (.single (.kept (remoteKept_putBack (mem_of_lookup_recv hl) hstop)))
  | ended hl _ _ _ _ hfree hadd =>
    exact remoteMoves_credits hadd (.single (.closedRecv (mem_of_lookup_recv hl) (fun hne => .inl (hid hne))
      (grown_streamRecvFreed hfree)))

theorem remoteKept_openStream {dir : Dir} {r : Option StreamId} (hp : s.Pooled) (h : s.openStream dir = some (t, r)) :
    RemoteKept s t := by
  unfold openStream at h
  split at h
  · cases h
    exact remoteKept_of_eq rfl rfl rfl rfl rfl rfl
  obtain ⟨u, hu, ⟨⟩⟩ := exists_of_bind h
  have ha := added_insert hu
  have hp' : ({ s with next := Function.update s.next dir (s.next dir + 1) } : StreamsState).Pooled := ⟨hp.free, hp.entry⟩
  -- The new entries are local.
  have hloc : ∀ (id : StreamId) {p : Prop}, id.initiator ≠ s.side → ¬(id = ⟨s.side, dir, s.next dir⟩ ∧ p) :=
    fun id p hi h => hi (h.1 ▸ rfl)
  refine ⟨ha.side, ?_, fun _ => ⟨(ha.pooled hp').free, (ha.pooled hp').entry⟩, fun id hi => ?_, fun id hi => ?_,
    fun id rs _ hr hs => .inl ⟨rs, (ha.recvAt hp' id).symm.trans hr, hs⟩,
    fun id st _ hr hs => .inl ⟨st, (ha.sendAt id).symm.trans hr, hs⟩⟩
  · rw [ha.remote]
  · exact (ha.mem_send id).trans (or_iff_left (hloc id hi))
  · exact (ha.mem_recv id).trans (or_iff_left (hloc id hi))

theorem ack_state {done : Bool} (h : a.ack m = some (b, done)) (hne : b.state ≠ .ready) : a.state ≠ .ready := by
  obtain ⟨pending, -, h⟩ := bind_eq_some_iff.mp h
  split at h
  · next hs =>
    rw [hs]
    exact SendState.noConfusion
  · next hs =>
    cases h
    exact hne
  next hs =>
  rw [hs]
  exact SendState.noConfusion

theorem remoteMoves_receivedAckOf (h : s.receivedAckOf m = some t) : RemoteMoves strict phase s t := by
  unfold receivedAckOf at h
  split at h
  · cases h
    exact .refl
  · cases h
    exact .refl
  next stream hl =>
  have hat := sendAt_of_lookup hl
  split at h
  · cases h
    exact .refl
  obtain ⟨len, -, h⟩ := bind_eq_some_iff.mp h
  obtain ⟨rest, -, h⟩ := bind_eq_some_iff.mp h
  obtain ⟨⟨stream', done⟩, hack, h⟩ := bind_eq_some_iff.mp h
  have hk : RemoteKept s { s.setSend m.id stream' with unackedData := rest } :=
    Outbound.remoteKept (outbound_restored hat rfl rfl rfl rfl rfl (ack_state hack)) nofun
  cases done with
  | false =>
    cases h
    exact .single (.kept hk)
  | true =>
    obtain ⟨u, hu, rfl⟩ := exists_of_bind h
    have hst : stream'.state ≠ .ready := by
      rw [(ack_done hack).1]
      exact SendState.noConfusion
    exact .tail (.tail (.single (.kept hk)) (.closedSend (sendAt_setSend_self (s := s) stream') hst
      (grown_streamFreed hu))) (.kept (remoteKept_of_eq rfl rfl rfl rfl rfl rfl))

theorem remoteMoves_resetAcked (h : s.resetAcked id = some t) : RemoteMoves strict phase s t := by
  unfold resetAcked at h
  split at h
  · next stream hs =>
    split at h
    · next hr =>
      refine .single (.closedSend hs ?_ (grown_streamFreed h))
      rw [show stream.state = .resetSent by simpa [Send.isReset] using hr]
      exact SendState.noConfusion
    cases h
    exact .refl
  cases h
  exact .refl

theorem Announced.remoteKept (h : Announced s t) : RemoteKept s t := by
  have hsend : t.send = s.send := by rw [h.eq]
  have hsendAt : ∀ id, t.sendAt id = s.sendAt id := fun id => by rw [sendAt, hsend]; rfl
  refine ⟨by rw [h.eq], by rw [h.eq], h.pooled, fun id _ => by rw [hsend], fun id _ => h.mem id, fun id rs _ hr hs => ?_,
    fun id st _ hr hs => .inl ⟨st, (hsendAt id).symm.trans hr, hs⟩⟩
  rcases h.recvAt id with heq | ⟨rs', n, hrs', hn⟩
  · exact .inl ⟨rs, heq.symm.trans hr, hs⟩
  obtain rfl := some.inj (hn.symm.trans hr)
  exact .inl ⟨rs', hrs', hs⟩

theorem remoteMoves_removeLocals {dir : Dir} : ∀ {count : Nat} {t : StreamsState}, s.removeLocals dir count = some t →
    RemoteMoves strict phase s t ∧ t.side = s.side
  | 0, t, h => by
    cases h
    exact ⟨.refl, rfl⟩
  | count + 1, t, h => by
    obtain ⟨u, hu, h⟩ := bind_eq_some_iff.mp h
    obtain ⟨hm, hside⟩ := remoteMoves_removeLocals hu
    dsimp only at h
    split at h
    · cases h
      refine ⟨hm.tail (.kept ?_), hside⟩
      -- Only the entries of a local stream go.
      have hne : ∀ id : StreamId, id.initiator ≠ u.side → id ≠ ⟨u.side, dir, count⟩ := fun id hi h => hi (h ▸ rfl)
      have hrecv : ∀ id : StreamId, id.initiator ≠ u.side →
          (if dir = .bi then u.recv.erase ⟨u.side, dir, count⟩ else u.recv).lookup id = u.recv.lookup id := fun id hi => by
        split
        · exact lookup_erase_ne (hne id hi)
        · rfl
      refine ⟨rfl, rfl, fun hp => ⟨hp.free, fun id r hl => ?_⟩, fun id hi => ?_, fun id hi => ?_, fun id rs hi hr hs => ?_,
        fun id st hi hr hs => ?_⟩
      · split at hl
        · exact (Pooled.eraseRecv hp).entry id r hl
        · exact hp.entry id r hl
      · exact mem_erase.trans (and_iff_right (hne id hi))
      · rw [← lookup_isSome, ← lookup_isSome]
        exact iff_of_eq (congrArg (fun e : Option (Option StreamRecv) => e.isSome = true) (hrecv id hi))
      · refine .inl ⟨rs, ?_, hs⟩
        rw [← hr, recvAt, recvAt]
        exact congrArg (fun e => (join e).bind StreamRecv.asOpenRecv) (hrecv id hi).symm
      · refine .inl ⟨st, ?_, hs⟩
        rw [← hr, sendAt, sendAt]
        exact congrArg join (lookup_erase_ne (hne id hi)).symm
    · cases h

theorem remoteMoves_zeroRttRejected (h : s.zeroRttRejected = some t) : RemoteMoves strict phase s t := by
  have hdir : ∀ {s t : StreamsState} {dir : Dir}, s.zeroRttRejectedDir dir = some t → RemoteMoves strict phase s t :=
    fun {s t dir} h => by
      obtain ⟨u, hu, rfl⟩ := exists_of_bind h
      exact (remoteMoves_removeLocals hu).1.tail (.kept (remoteKept_of_eq rfl rfl rfl rfl rfl rfl))
  obtain ⟨u, hu, h⟩ := bind_eq_some_iff.mp h
  obtain ⟨v, hv, rfl⟩ := exists_of_bind h
  exact ((hdir hu).trans (hdir hv)).tail (.kept (remoteKept_of_eq rfl rfl rfl rfl rfl rfl))

end

namespace Connection

variable {strict : Prop} {c d : Connection}

/-- The events that keep the counters of the peer's streams right: `MAX_STREAM_DATA` names a stream that was
    allowed, and a stream that was read out of order is not read in order, unless its sending half stays. -/
def Accountable (c : Connection) : Event → Prop
  | .frame (.maxStreamData id _) =>
    id.initiator ≠ c.streams.side → id.dir = .bi → id.index < c.streams.maxRemote id.dir
  | .recv id (.read ordered _) =>
    id.initiator ≠ c.streams.side → illegalRead c.streams id ordered = true → id ∈ c.streams.send
  | _ => True

variable {id : StreamId}

theorem Handle.reported (h : c.Handle id) (hne : id.initiator ≠ c.streams.side) :
    id.index < c.streams.nextReportedRemote id.dir :=
  h.resolve_left hne

theorem remoteMoves_recvCall {call : RecvCall} (he : c.Handle id)
    (hc : strict → c.Accountable (.recv id call)) (h : c.recvCall id call = some d) :
    RemoteMoves strict c.phase c.streams d.streams := by
  cases call with
  | read ordered maxLengths =>
    obtain ⟨⟨streams, pending, r⟩, hr, rfl⟩ := exists_of_bind h
    exact remoteMoves_session (Handle.reported he) hc hr
  | stop errorCode =>
    obtain ⟨⟨streams, pending, r⟩, hr, rfl⟩ := exists_of_bind h
    exact remoteMoves_stop (Handle.reported he) hr
  | checkReset =>
    obtain ⟨⟨streams, pending, r⟩, hr, rfl⟩ := exists_of_bind h
    exact remoteMoves_checkReset (Handle.reported he) hr

theorem remoteMoves_receiveFrame {frame : Frame} (hp : c.streams.Pooled) (hrdy : c.phase = .ready)
    (hc : strict → c.Accountable (.frame frame)) (h : c.receiveFrame frame = some d) :
    RemoteMoves strict c.phase c.streams d.streams := by
  cases frame with
  | stream frame payloadLen =>
    obtain ⟨⟨streams, r⟩, hr, rfl⟩ := exists_of_bind h
    exact remoteMoves_received hp hrdy hr
  | resetStream frame =>
    obtain ⟨⟨streams, r⟩, hr, rfl⟩ := exists_of_bind h
    exact remoteMoves_receivedReset hp hrdy hr
  | stopSending id errorCode =>
    cases h
    exact remoteMoves_receivedStopSending hrdy errorCode
  | maxData n =>
    cases h
    exact remoteMoves_of_eq rfl rfl rfl rfl rfl rfl
  | maxStreamData id offset =>
    obtain ⟨⟨streams, r⟩, hr, rfl⟩ := exists_of_bind h
    exact remoteMoves_receivedMaxStreamData hrdy hc hr
  | maxStreams dir count =>
    cases h
    unfold receivedMaxStreams
    split
    · exact .refl
    split
    · exact remoteMoves_of_eq rfl rfl rfl rfl rfl rfl
    · exact .refl

theorem remoteMoves_step {e : Event} (hp : c.streams.Pooled) (he : c.Enabled e) (hc : strict → c.Accountable e)
    (h : c.step e = some d) : RemoteMoves strict c.phase c.streams d.streams := by
  cases e with
  | openStream dir =>
    obtain ⟨⟨streams, r⟩, hr, rfl⟩ := exists_of_bind h
    exact .single (.kept (remoteKept_openStream hp hr))
  | accept dir =>
    cases h
    exact .single (.accepted dir)
  | send id call => exact .single (.kept (Outbound.remoteKept (outbound_sendCall h) fun _ hid => hid ▸ Handle.reported he))
  | recv id call => exact remoteMoves_recvCall he hc h
  | setMaxConcurrent dir count =>
    obtain ⟨streams, hs, h⟩ := bind_eq_some_iff.mp h
    obtain ⟨⟨pending, b⟩, -, rfl⟩ := exists_of_bind h
    exact .single (.grown (grown_setMaxConcurrent hs))
  | setReceiveWindow n =>
    cases h
    show RemoteMoves strict c.phase c.streams (c.streams.setReceiveWindow n).1
    unfold setReceiveWindow
    split <;> exact remoteMoves_of_eq rfl rfl rfl rfl rfl rfl
  | frame frame => exact remoteMoves_receiveFrame hp he.1 hc h
  | transmit len extra maxSize fair =>
    obtain ⟨u, hu, h⟩ := outbound_transmit h
    exact .head (.kept (Announced.remoteKept hu)) (Outbound.remoteMoves h)
  | ack i =>
    change c.ack i = some d at h
    unfold ack at h
    split at h
    · cases h
      exact .refl
    obtain ⟨streams, hs, rfl⟩ := exists_of_bind h
    obtain ⟨u, hu, hs⟩ := bind_eq_some_iff.mp hs
    exact (foldlM_rel (R := RemoteMoves strict _) (fun _ => .refl) .trans remoteMoves_resetAcked hu).trans
      (foldlM_rel (R := RemoteMoves strict _) (fun _ => .refl) .trans remoteMoves_receivedAckOf hs)
  | zeroRttRejected params =>
    obtain ⟨streams, hs, rfl⟩ := exists_of_bind h
    exact (remoteMoves_zeroRttRejected hs).trans (Outbound.remoteMoves (outbound_setParams params))
  | poll | packetEnd | lost | probe | init0rtt | established | retry => exact Outbound.remoteMoves (outbound_step h trivial)

end Connection
end SaorsaTransport
