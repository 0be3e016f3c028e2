import SaorsaTransport.Theorems.Streams.Finished

/-! What events that are not about receiving leave of the receiving side, and what the others do to it:
    each changes one half and moves the counters of the connection. -/

namespace SaorsaTransport
open Library Option

/-- The halves hold the same; only the limit that was announced for them may differ. -/
structure Recv.Alike (a b : Recv) : Prop where
  state : b.state = a.state
  assembler : b.assembler = a.assembler
  end_ : b.end_ = a.end_
  stopped : b.stopped = a.stopped

instance : Std.Refl Recv.Alike := ⟨fun _ => ⟨rfl, rfl, rfl, rfl⟩⟩

instance : IsTrans Recv Recv.Alike := ⟨fun _ _ _ h₁ h₂ => ⟨h₂.state.trans h₁.state, h₂.assembler.trans h₁.assembler,
  h₂.end_.trans h₁.end_, h₂.stopped.trans h₁.stopped⟩⟩

namespace StreamsState

variable {s t u : StreamsState} {id : StreamId}

/-- The stream was not allowed to exist before, and has a receiving half. -/
def NewRecv (s t : StreamsState) (id : StreamId) : Prop :=
  ¬s.Known id ∧ t.Known id ∧ (id.initiator = s.side → id.dir = .bi)

/-- Nothing was received, read or discarded between `s` and `t`. -/
structure RecvKept (s t : StreamsState) : Prop where
  side : t.side = s.side
  next : ∀ dir, s.next dir ≤ t.next dir
  maxRemote : ∀ dir, s.maxRemote dir ≤ t.maxRemote dir
  incoming : t.toIncoming = { s.toIncoming with recv := t.recv, freeRecv := t.freeRecv, sentMaxData := t.sentMaxData }
  pooled : s.Pooled → t.Pooled
  recvAt : s.Pooled → ∀ id, Touched Recv.Alike (Recv.new s.streamReceiveWindow) (s.recvAt id) (t.recvAt id)
  mem : ∀ id, id ∈ s.recv → id ∈ t.recv
  fresh : ∀ id, id ∈ t.recv → id ∈ s.recv ∨ NewRecv s t id

theorem RecvKept.window (h : RecvKept s t) : t.streamReceiveWindow = s.streamReceiveWindow := by rw [h.incoming]

theorem RecvKept.trans (h₁ : RecvKept s t) (h₂ : RecvKept t u) : RecvKept s u where
  side := h₂.side.trans h₁.side
  next dir := (h₁.next dir).trans (h₂.next dir)
  maxRemote dir := (h₁.maxRemote dir).trans (h₂.maxRemote dir)
  incoming := by rw [h₂.incoming, h₁.incoming]
  pooled h := h₂.pooled (h₁.pooled h)
  recvAt h id := (h₁.recvAt h id).trans (h₁.window ▸ h₂.recvAt (h₁.pooled h) id)
  mem id hid := h₂.mem id (h₁.mem id hid)
  fresh id hid := by
    rcases h₂.fresh id hid with ht | ⟨hn, hk, hb⟩
    · exact (h₁.fresh id ht).imp_right fun ⟨hn, hk, hb⟩ => ⟨hn, hk.mono h₂.side h₂.next h₂.maxRemote, hb⟩
    · exact .inr ⟨fun hk' => hn (hk'.mono h₁.side h₁.next h₁.maxRemote), hk, fun hi => hb (hi.trans h₁.side.symm)⟩

theorem RecvKept.after (h₂ : RecvKept t u) (h₁ : RecvKept s t) : RecvKept s u := h₁.trans h₂

theorem recvKept_of_eq (hside : t.side = s.side) (hin : t.toIncoming = s.toIncoming) (hnext : t.next = s.next)
    (hmax : t.maxRemote = s.maxRemote) : RecvKept s t := by
  have hrecv := congrArg Incoming.recv hin
  refine ⟨hside, fun dir => by rw [hnext], fun dir => by rw [hmax], by rw [hin], fun hp => ⟨?_, ?_⟩, fun _ id => ?_,
    fun id hid => hrecv ▸ hid, fun id hid => .inl (hrecv ▸ hid)⟩
  · rw [hin]
    exact hp.free
  · rw [hin]
    exact hp.entry
  · rw [show t.recvAt id = s.recvAt id by rw [StreamsState.recvAt, hrecv]; rfl]
    exact .refl _

theorem RecvKept.refl (s : StreamsState) : RecvKept s s := recvKept_of_eq rfl rfl rfl rfl

theorem Outbound.recvKept {P : StreamId → Prop} (h : Outbound P s t) : RecvKept s t :=
  recvKept_of_eq h.side h.incoming h.next (by rw [h.remote])

theorem NewIn.newRecv (hside : t.side = s.side) (h : NewIn s t id) : NewRecv s t id := by
  obtain ⟨hi, h1, h2⟩ := h
  have hne := hi ▸ Side.peer_ne s.side
  unfold NewRecv Known
  rw [hside, if_neg hne, if_neg hne]
  exact ⟨not_lt.mpr h1, h2, fun h => absurd h hne⟩

theorem Grown.recvKept {drop : Dir → Nat} (h : Grown s t drop) : RecvKept s t where
  __ := h
  next dir := by rw [h.outgoing]
  incoming := by rw [h.incoming]
  recvAt hp id := h.recvAt hp id ▸ .refl _
  mem id hid := (h.mem_recv id).mpr (.inl hid)
  fresh id hid := ((h.mem_recv id).mp hid).imp_right (NewIn.newRecv h.side)

theorem Announced.recvKept (h : Announced s t) : RecvKept s t where
  side := by rw [h.eq]
  next dir := by rw [h.eq]
  maxRemote dir := by rw [h.eq]
  incoming := by rw [h.eq]
  pooled := h.pooled
  recvAt _ id := by
    rcases h.recvAt id with heq | ⟨rs, n, hs, ht⟩
    · rw [heq]
      exact .refl _
    rw [hs, ht]
    exact .some ⟨rfl, rfl, rfl, rfl⟩
  mem id hid := (h.mem id).mpr hid
  fresh id hid := .inl ((h.mem id).mp hid)

theorem recvKept_onStreamFrame (notify : Bool) : RecvKept s (s.onStreamFrame notify id) :=
  recvKept_of_eq (onStreamFrame_side notify) (onStreamFrame_incoming notify)
    (congrArg Outgoing.next (onStreamFrame_outgoing notify)) (by rw [onStreamFrame_remote])

theorem recvKept_found {entry : Option StreamRecv} (hl : s.recv.lookup id = some entry) :
    RecvKept s (s.setRecv id (getOrInsertRecv s.streamReceiveWindow entry)) := by
  refine ⟨rfl, fun _ => le_rfl, fun _ => le_rfl, rfl, fun hp => hp.setRecv _, fun hp id' => ?_,
    fun id' hid => (mem_setRecv _).mpr (.inr hid),
    fun id' hid => .inl (((mem_setRecv _).mp hid).elim (fun h => h ▸ mem_of_lookup_recv hl) fun h => h)⟩
  by_cases hid : id' = id
  · subst hid
    rw [recvAt_setRecv_self, getOrInsertRecv_eq hp hl]
    unfold recvOr
    cases s.recvAt id' with
    | none => exact .created (Std.Refl.refl _)
    | some rs => exact .refl _
  rw [recvAt_setRecv_ne _ hid]
  exact .refl _

theorem recvKept_openStream {dir : Dir} {r : Option StreamId} (h : s.openStream dir = some (t, r)) : RecvKept s t := by
  have hk := sendKept_openStream (U := fun _ => True) h
  unfold openStream at h
  split at h
  · cases h
    exact .refl s
  obtain ⟨u, hu, ⟨⟩⟩ := exists_of_bind h
  have ha := added_insert hu
  have hp : s.Pooled → ({ s with next := Function.update s.next dir (s.next dir + 1) } : StreamsState).Pooled :=
    fun hp => ⟨hp.free, hp.entry⟩
  refine ⟨hk.side, hk.next, hk.maxRemote, ?_, fun hs => ⟨(ha.pooled (hp hs)).free, (ha.pooled (hp hs)).entry⟩,
    fun hs id => ?_, fun id hid => (ha.mem_recv id).mpr (.inl hid), fun id hid => ?_⟩
  · rw [ha.incoming]
  · rw [show ({ u with sendStreams := u.sendStreams + 1 } : StreamsState).recvAt id = s.recvAt id from ha.recvAt (hp hs) id]
    exact .refl _
  · refine ((ha.mem_recv id).mp hid).imp_right ?_
    rintro ⟨rfl, hb⟩
    have hside := ha.side
    have hnext : u.next = Function.update s.next dir (s.next dir + 1) := congrArg Outgoing.next ha.outgoing
    unfold NewRecv Known
    rw [if_pos rfl, if_pos hside.symm, hnext, Function.update_self]
    exact ⟨lt_irrefl _, lt_add_one _, fun _ => hb.resolve_right Bool.noConfusion⟩

theorem recvKept_accept {dir : Dir} : RecvKept s (s.accept dir).1 := by
  unfold accept
  split <;> exact recvKept_of_eq rfl rfl rfl rfl

theorem recvKept_receivedAckOf {m : StreamMeta} (h : s.receivedAckOf m = some t) : RecvKept s t := by
  unfold StreamsState.receivedAckOf at h
  split at h
  · cases h
    exact .refl s
  · cases h
    exact .refl s
  split at h
  · cases h
    exact .refl s
  obtain ⟨len, -, h⟩ := bind_eq_some_iff.mp h
  obtain ⟨rest, -, h⟩ := bind_eq_some_iff.mp h
  obtain ⟨⟨stream, done⟩, -, h⟩ := bind_eq_some_iff.mp h
  cases done with
  | false =>
    cases h
    exact recvKept_of_eq rfl rfl rfl rfl
  | true =>
    obtain ⟨u, hu, rfl⟩ := exists_of_bind h
    have hk : RecvKept s u := .after (grown_streamFreed hu).recvKept (recvKept_of_eq rfl rfl rfl rfl)
    exact hk.trans (recvKept_of_eq rfl rfl rfl rfl)

theorem recvKept_resetAcked (h : s.resetAcked id = some t) : RecvKept s t := by
  unfold StreamsState.resetAcked at h
  split at h
  · split at h
    · exact .after (grown_streamFreed h).recvKept (recvKept_of_eq rfl rfl rfl rfl)
    cases h
    exact .refl s
  cases h
  exact .refl s

theorem recvKept_receivedStopSending (errorCode : Nat) : RecvKept s (s.receivedStopSending id errorCode).1 := by
  unfold receivedStopSending
  split
  · exact .refl s
  split
  · exact .refl s
  split
  · exact .refl s
  dsimp only
  split
  · exact .after (recvKept_onStreamFrame false) (recvKept_of_eq rfl rfl rfl rfl)
  · exact recvKept_of_eq rfl rfl rfl rfl

theorem recvKept_receivedMaxStreamData {offset : Nat} {r : Except TransportError Unit}
    (h : s.receivedMaxStreamData id offset = some (t, r)) : RecvKept s t := by
  cases receivedMaxStreamData_cases h with
  | refused => exact .refl s
  | closed => exact recvKept_onStreamFrame false
  | raised => exact .after (recvKept_onStreamFrame false) (recvKept_of_eq rfl rfl rfl rfl)

theorem recvKept_receivedMaxStreams (dir : Dir) (count : Nat) : RecvKept s (s.receivedMaxStreams dir count).1 := by
  unfold receivedMaxStreams
  split
  · exact .refl s
  · split <;> exact recvKept_of_eq rfl rfl rfl rfl

theorem recvKept_setParams (params : TransportParameters) : RecvKept s (s.setParams params) :=
  (outbound_setParams params).recvKept

end StreamsState

namespace Connection
open StreamsState

variable {c d : Connection}

/-- The event receives, reads or discards data, moves the window, or gives up 0-RTT. -/
def AboutReceiving : Event → Prop
  | .recv _ _ | .frame (.stream _ _) | .frame (.resetStream _) | .setReceiveWindow _ | .zeroRttRejected _ => True
  | _ => False

theorem recvKept_step {e : Event} (he : ¬AboutReceiving e) (h : c.step e = some d) : RecvKept c.streams d.streams := by
  cases e with
  | openStream dir =>
    obtain ⟨⟨streams, r⟩, hr, rfl⟩ := exists_of_bind h
    exact recvKept_openStream hr
  | accept dir =>
    cases h
    exact recvKept_accept
  | send id call => exact (outbound_sendCall h).recvKept
  | recv id call => exact absurd trivial he
  | setMaxConcurrent dir count =>
    obtain ⟨streams, hs, h⟩ := bind_eq_some_iff.mp h
    obtain ⟨⟨pending, b⟩, -, rfl⟩ := exists_of_bind h
    exact (grown_setMaxConcurrent hs).recvKept
  | setReceiveWindow n => exact absurd trivial he
  | frame frame =>
    cases frame with
    | stream frame payloadLen | resetStream frame => exact absurd trivial he
    | stopSending id errorCode =>
      cases h
      exact recvKept_receivedStopSending errorCode
    | maxData n =>
      cases h
      exact recvKept_of_eq rfl rfl rfl rfl
    | maxStreamData id offset =>
      obtain ⟨⟨streams, r⟩, hr, rfl⟩ := exists_of_bind h
      exact recvKept_receivedMaxStreamData hr
    | maxStreams dir count =>
      cases h
      exact recvKept_receivedMaxStreams dir count
  | transmit len extra maxSize fair =>
    obtain ⟨u, hu, h⟩ := outbound_transmit h
    exact hu.recvKept.trans h.recvKept
  | ack i =>
    unfold step ack at h
    dsimp only at h
    split at h
    · cases h
      exact .refl _
    obtain ⟨streams, hs, rfl⟩ := exists_of_bind h
    obtain ⟨u, hu, hs⟩ := bind_eq_some_iff.mp hs
    exact (foldlM_rel (R := RecvKept) .refl .trans recvKept_resetAcked hu).trans
      (foldlM_rel (R := RecvKept) .refl .trans recvKept_receivedAckOf hs)
  | zeroRttRejected params => exact absurd trivial he
  | poll | packetEnd | lost | probe | init0rtt | established | retry => exact (outbound_step h trivial).recvKept

end Connection

/-! What frames and calls do to a receiving half. -/

def StreamFrame.end_ (frame : StreamFrame) : Nat := frame.offset + frame.data.length

namespace Recv

variable {rs rs' : Recv} {received maxData : Nat}

def live (rs : Recv) : Bool := rs.isReceiving && !rs.stopped

theorem ingest_ok {frame : StreamFrame} {payloadLen newBytes : Nat} {closed : Bool} {size : Option Nat}
    (hst : rs.state = .recv size)
    (h : rs.ingest frame payloadLen received maxData = some (.ok (rs', newBytes, closed))) :
    frame.end_ < 2 ^ 62 ∧ (∀ n, size = some n → frame.end_ ≤ n ∧ (frame.fin = true → frame.end_ = n)) ∧
    newBytes = frame.end_ - rs.end_ ∧ received + newBytes ≤ maxData ∧
    (rs.stopped = false ∧ (∃ a, rs.assembler.insert frame.offset frame.data payloadLen = some a ∧
        rs' = { rs with state := .recv (if frame.fin then some frame.end_ else size), assembler := a
                        end_ := max rs.end_ frame.end_ }) ∨
      rs.stopped = true ∧ closed = frame.fin ∧ rs' = { rs with end_ := max rs.end_ frame.end_ }) := by
  have hfinal : rs.finalOffset = size := by
    unfold finalOffset
    rw [hst]
  unfold ingest at h
  dsimp only at h
  rw [hfinal, hst] at h
  change (if 2 ^ 62 ≤ frame.end_ then _ else if size.any (fun n => decide (n < frame.end_ ∨ frame.fin ∧ frame.end_ ≠ n)) then _
    else _) = _ at h
  split at h
  · cases h
  next hsm =>
  split at h
  · cases h
  next hany =>
  split at h
  · cases h
  next n hcred =>
  unfold creditConsumedBy at hcred
  dsimp only at hcred
  split at hcred
  · cases hcred
  next hroom =>
  cases hcred
  obtain ⟨a, ha, h⟩ := bind_eq_some_iff.mp h
  obtain ⟨rfl, hrest⟩ := Prod.mk.inj (Except.ok.inj (some.inj h))
  cases hrest
  rw [not_or, not_lt, not_lt] at hroom
  refine ⟨not_le.mp hsm, fun n hn => ?_, rfl, hroom.2, ?_⟩
  · subst hn
    rw [any_some, decide_eq_true_eq, not_or, not_lt, not_and, not_not] at hany
    exact hany
  · obtain ⟨state, assembler, sent, end_, stopped⟩ := rs
    obtain rfl := hst
    cases stopped with
    | false =>
      refine .inl ⟨rfl, a, ha, ?_⟩
      rw [Bool.not_false, Bool.and_true]
      rfl
    | true =>
      obtain rfl := some.inj ha
      refine .inr ⟨rfl, Bool.and_true _, ?_⟩
      rw [Bool.not_true, Bool.and_false]
      rfl

theorem stop_ok {credits : Nat} {stopSending : Bool} (h : rs.stop = some (.ok (rs', credits, stopSending))) :
    rs.stopped = false ∧ rs.end_ = rs.assembler.bytesRead + credits ∧
      rs' = { rs with stopped := true, assembler := rs.assembler.clear } := by
  unfold Recv.stop at h
  split at h
  · cases h
  next hs =>
  obtain ⟨n, hn, h⟩ := bind_eq_some_iff.mp h
  obtain ⟨rfl, hrest⟩ := Prod.mk.inj (Except.ok.inj (some.inj h))
  cases hrest
  exact ⟨Bool.not_eq_true _ ▸ hs, checkedSub_eq_some.mp hn, rfl⟩

end Recv

namespace StreamsState

variable {s t u : StreamsState} {id : StreamId} {after : Option Recv} {received credits : Nat}

/-- The half of `id` is now `after`, having gone if that is none. `received` bytes were counted and `credits`
    returned, unless a counter was full. -/
structure Changed (s t : StreamsState) (id : StreamId) (after : Option Recv) (received credits : Nat) : Prop where
  side : t.side = s.side
  next : ∀ dir, s.next dir ≤ t.next dir
  maxRemote : ∀ dir, s.maxRemote dir ≤ t.maxRemote dir
  streamWindow : t.streamReceiveWindow = s.streamReceiveWindow
  window : t.receiveWindow = s.receiveWindow
  dataRecvd : s.dataRecvd + received ≤ u64Max → t.dataRecvd = s.dataRecvd + received
  localMaxData : t.localMaxData = if s.receiveWindowShrinkDebt < credits then
    saturatingAdd s.localMaxData (credits - s.receiveWindowShrinkDebt) else s.localMaxData
  debt : t.receiveWindowShrinkDebt = s.receiveWindowShrinkDebt - credits
  pooled : s.Pooled → t.Pooled
  self : s.Pooled → t.recvAt id = after
  other : s.Pooled → ∀ id', id' ≠ id → t.recvAt id' = s.recvAt id'
  mem : ∀ id', id' ≠ id → id' ∈ s.recv → id' ∈ t.recv
  fresh : ∀ id', id' ∈ t.recv → id' ∈ s.recv ∧ (id' = id → after ≠ none) ∨ NewRecv s t id'

theorem changed_setRecv (hmem : id ∈ s.recv) (rs : Recv) : Changed s (s.setRecv id rs) id (some rs) 0 0 := by
  refine ⟨rfl, fun _ => le_rfl, fun _ => le_rfl, rfl, rfl, fun _ => rfl, rfl, rfl, fun hp => hp.setRecv rs,
    fun _ => recvAt_setRecv_self rs, fun _ id' hne => recvAt_setRecv_ne rs hne,
    fun id' _ hid => (mem_setRecv rs).mpr (.inr hid), fun id' hid => .inl ⟨?_, fun _ => some_ne_none rs⟩⟩
  exact ((mem_setRecv rs).mp hid).elim (fun h => h ▸ hmem) fun h => h

theorem changed_eraseRecv : Changed s (s.eraseRecv id) id none 0 0 :=
  ⟨rfl, fun _ => le_rfl, fun _ => le_rfl, rfl, rfl, fun _ => rfl, rfl, rfl, fun hp => hp.eraseRecv,
    fun _ => recvAt_eraseRecv_self, fun _ _ hne => recvAt_eraseRecv_ne hne,
    fun _ hne hid => mem_eraseRecv.mpr ⟨hne, hid⟩,
    fun _ hid => .inl ⟨(mem_eraseRecv.mp hid).2, fun heq => absurd heq (mem_eraseRecv.mp hid).1⟩⟩

section
variable (h : Changed s u id after received credits)
include h

theorem Changed.setRecv (hmem : id ∈ s.recv) (rs : Recv) : Changed s (u.setRecv id rs) id (some rs) received credits := by
  refine { h with
    pooled := fun hp => (h.pooled hp).setRecv rs
    self := fun _ => recvAt_setRecv_self rs
    other := fun hp id' hne => (recvAt_setRecv_ne rs hne).trans (h.other hp id' hne)
    mem := fun id' hne hid => (mem_setRecv rs).mpr (.inr (h.mem id' hne hid))
    fresh := fun id' hid => ?_ }
  rcases (mem_setRecv rs).mp hid with rfl | hid
  · exact .inl ⟨hmem, fun _ => some_ne_none rs⟩
  · exact (h.fresh id' hid).imp_left fun h => ⟨h.1, fun _ => some_ne_none rs⟩

theorem Changed.eraseRecv : Changed s (u.eraseRecv id) id none received credits :=
  { h with
    pooled := fun hp => (h.pooled hp).eraseRecv
    self := fun _ => recvAt_eraseRecv_self
    other := fun hp id' hne => (recvAt_eraseRecv_ne hne).trans (h.other hp id' hne)
    mem := fun id' hne hid => mem_eraseRecv.mpr ⟨hne, h.mem id' hne hid⟩
    fresh := fun id' hid =>
      (h.fresh id' (mem_eraseRecv.mp hid).2).imp_left fun h => ⟨h.1, fun heq => absurd heq (mem_eraseRecv.mp hid).1⟩ }

theorem Changed.kept (hk : RecvKept u t)
    (hat : u.Pooled → ∀ id', t.recvAt id' = u.recvAt id') : Changed s t id after received credits := by
  refine ⟨hk.side.trans h.side, fun dir => (h.next dir).trans (hk.next dir), fun dir => (h.maxRemote dir).trans (hk.maxRemote dir),
    hk.window.trans h.streamWindow, by rw [hk.incoming]; exact h.window, fun hr => by rw [hk.incoming]; exact h.dataRecvd hr,
    by rw [hk.incoming]; exact h.localMaxData, by rw [hk.incoming]; exact h.debt, fun hp => hk.pooled (h.pooled hp),
    fun hp => (hat (h.pooled hp) id).trans (h.self hp), fun hp id' hne => (hat (h.pooled hp) id').trans (h.other hp id' hne),
    fun id' hne hid => hk.mem id' (h.mem id' hne hid), fun id' hid => ?_⟩
  rcases hk.fresh id' hid with hid | ⟨hn, hk', hb⟩
  · exact (h.fresh id' hid).imp_right fun ⟨hn, hk', hb⟩ => ⟨hn, hk'.mono hk.side hk.next hk.maxRemote, hb⟩
  · exact .inr ⟨fun hks => hn (hks.mono h.side h.next h.maxRemote), hk', fun hi => hb (hi.trans h.side.symm)⟩

theorem Changed.grown {drop : Dir → Nat} (hg : Grown u t drop) : Changed s t id after received credits :=
  h.kept hg.recvKept hg.recvAt

theorem Changed.touched (notify : Bool) (id₀ : StreamId) :
    Changed s (u.onStreamFrame notify id₀) id after received credits := by
  refine h.kept (recvKept_onStreamFrame notify) fun _ id' => ?_
  rw [StreamsState.recvAt, onStreamFrame_incoming]
  rfl

end

theorem Changed.freed (h : Changed s u id none received credits) {rs : Recv} (hf : u.streamRecvFreed id (.open_ rs) = some t) :
    Changed s t id none received credits :=
  h.grown (grown_streamRecvFreed hf)

theorem Changed.counted (h : Changed s u id after 0 credits) (newBytes : Nat) :
    Changed s { u with dataRecvd := saturatingAdd u.dataRecvd newBytes } id after newBytes credits := by
  refine { h with
    dataRecvd := fun hr => ?_
    pooled := fun hp => ⟨(h.pooled hp).free, (h.pooled hp).entry⟩ }
  have hdata : u.dataRecvd = s.dataRecvd := h.dataRecvd (le_self_add.trans hr)
  rw [hdata, saturatingAdd_of_le hr]

theorem Changed.credited (h : Changed s u id after received 0) {transmit : Bool}
    (hadd : u.addReadCredits credits = some (t, transmit)) : Changed s t id after received credits := by
  have hc := credited_addReadCredits hadd
  have hrecv : t.recv = u.recv := by rw [hc.eq]
  have hside : t.side = u.side := by rw [hc.eq]
  have hnext : t.next = u.next := by rw [hc.eq]
  have hmax : t.maxRemote = u.maxRemote := by rw [hc.eq]
  have hat : ∀ id', t.recvAt id' = u.recvAt id' := fun id' => by
    rw [StreamsState.recvAt, hrecv]
    rfl
  refine ⟨hside.trans h.side, fun dir => by rw [hnext]; exact h.next dir, fun dir => by rw [hmax]; exact h.maxRemote dir,
    by rw [hc.eq]; exact h.streamWindow, by rw [hc.eq]; exact h.window, fun hr => by rw [hc.eq]; exact h.dataRecvd hr, ?_, ?_,
    fun hp => ⟨by rw [hc.eq]; exact (h.pooled hp).free, by rw [hc.eq]; exact (h.pooled hp).entry⟩,
    fun hp => (hat id).trans (h.self hp), fun hp id' hne => (hat id').trans (h.other hp id' hne),
    fun id' hne hid => hrecv ▸ h.mem id' hne hid, fun id' hid => ?_⟩
  · have hl : u.localMaxData = s.localMaxData := h.localMaxData
    have hd : u.receiveWindowShrinkDebt = s.receiveWindowShrinkDebt := h.debt
    rw [hc.localMaxData, hl, hd]
  · have hd : u.receiveWindowShrinkDebt = s.receiveWindowShrinkDebt := h.debt
    rw [hc.debt, hd]
  · rw [hrecv] at hid
    refine (h.fresh id' hid).imp_right ?_
    rintro ⟨hn, hk', hb⟩
    exact ⟨hn, hk'.mono hside (fun dir => by rw [hnext]) (fun dir => by rw [hmax]), hb⟩

end StreamsState

/-! A receiving half and its history: the frames that it took, the sizes that they declared, and the chunks
    that the application was handed. -/

open List

/-- What was taken from the peer on a stream, and what the application was handed of it. -/
structure Log where
  inserted : List Chunk
  delivered : List Chunk
  ends : List Nat
  sizes : List Nat

namespace Log

def empty : Log := ⟨[], [], [], []⟩

def take (log : Log) (frame : StreamFrame) : Log :=
  { log with ends := log.ends ++ [frame.end_], sizes := log.sizes ++ if frame.fin then [frame.end_] else [] }

def store (log : Log) (frame : StreamFrame) : Log :=
  { log.take frame with inserted := log.inserted ++ [⟨frame.offset, frame.data⟩] }

def declare (log : Log) (size : Nat) : Log := { log with sizes := log.sizes ++ [size] }

def read (log : Log) (chunks : List Chunk) : Log := { log with delivered := log.delivered ++ chunks }

/-- There is one final size, and nothing that was taken lies beyond it. -/
def Consistent (log : Log) : Prop :=
  (∀ n ∈ log.sizes, ∀ m ∈ log.sizes, n = m) ∧ ∀ n ∈ log.sizes, ∀ o ∈ log.ends, o ≤ n

variable {log : Log} {frame : StreamFrame} {n : Nat}

theorem mem_ends_take : n ∈ (log.take frame).ends ↔ n ∈ log.ends ∨ n = frame.end_ :=
  mem_append.trans (or_congr_right mem_singleton)

theorem mem_sizes_take : n ∈ (log.take frame).sizes ↔ n ∈ log.sizes ∨ frame.fin = true ∧ n = frame.end_ := by
  unfold take
  cases frame.fin <;> simp

theorem mem_sizes_declare {size : Nat} : n ∈ (log.declare size).sizes ↔ n ∈ log.sizes ∨ n = size :=
  mem_append.trans (or_congr_right mem_singleton)

theorem consistent_of_all (size : Nat) (hsizes : ∀ n ∈ log.sizes, n = size) (hends : ∀ o ∈ log.ends, o ≤ size) :
    log.Consistent :=
  ⟨fun n hn m hm => (hsizes n hn).trans (hsizes m hm).symm, fun n hn o ho => hsizes n hn ▸ hends o ho⟩

theorem consistent_of_none (h : log.sizes = []) : log.Consistent := by
  unfold Consistent
  rw [h]
  exact ⟨fun n hn => (by cases hn), fun n hn => (by cases hn)⟩

theorem read_nil (log : Log) : log.read [] = log := by
  unfold read
  rw [append_nil]

end Log

namespace Chunks
open Assembler

variable {a b : Assembler} {ordered : Bool} {reads : List Nat} {got inserted delivered : List Chunk}

theorem frames_reads : ∀ reads : List Nat, frames (reads.map .read) = []
  | [] => rfl
  | _ :: reads => frames_reads reads

theorem cleanRun_reads : ∀ (reads : List Nat) (s : Assembler × List Chunk), CleanRun s (reads.map .read)
  | [], _ => trivial
  | _ :: reads, _ => ⟨trivial, fun t _ => cleanRun_reads reads t⟩

theorem Reads.keeps_ordered (hr : Reads true a reads b got) (h : Ordered a inserted delivered) :
    Ordered b inserted (delivered ++ got) := by
  obtain ⟨t, chunks, hrun, ht⟩ := h.run (reads.map .read)
  obtain ⟨rfl, rfl⟩ := Prod.mk.inj (some.inj ((hr delivered).symm.trans hrun))
  rwa [frames_reads, append_nil] at ht

theorem Reads.keeps_unordered {recvd : RangeSet} (hr : Reads false a reads b got) (h : Unordered a recvd inserted delivered) :
    ∃ recvd', Unordered b recvd' inserted (delivered ++ got) := by
  obtain ⟨t, recvd', chunks, hrun, ht⟩ := h.run (reads.map .read) (cleanRun_reads reads _)
  obtain ⟨rfl, rfl⟩ := Prod.mk.inj (some.inj ((hr delivered).symm.trans hrun))
  rw [frames_reads, append_nil] at ht
  exact ⟨recvd', ht⟩

theorem read_of_nil (h : a.data.toList = []) (maxLength : Nat) : a.read maxLength ordered = some (a, none) := by
  unfold Assembler.read MaxHeap.len
  rw [h]
  rfl

theorem run_of_nil (h : a.data.toList = []) : ∀ (reads : List Nat) (before : List Chunk),
    run ordered (a, before) (reads.map .read) = some (a, before)
  | [], _ => rfl
  | maxLength :: reads, before => by
    rw [map_cons, run, step, read_of_nil h]
    exact (congrArg (fun l => run ordered (a, l) _) (append_nil before)).trans (run_of_nil h reads before)

theorem Reads.of_nil (h : a.data.toList = []) (hr : Reads ordered a reads b got) : b = a ∧ got = [] := by
  obtain ⟨rfl, hgot⟩ := Prod.mk.inj (some.inj ((hr []).symm.trans (run_of_nil h reads [])))
  exact ⟨rfl, hgot⟩

end Chunks

namespace Assembler

variable {a b c : Assembler} {log : Log} {frame : StreamFrame} {ordered : Bool}

/-- The assembler and the log agree, in either mode. -/
def Delivers (a : Assembler) (log : Log) : Prop :=
  Ordered a log.inserted log.delivered ∨ ∃ recvd, Unordered a recvd log.inserted log.delivered

theorem Delivers.delivery (h : Delivers a log) : Delivery a log.inserted log.delivered :=
  h.elim Ordered.toDelivery fun ⟨_, h⟩ => h.toDelivery

theorem Delivers.once (h : Delivers a log) (o : Nat) : cover (chunkSpans log.delivered) o ≤ 1 :=
  h.elim (fun h => h.once o) fun ⟨_, h⟩ => h.delivered_once o

theorem Delivers.insert (h : Delivers a log) {payloadLen : Nat}
    (hclean : Clean a (.insert ⟨frame.offset, frame.data⟩ payloadLen))
    (hb : a.insert frame.offset frame.data payloadLen = some b) : Delivers b (log.store frame) := by
  rcases h with h | ⟨recvd, h⟩
  · obtain ⟨t, ht, h⟩ := h.insert ⟨frame.offset, frame.data⟩ payloadLen
    obtain rfl := some.inj (hb.symm.trans ht)
    exact .inl h
  simp only [Clean, h.state] at hclean
  obtain ⟨t, recvd', ht, h⟩ := h.insert ⟨frame.offset, frame.data⟩ payloadLen hclean
  obtain rfl := some.inj (hb.symm.trans ht)
  exact .inr ⟨recvd', h⟩

theorem ensureOrdering_ok (h : a.ensureOrdering ordered = .ok b) :
    b = a ∧ a.state.isOrdered = ordered ∨ ordered = false ∧ a.state.isOrdered = true := by
  unfold ensureOrdering at h
  cases ordered <;> cases hs : a.state.isOrdered <;> simp only [hs] at h
  · exact .inl ⟨(Except.ok.inj h).symm, rfl⟩
  · exact .inr ⟨rfl, rfl⟩
  · cases h
  · exact .inl ⟨(Except.ok.inj h).symm, rfl⟩

theorem Delivers.reads (h : Delivers a log) {reads : List Nat} {got : List Chunk}
    (hlow : ordered = false → a.state.isOrdered = true → ∀ x ∈ a.data.toList, a.bytesRead ≤ x.offset)
    (hb : a.ensureOrdering ordered = .ok b) (hr : Chunks.Reads ordered b reads c got) : Delivers c (log.read got) := by
  rcases h with h | ⟨recvd, h⟩
  · rcases ensureOrdering_ok hb with ⟨rfl, hs⟩ | ⟨rfl, hs⟩
    · rw [h.state] at hs
      obtain rfl := hs
      exact .inl (hr.keeps_ordered h)
    obtain ⟨t, recvd, ht, -, -, -, hu⟩ := h.switch (hlow rfl hs)
    obtain rfl := Except.ok.inj (hb.symm.trans ht)
    exact .inr (hr.keeps_unordered hu)
  rcases ensureOrdering_ok hb with ⟨rfl, hs⟩ | ⟨rfl, hs⟩
  · rw [h.state] at hs
    obtain rfl := hs
    exact .inr (hr.keeps_unordered h)
  rw [h.state] at hs
  cases hs

theorem Delivers.idle (h : Delivers a log) (hnil : log.inserted = []) : a.data.toList = [] := by
  have hd := h.delivery
  refine eq_nil_iff_forall_not_mem.mpr fun b hb => ?_
  obtain ⟨v, hv⟩ := exists_cell_iff.mpr ⟨le_rfl, Nat.lt_add_of_pos_right (length_pos_of_ne_nil (hd.tidy.solid b hb))⟩
  obtain ⟨f, hf, -⟩ := hd.origin b.offset v ⟨b, hb, hv⟩
  rw [hnil] at hf
  cases hf

theorem ensureOrdering_of_nil (hnil : a.data.toList = []) (h : a.ensureOrdering ordered = .ok b) :
    b.data.toList = [] ∧ b.bytesRead = a.bytesRead := by
  rcases ensureOrdering_ok h with ⟨rfl, -⟩ | ⟨rfl, hs⟩
  · exact ⟨hnil, rfl⟩
  unfold ensureOrdering at h
  rw [hs, if_neg (by decide), if_pos (by decide), if_pos (MaxHeap.isEmpty_iff.mpr hnil)] at h
  cases h
  exact ⟨hnil, rfl⟩

end Assembler

namespace Recv

variable {rs rs' : Recv} {log log' : Log} {after : Option Recv} {received credits : Nat} {e : Event} {size : Option Nat}

structure Good (rs : Recv) (log : Log) : Prop where
  small : rs.end_ < 2 ^ 62
  top : rs.end_ = 0 ∨ rs.end_ ∈ log.ends
  ends : ∀ n ∈ log.ends, n ≤ rs.end_
  inserted : ∀ c ∈ log.inserted, c.offset + c.bytes.length ≤ rs.end_
  sizes : ∀ n, n ∈ log.sizes ↔ rs.finalOffset = some n
  within : ∀ n, rs.finalOffset = some n → rs.end_ ≤ n
  /-- The end that was received is the final one, as soon as that is known from a STREAM frame. -/
  full : ∀ n, rs.state = .recv (some n) → rs.end_ = n
  stopped : rs.stopped = true → rs.state = .recv none
  bytesRead : rs.assembler.bytesRead = total (chunkSpans log.delivered)
  once : ∀ o, cover (chunkSpans log.delivered) o ≤ 1
  origin : ∀ o v, Carries log.delivered o v → Carries log.inserted o v
  alive : rs.live = true → rs.assembler.Delivers log
  dead : rs.live = false → rs.assembler.data.toList = []

theorem good_new (initialMaxData : Nat) : Good (new initialMaxData) .empty where
  small := Nat.two_pow_pos 62
  top := .inl rfl
  ends _ hn := by cases hn
  inserted _ hc := by cases hc
  sizes _ := iff_of_false not_mem_nil nofun
  within _ hn := by cases hn
  full _ hn := by cases hn
  stopped hs := by cases hs
  bytesRead := rfl
  once _ := zero_le
  origin _ _ h := h
  alive _ := .inl Assembler.ordered_new
  dead h := by cases h

section
variable (h : Good rs log)
include h

theorem Good.alike (ha : Alike rs rs') : Good rs' log := by
  obtain ⟨state, assembler, sent, end_, stopped⟩ := rs
  obtain ⟨rfl, rfl, rfl, rfl⟩ := ha
  exact { h with }

theorem Good.delivered_lt {o : Nat} (ho : 0 < cover (chunkSpans log.delivered) o) : o < rs.end_ := by
  obtain ⟨v, hv⟩ := Assembler.exists_carries_iff.mpr ho
  obtain ⟨c, hc, hv⟩ := h.origin o v hv
  exact hv.inSpan.2.trans_le (h.inserted c hc)

theorem Good.bytesRead_le : rs.assembler.bytesRead ≤ rs.end_ := by
  rw [h.bytesRead]
  exact total_le (fun _ => h.delivered_lt) h.once

theorem Good.sizes_nil (hn : rs.finalOffset = none) : log.sizes = [] :=
  eq_nil_iff_forall_not_mem.mpr fun n hm => by cases hn.symm.trans ((h.sizes n).mp hm)

theorem Good.consistent : log.Consistent := by
  cases hs : rs.finalOffset with
  | none => exact Log.consistent_of_none (h.sizes_nil hs)
  | some size =>
    exact Log.consistent_of_all size (fun n hn => some.inj (((h.sizes n).mp hn).symm.trans hs))
      fun o ho => (h.ends o ho).trans (h.within size hs)

theorem Good.idle (hnil : log.inserted = []) : rs.assembler.data.toList = [] := by
  cases hl : rs.live with
  | true => exact (h.alive hl).idle hnil
  | false => exact h.dead hl

end

/-- What an event about a stream does to its half and its log, counting the bytes that are received and the
    credit that is returned for it. -/
inductive Effect (rs : Recv) (log : Log) : Event → Option Recv → Log → Nat → Nat → Prop
  | stored {frame : StreamFrame} {payloadLen : Nat} {size : Option Nat} {a : Assembler} :
      rs.stopped = false → rs.state = .recv size → frame.end_ < 2 ^ 62 →
      (∀ n, size = some n → frame.end_ ≤ n ∧ (frame.fin = true → frame.end_ = n)) →
      rs.assembler.insert frame.offset frame.data payloadLen = some a →
      Effect rs log (.frame (.stream frame payloadLen))
        (some { rs with state := .recv (if frame.fin then some frame.end_ else size), assembler := a
                        end_ := max rs.end_ frame.end_ })
        (log.store frame) (frame.end_ - rs.end_) 0
  | skipped {frame : StreamFrame} {payloadLen : Nat} {size : Option Nat} :
      rs.stopped = true → rs.state = .recv size → frame.end_ < 2 ^ 62 →
      Effect rs log (.frame (.stream frame payloadLen))
        (if frame.fin then none else some { rs with end_ := max rs.end_ frame.end_ })
        (log.take frame) (frame.end_ - rs.end_) (frame.end_ - rs.end_)
  | redundant {frame : ResetStream} : rs.isReceiving = false → rs.finalOffset = some frame.finalOffset →
      Effect rs log (.frame (.resetStream frame)) (some rs) (log.declare frame.finalOffset) 0 0
  | reset {frame : ResetStream} {received credits : Nat} : rs.isReceiving = true →
      (∀ n, rs.finalOffset = some n → n = frame.finalOffset) → (rs.finalOffset = none → rs.end_ ≤ frame.finalOffset) →
      rs.assembler.bytesRead = frame.finalOffset ∧ received = 0 ∧ credits = 0 ∨
        frame.finalOffset = rs.end_ + received ∧ frame.finalOffset = rs.assembler.bytesRead + credits →
      Effect rs log (.frame (.resetStream frame))
        (if rs.stopped then none
          else some { rs with state := .resetRecvd frame.finalOffset frame.errorCode, assembler := rs.assembler.clear })
        (log.declare frame.finalOffset) received credits
  | stopped {id : StreamId} {errorCode credits : Nat} : rs.stopped = false → rs.end_ = rs.assembler.bytesRead + credits →
      Effect rs log (.recv id (.stop errorCode))
        (if rs.finalOffsetUnknown then some { rs with stopped := true, assembler := rs.assembler.clear } else none)
        log 0 credits
  | read {id : StreamId} {ordered : Bool} {maxLengths reads : List Nat} {a b : Assembler} {got : List Chunk}
      {after : Option Recv} : rs.stopped = false → rs.assembler.ensureOrdering ordered = .ok a →
      Chunks.Reads ordered a reads b got →
      after = some { rs with assembler := b } ∨ after = none ∧ Chunks.AtEnd { rs with assembler := b } →
      Effect rs log (.recv id (.read ordered maxLengths)) after (log.read got) 0 (total (chunkSpans got))
  | lost {id : StreamId} {ordered : Bool} {maxLengths : List Nat} {error : IllegalOrderedRead} : rs.stopped = false →
      rs.assembler.ensureOrdering ordered = .error error →
      Effect rs log (.recv id (.read ordered maxLengths)) none log 0 0
  | observed {id : StreamId} : rs.isReceiving = false → rs.stopped = false →
      Effect rs log (.recv id .checkReset) none log 0 0

/-- A FIN does not declare a size below what was received. Data that is stored does not meet an empty range of
    the received set, and reading goes out of order only when nothing below the read offset is buffered. -/
def Orderly (rs : Recv) : Event → Prop
  | .frame (.stream frame payloadLen) =>
    (frame.fin = true → rs.state = .recv none → rs.end_ ≤ frame.end_) ∧
      (rs.live = true → rs.assembler.Clean (.insert ⟨frame.offset, frame.data⟩ payloadLen))
  | .recv _ (.read ordered _) => ordered = false → rs.live = true → rs.assembler.state.isOrdered = true →
    ∀ b ∈ rs.assembler.data.toList, rs.assembler.bytesRead ≤ b.offset
  | _ => True

instance (rs : Recv) : DecidablePred rs.Orderly := fun e => by
  delta Orderly
  -- Unlike `cases`, `casesOn` leaves no casts in the instance.
  induction e using Event.casesOn <;> first | infer_instance |
    rename_i x; first | induction x using Frame.casesOn <;> infer_instance | induction x using RecvCall.casesOn <;> infer_instance

theorem live_of_recv (hs : rs.stopped = false) (h : rs.state = .recv size) : rs.live = true := by
  unfold live isReceiving
  rw [hs, h]
  rfl

theorem finalOffset_of_recv (h : rs.state = .recv size) : rs.finalOffset = size := by
  unfold finalOffset
  rw [h]

theorem finalOffsetUnknown_iff : rs.finalOffsetUnknown = true ↔ rs.state = .recv none := beq_iff_eq

theorem not_live_of_stopped (hs : rs.stopped = true) : rs.live = false := by
  unfold live
  rw [hs]
  exact Bool.and_false _

theorem isReceiving_of_live (hl : rs.live = true) : rs.isReceiving = true ∧ rs.stopped = false := by
  unfold live at hl
  simpa using hl

section
variable (h : Good rs log)
include h

theorem Good.top_take : max rs.end_ frame.end_ = 0 ∨ max rs.end_ frame.end_ ∈ (log.take frame).ends := by
  rcases le_total rs.end_ frame.end_ with hle | hle
  · rw [max_eq_right hle]
    exact .inr (Log.mem_ends_take.mpr (.inr rfl))
  rw [max_eq_left hle]
  exact h.top.imp_right fun hm => Log.mem_ends_take.mpr (.inl hm)

theorem Good.store {payloadLen : Nat} {a : Assembler}
    (hs : rs.stopped = false) (hstate : rs.state = .recv size) (hsm : frame.end_ < 2 ^ 62)
    (hsize : ∀ n, size = some n → frame.end_ ≤ n ∧ (frame.fin = true → frame.end_ = n))
    (ha : rs.assembler.insert frame.offset frame.data payloadLen = some a)
    (hord : rs.Orderly (.frame (.stream frame payloadLen))) :
    Good { rs with state := .recv (if frame.fin then some frame.end_ else size), assembler := a
                   end_ := max rs.end_ frame.end_ } (log.store frame) := by
  have hlive := live_of_recv hs hstate
  have hfinal := finalOffset_of_recv hstate
  have hd := (h.alive hlive).insert (hord.2 hlive) ha
  -- The end that results is the final one, if that is known.
  have hend : ∀ n, (if frame.fin then some frame.end_ else size) = some n → max rs.end_ frame.end_ = n := fun n hn => by
    have hle : ∀ m, size = some m → rs.end_ = m ∧ frame.end_ ≤ m := fun m hm => ⟨h.full m (hstate.trans (hm ▸ rfl)), (hsize m hm).1⟩
    split at hn
    · next hfin =>
      cases hn
      refine max_eq_right ?_
      cases size with
      | none => exact hord.1 hfin hstate
      | some m => exact ((hle m rfl).1.trans ((hsize m rfl).2 hfin).symm).le
    obtain ⟨h1, h2⟩ := hle n hn
    omega
  refine ⟨max_lt h.small hsm, h.top_take, fun n hn => ?_, fun c hc => ?_, fun n => ?_, fun n hn => (hend n hn).le,
    fun n hn => hend n (RecvState.recv.inj hn), fun hst => ?_, hd.delivery.bytesRead, hd.once, hd.delivery.exact_,
    fun _ => hd, fun hdead => ?_⟩
  · exact (Log.mem_ends_take.mp hn).elim (fun hn => (h.ends n hn).trans (le_max_left _ _)) fun hn => hn ▸ le_max_right _ _
  · rcases mem_append.mp hc with hc | hc
    · exact (h.inserted c hc).trans (le_max_left _ _)
    obtain rfl := mem_singleton.mp hc
    exact le_max_right _ _
  · show n ∈ (log.take frame).sizes ↔ (if frame.fin then some frame.end_ else size) = some n
    rw [Log.mem_sizes_take, h.sizes, hfinal]
    by_cases hfin : frame.fin = true
    · rw [if_pos hfin, some.injEq]
      exact ⟨fun hn => hn.elim (fun hn => (hsize n hn).2 hfin) fun hn => hn.2.symm, fun hn => .inr ⟨hfin, hn.symm⟩⟩
    rw [if_neg hfin]
    exact or_iff_left fun hn => hfin hn.1
  · cases hs.symm.trans hst
  · cases hdead.symm.trans (live_of_recv hs rfl)

theorem Good.skip (hs : rs.stopped = true) (hsm : frame.end_ < 2 ^ 62)
    (hfin : frame.fin = false) : Good { rs with end_ := max rs.end_ frame.end_ } (log.take frame) := by
  have hstate := h.stopped hs
  have hnone := finalOffset_of_recv hstate
  refine ⟨max_lt h.small hsm, h.top_take, fun n hn => ?_, fun c hc => (h.inserted c hc).trans (le_max_left _ _), fun n => ?_,
    fun n hn => ?_, fun n hn => ?_, h.stopped, h.bytesRead, h.once, h.origin, fun hl => ?_, h.dead⟩
  · exact (Log.mem_ends_take.mp hn).elim (fun hn => (h.ends n hn).trans (le_max_left _ _)) fun hn => hn ▸ le_max_right _ _
  · rw [Log.mem_sizes_take, or_iff_left fun hn => by cases hfin.symm.trans hn.1]
    exact h.sizes n
  · cases hnone.symm.trans hn
  · cases hstate.symm.trans hn
  · exact absurd hl (Bool.eq_false_iff.mp (not_live_of_stopped hs))

theorem Good.reset {frame : ResetStream} (hs : rs.stopped = false)
    (hkn : ∀ n, rs.finalOffset = some n → n = frame.finalOffset)
    (hunk : rs.finalOffset = none → rs.end_ ≤ frame.finalOffset) :
    Good { rs with state := .resetRecvd frame.finalOffset frame.errorCode, assembler := rs.assembler.clear }
      (log.declare frame.finalOffset) := by
  refine ⟨h.small, h.top, h.ends, h.inserted, fun n => ?_, fun n hn => ?_, fun n hn => (by cases hn), fun hst => ?_, h.bytesRead,
    h.once, h.origin, fun hl => (by cases hl), fun _ => rfl⟩
  · show _ ↔ some frame.finalOffset = some n
    rw [Log.mem_sizes_declare, h.sizes, some.injEq]
    exact ⟨fun hn => hn.elim (fun hn => (hkn n hn).symm) Eq.symm, fun hn => .inr hn.symm⟩
  · obtain rfl := some.inj hn
    cases hf : rs.finalOffset with
    | none => exact hunk hf
    | some m => exact hkn m hf ▸ h.within m hf
  · cases hs.symm.trans hst

theorem Good.stop (hstate : rs.state = .recv none) :
    Good { rs with stopped := true, assembler := rs.assembler.clear } log :=
  { h with
    stopped := fun _ => hstate
    alive := fun hl => absurd hl (Bool.eq_false_iff.mp (not_live_of_stopped rfl))
    dead := fun _ => rfl }

theorem Good.read {id : StreamId} {maxLengths reads : List Nat} {a b : Assembler}
    {got : List Chunk} (hord : rs.Orderly (.recv id (.read ordered maxLengths)))
    (ha : rs.assembler.ensureOrdering ordered = .ok a) (hr : Chunks.Reads ordered a reads b got) :
    Good { rs with assembler := b } (log.read got) ∧ (rs.live = false → got = []) := by
  cases hl : rs.live with
  | true =>
    have hd : b.Delivers (log.read got) := (h.alive hl).reads (fun ho => hord ho hl) ha hr
    exact ⟨⟨h.small, h.top, h.ends, h.inserted, h.sizes, h.within, h.full, h.stopped, hd.delivery.bytesRead, hd.once,
      hd.delivery.exact_, fun _ => hd, fun hdead => by cases hl.symm.trans hdead⟩, nofun⟩
  | false =>
    obtain ⟨hnil, hread⟩ := Assembler.ensureOrdering_of_nil (h.dead hl) ha
    obtain ⟨rfl, rfl⟩ := hr.of_nil hnil
    rw [Log.read_nil]
    exact ⟨{ h with bytesRead := hread.trans h.bytesRead, alive := fun hlive => (by cases hl.symm.trans hlive)
                    dead := fun _ => hnil }, fun _ => rfl⟩

theorem Good.effect (hord : rs.Orderly e) (he : Effect rs log e after log' received credits) :
    (∀ rs', after = some rs' → Good rs' log') ∧ log'.Consistent := by
  -- Where the half is kept, its agreement with the log is all there is to show.
  have hkept : ∀ {rs₁ log₁}, Good rs₁ log₁ → (∀ rs', some rs₁ = some rs' → Good rs' log₁) ∧ log₁.Consistent :=
    fun hg => ⟨fun rs' heq => some.inj heq ▸ hg, hg.consistent⟩
  have hgone : ∀ {log₁ : Log}, log₁.Consistent → (∀ rs', none = some rs' → Good rs' log₁) ∧ log₁.Consistent :=
    fun hc => ⟨fun rs' heq => (by cases heq), hc⟩
  cases he with
  | stored hs hstate hsm hsize ha => exact hkept (h.store hs hstate hsm hsize ha hord)
  | @skipped frame payloadLen size hs hstate hsm =>
    cases hfin : frame.fin with
    | false => exact hkept (h.skip hs hsm hfin)
    | true =>
      have hend := hord.1 hfin (h.stopped hs)
      have hnil := h.sizes_nil (finalOffset_of_recv (h.stopped hs))
      refine hgone (Log.consistent_of_all frame.end_ (fun n hn => ?_) fun o ho => ?_)
      · rcases Log.mem_sizes_take.mp hn with hn | ⟨-, hn⟩
        · rw [hnil] at hn
          cases hn
        · exact hn
      · exact (Log.mem_ends_take.mp ho).elim (fun ho => (h.ends o ho).trans hend) fun ho => ho.le
  | @redundant frame hr hsize =>
    refine hkept { h with sizes := fun n => ?_ }
    rw [Log.mem_sizes_declare, h.sizes, hsize, some.injEq]
    exact ⟨fun hn => hn.elim id Eq.symm, fun hn => .inl hn⟩
  | @reset frame _ _ hr hkn hunk hbal =>
    split
    · next hs =>
      have hnone := finalOffset_of_recv (h.stopped hs)
      refine hgone (Log.consistent_of_all frame.finalOffset (fun n hn => ?_) fun o ho => ?_)
      · rcases Log.mem_sizes_declare.mp hn with hn | hn
        · rw [h.sizes_nil hnone] at hn
          cases hn
        · exact hn
      · exact (h.ends o ho).trans (hunk hnone)
    · next hs => exact hkept (h.reset (Bool.eq_false_iff.mpr hs) hkn hunk)
  | stopped hs hcred =>
    split
    · next hf => exact hkept (h.stop (finalOffsetUnknown_iff.mp hf))
    · exact hgone h.consistent
  | read hs ha hr haft =>
    obtain ⟨hg, -⟩ := h.read hord ha hr
    rcases haft with rfl | ⟨rfl, -⟩
    · exact hkept hg
    · exact hgone hg.consistent
  | lost hs ha | observed hr hs => exact hgone h.consistent

end

theorem Effect.quiet (he : Effect rs log e after log' received credits) (h : Good rs log) (hnil : log.inserted = [])
    (hcall : ∀ frame, e ≠ .frame frame) : log' = log := by
  cases he with
  | stored | skipped | redundant | reset => exact absurd rfl (hcall _)
  | stopped | lost | observed => rfl
  | read hs ha hr haft =>
    obtain ⟨hdata, -⟩ := Assembler.ensureOrdering_of_nil (h.idle hnil) ha
    obtain ⟨-, rfl⟩ := hr.of_nil hdata
    exact log.read_nil

end Recv
end SaorsaTransport
