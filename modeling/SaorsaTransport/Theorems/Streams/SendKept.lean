import SaorsaTransport.Theorems.Streams.RecvCases
import SaorsaTransport.Pending

/-! Most of what happens to a connection leaves alone what was written, sent and acknowledged. -/

namespace SaorsaTransport
open Library ControlWriter Option Function

/-- The two agree in what was written, sent and finished, and the limit did not fall. -/
structure Send.Alike (a b : Send) : Prop where
  state : b.state = a.state
  pending : b.pending = a.pending
  finPending : b.finPending = a.finPending
  maxData : a.maxData ≤ b.maxData

theorem Send.Alike.refl (a : Send) : Send.Alike a a := ⟨rfl, rfl, rfl, le_rfl⟩

theorem Send.Alike.trans {a b c : Send} (h₁ : Send.Alike a b) (h₂ : Send.Alike b c) : Send.Alike a c :=
  ⟨h₂.state.trans h₁.state, h₂.pending.trans h₁.pending, h₂.finPending.trans h₁.finPending, h₁.maxData.trans h₂.maxData⟩

instance : Std.Refl Send.Alike := ⟨.refl⟩

instance : IsTrans Send Send.Alike := ⟨fun _ _ _ => .trans⟩

/-- What a half, or a new one in its place, may become while nothing happens to it that matters. -/
inductive Touched {α : Type} (alike : α → α → Prop) (new : α) : Option α → Option α → Prop
  | none : Touched alike new none none
  | created {b : α} : alike new b → Touched alike new none (some b)
  | some {a b : α} : alike a b → Touched alike new (some a) (some b)

section
variable {α : Type} {alike : α → α → Prop} {new : α}

theorem Touched.refl [Std.Refl alike] : ∀ a, Touched alike new a a
  | Option.none => .none
  | Option.some a => .some (Std.Refl.refl a)

theorem Touched.trans [IsTrans α alike] {a b c : Option α} (h₁ : Touched alike new a b) (h₂ : Touched alike new b c) :
    Touched alike new a c := by
  cases h₁ with
  | none => exact h₂
  | created h => cases h₂ with | some h' => exact .created (IsTrans.trans _ _ _ h h')
  | some h => cases h₂ with | some h' => exact .some (IsTrans.trans _ _ _ h h')

end

namespace StreamsState

variable {s t u : StreamsState} {id : StreamId} {U : StreamId → Prop}

def Known (s : StreamsState) (id : StreamId) : Prop :=
  id.index < if id.initiator = s.side then s.next id.dir else s.maxRemote id.dir

/-- Nothing was written, sent or acknowledged between `s` and `t`. Halves were created for streams of `U`
    only. -/
structure SendKept (U : StreamId → Prop) (s t : StreamsState) : Prop where
  side : t.side = s.side
  outgoing : t.toOutgoing = { s.toOutgoing with
    send := t.send, next := t.next, max := t.max, sendStreams := t.sendStreams, connectionBlocked := t.connectionBlocked }
  next : ∀ dir, s.next dir ≤ t.next dir
  maxRemote : ∀ dir, s.maxRemote dir ≤ t.maxRemote dir
  sendAt : ∀ id, Touched Send.Alike (Send.new (s.maxSendData id)) (s.sendAt id) (t.sendAt id)
  created : ∀ id, s.sendAt id = none → t.sendAt id ≠ none → U id
  mem : ∀ id, id ∈ s.send → id ∈ t.send
  fresh : ∀ id, id ∈ t.send → id ∈ s.send ∨ ¬s.Known id ∧ t.Known id

theorem Known.mono (hside : t.side = s.side) (hnext : ∀ dir, s.next dir ≤ t.next dir)
    (hmax : ∀ dir, s.maxRemote dir ≤ t.maxRemote dir) (h : s.Known id) : t.Known id := by
  unfold Known at *
  rw [hside]
  split
  · next hi =>
    rw [if_pos hi] at h
    exact h.trans_le (hnext _)
  next hi =>
  rw [if_neg hi] at h
  exact h.trans_le (hmax _)

theorem SendKept.maxSendData (h : SendKept U s t) (id : StreamId) : t.maxSendData id = s.maxSendData id := by
  unfold StreamsState.maxSendData
  rw [h.side, h.outgoing]

theorem SendKept.trans (h₁ : SendKept U s t) (h₂ : SendKept U t u) : SendKept U s u where
  side := h₂.side.trans h₁.side
  outgoing := by rw [h₂.outgoing, h₁.outgoing]
  next dir := (h₁.next dir).trans (h₂.next dir)
  maxRemote dir := (h₁.maxRemote dir).trans (h₂.maxRemote dir)
  sendAt id := (h₁.sendAt id).trans (h₁.maxSendData id ▸ h₂.sendAt id)
  created id hs hu := by
    by_cases ht : t.sendAt id = none
    · exact h₂.created id ht hu
    · exact h₁.created id hs ht
  mem id hid := h₂.mem id (h₁.mem id hid)
  fresh id hid := by
    rcases h₂.fresh id hid with ht | ⟨hn, hk⟩
    · rcases h₁.fresh id ht with hs | ⟨hn, hk⟩
      · exact .inl hs
      · exact .inr ⟨hn, hk.mono h₂.side h₂.next h₂.maxRemote⟩
    · exact .inr ⟨fun hk' => hn (hk'.mono h₁.side h₁.next h₁.maxRemote), hk⟩

/-- The sending side, up to the bookkeeping of streams that may still be opened, did not change at all. -/
theorem sendKept_of_eq (hside : t.side = s.side) (hout : t.toOutgoing = s.toOutgoing)
    (hmax : t.maxRemote = s.maxRemote) : SendKept U s t := by
  have hsend := congrArg Outgoing.send hout
  have hat : ∀ id, t.sendAt id = s.sendAt id := fun id => by rw [StreamsState.sendAt, hsend]; rfl
  refine ⟨hside, ?_, fun dir => ?_, fun dir => ?_, fun id => hat id ▸ .refl _, fun id hs ht => ?_, fun id hid => ?_,
    fun id hid => ?_⟩
  · rw [hout]
  · rw [hout]
  · rw [hmax]
  · exact absurd ((hat id).trans hs) ht
  · rwa [hsend]
  · exact .inl (hsend ▸ hid)

theorem SendKept.refl (s : StreamsState) : SendKept U s s := sendKept_of_eq rfl rfl rfl

theorem Grown.sendKept {drop : Dir → Nat} (h : Grown s t drop) : SendKept U s t where
  side := h.side
  outgoing := by rw [h.outgoing]
  next dir := by rw [h.outgoing]
  maxRemote := h.maxRemote
  sendAt id := h.sendAt id ▸ .refl _
  created id hs ht := absurd ((h.sendAt id).trans hs) ht
  mem id hid := (h.mem_send id).mpr (.inl hid)
  fresh id hid := by
    refine ((h.mem_send id).mp hid).imp_right fun hn => ?_
    obtain ⟨⟨hi, h1, h2⟩, -⟩ := hn
    have hne := hi ▸ Side.peer_ne s.side
    unfold Known
    rw [h.side, if_neg hne, if_neg hne]
    exact ⟨not_lt.mpr h1, h2⟩

theorem Credited.sendKept {credits : Nat} (h : Credited s t credits) : SendKept U s t :=
  sendKept_of_eq (by rw [h.eq]) (by rw [h.eq]) (by rw [h.eq])

section
variable (notify : Bool)
include notify

theorem onStreamFrame_outgoing : (s.onStreamFrame notify id).toOutgoing = s.toOutgoing := by
  unfold onStreamFrame
  split
  · rfl
  · split <;> rfl

theorem onStreamFrame_incoming : (s.onStreamFrame notify id).toIncoming = s.toIncoming := by
  unfold onStreamFrame
  split
  · rfl
  · split <;> rfl

theorem onStreamFrame_side : (s.onStreamFrame notify id).side = s.side := by
  unfold onStreamFrame
  split
  · rfl
  · split <;> rfl

theorem onStreamFrame_remote : (s.onStreamFrame notify id).toRemote =
    { s.toRemote with nextRemote := (s.onStreamFrame notify id).nextRemote, opened := (s.onStreamFrame notify id).opened } := by
  unfold onStreamFrame
  split
  · rfl
  · split <;> rfl

theorem sendKept_onStreamFrame : SendKept U s (s.onStreamFrame notify id) :=
  sendKept_of_eq (onStreamFrame_side notify) (onStreamFrame_outgoing notify)
    (by rw [onStreamFrame_remote])

end

theorem sendKept_setSend {entry : Option Send} {stream : Send} (hl : s.send.lookup id = some entry)
    (h : Send.Alike (getOrInsertSend (s.maxSendData id) entry) stream) : SendKept (· = id) s (s.setSend id stream) := by
  have hmem := mem_of_lookup_send hl
  have hat := sendAt_of_lookup hl
  refine ⟨rfl, rfl, fun _ => le_rfl, fun _ => le_rfl, fun id' => ?_, fun id' hs ht => ?_,
    fun id' hid => (mem_setSend stream).mpr (.inr hid),
    fun id' hid => .inl (((mem_setSend stream).mp hid).elim (fun h => h ▸ hmem) fun h => h)⟩
  · by_cases hid : id' = id
    · subst hid
      rw [sendAt_setSend_self, hat]
      cases entry with
      | none => exact .created h
      | some a => exact .some h
    rw [sendAt_setSend_ne stream hid]
    exact .refl _
  · by_contra hid
    exact ht ((sendAt_setSend_ne stream hid).trans hs)

theorem sendKept_setSend_some {a b : Send} (hl : s.sendAt id = some a) (h : Send.Alike a b) :
    SendKept U s (s.setSend id b) := by
  obtain ⟨entry, he⟩ := isSome_iff_exists.mp (AList.lookup_isSome.mpr (mem_of_sendAt hl))
  obtain rfl := (sendAt_of_lookup he).symm.trans hl
  have hk := sendKept_setSend he h
  refine { hk with created := fun id' hs ht => ?_ }
  obtain rfl := hk.created id' hs ht
  rw [hl] at hs
  cases hs

theorem SendKept.after (h₂ : SendKept U t u) (h₁ : SendKept U s t) : SendKept U s u := h₁.trans h₂

theorem SendKept.of_credits {credits : Nat} {transmit : Bool} (ht : u.addReadCredits credits = some (t, transmit))
    (h : SendKept U s u) : SendKept U s t :=
  h.trans (credited_addReadCredits ht).sendKept

variable {rs : Recv} {pending pending' : Retransmits} {r : Except TransportError Bool} {maxSize : Nat}

theorem SendKept.of_freed (ht : u.streamRecvFreed id (.open_ rs) = some t) (h : SendKept U s u) : SendKept U s t :=
  h.trans (grown_streamRecvFreed ht).sendKept

theorem sendKept_received {frame : StreamFrame} {payloadLen : Nat}
    (h : s.received frame payloadLen = some (t, r)) : SendKept U s t := by
  cases received_cases h with
  | invalid | closed => exact .refl s
  | finished | rejected => exact sendKept_of_eq rfl rfl rfl
  | taken _ _ _ _ _ => exact .after (sendKept_onStreamFrame true) (sendKept_of_eq rfl rfl rfl)
  | discarded _ _ _ _ hadd => exact .of_credits hadd (sendKept_of_eq rfl rfl rfl)
  | ended _ _ _ _ hfree hadd => exact .of_credits hadd (.of_freed hfree (sendKept_of_eq rfl rfl rfl))

theorem Settled.sendKept {finalOffset : Nat} (h : Settled s t rs finalOffset) : SendKept U s t := by
  rcases h with ⟨-, rfl⟩ | ⟨newBytes, credits, transmit, -, -, hadd⟩
  · exact .refl _
  · exact .of_credits hadd (sendKept_of_eq rfl rfl rfl)

theorem sendKept_receivedReset {frame : ResetStream} (h : s.receivedReset frame = some (t, r)) : SendKept U s t := by
  cases receivedReset_cases h with
  | invalid | closed => exact .refl s
  | rejected | redundant => exact sendKept_of_eq rfl rfl rfl
  | accepted _ _ _ _ hs => exact .after hs.sendKept (.after (sendKept_onStreamFrame true) (sendKept_of_eq rfl rfl rfl))
  | disposed _ _ _ _ hfree hs =>
    exact .after hs.sendKept (.after (sendKept_onStreamFrame false) (.of_freed hfree (sendKept_of_eq rfl rfl rfl)))

theorem sendKept_stop {errorCode : Nat} {r : Except ClosedStream Unit}
    (h : s.stop pending id errorCode = some (t, pending', r)) : SendKept U s t := by
  cases stop_cases h with
  | closed => exact .refl s
  | stopped => exact sendKept_of_eq rfl rfl rfl
  | kept _ _ _ hadd => exact .of_credits hadd (sendKept_of_eq rfl rfl rfl)
  | freed _ _ _ hfree hadd => exact .of_credits hadd (.of_freed hfree (sendKept_of_eq rfl rfl rfl))

theorem sendKept_checkReset {r : Except ClosedStream (Option Nat)}
    (h : s.checkReset pending id = some (t, pending', r)) : SendKept U s t := by
  rcases checkReset_cases h with rfl | ⟨rs, code, -, -, -, hfree⟩
  · exact .refl _
  · exact .of_freed hfree (sendKept_of_eq rfl rfl rfl)

theorem sendKept_session {ordered : Bool} {maxLengths : List Nat}
    {r : Except ReadableError (List (Except ReadError (Option Chunk)))}
    (h : Chunks.session s pending id ordered maxLengths = some (t, pending', r)) : SendKept U s t := by
  cases Chunks.session_cases h with
  | closed => exact .refl s
  | stopped | lost => exact sendKept_of_eq rfl rfl rfl
  | readable _ _ _ _ hadd => exact .of_credits hadd (sendKept_of_eq rfl rfl rfl)
  | ended _ _ _ _ _ hfree hadd => exact .of_credits hadd (.of_freed hfree (sendKept_of_eq rfl rfl rfl))

theorem sendKept_openStream {dir : Dir} {r : Option StreamId} (h : s.openStream dir = some (t, r)) : SendKept U s t := by
  unfold openStream at h
  split at h
  · cases h
    exact .refl s
  obtain ⟨u, hu, ⟨⟩⟩ := exists_of_bind h
  have ha := added_insert hu
  have hnext : u.next = update s.next dir (s.next dir + 1) := congrArg Outgoing.next ha.outgoing
  have hle : ∀ d, s.next d ≤ u.next d := by
    rw [hnext]
    exact (Function.forall_update_iff _ fun d n => s.next d ≤ n).mpr ⟨Nat.le_succ _, fun _ _ => le_rfl⟩
  have hmax : ∀ d, s.maxRemote d ≤ u.maxRemote d := fun d => (congrFun (congrArg Remote.maxRemote ha.remote) d).ge
  refine ⟨ha.side, ?_, hle, hmax, fun id => ?_, fun id hs ht => absurd ((ha.sendAt id).trans hs) ht,
    fun id hid => (ha.mem_send id).mpr (.inl hid), fun id hid => ?_⟩
  · rw [ha.outgoing]
  · show Touched _ _ _ (u.sendAt id)
    rw [ha.sendAt id]
    exact .refl _
  · refine ((ha.mem_send id).mp hid).imp_right fun hn => ?_
    obtain ⟨rfl, -⟩ := hn
    have hside := ha.side
    unfold Known
    rw [if_pos rfl, if_pos hside.symm, hnext, update_self]
    exact ⟨lt_irrefl _, lt_add_one _⟩

theorem sendKept_accept {dir : Dir} : SendKept U s (s.accept dir).1 := by
  unfold accept
  split
  · exact .refl s
  exact ⟨rfl, rfl, fun _ => le_rfl, fun _ => le_rfl, fun _ => .refl _, fun id hs ht => absurd hs ht,
    fun _ h => h, fun _ h => .inl h⟩

theorem sendKept_setReceiveWindow (n : Nat) : SendKept U s (s.setReceiveWindow n).1 := by
  unfold setReceiveWindow
  split <;> exact sendKept_of_eq rfl rfl rfl

theorem sendKept_receivedMaxStreams (dir : Dir) (count : Nat) : SendKept U s (s.receivedMaxStreams dir count).1 := by
  unfold receivedMaxStreams
  split
  · exact .refl s
  split
  · exact ⟨rfl, rfl, fun _ => le_rfl, fun _ => le_rfl, fun _ => .refl _, fun id hs ht => absurd hs ht,
      fun _ h => h, fun _ h => .inl h⟩
  · exact .refl s

theorem tryStop_alike (stream : Send) (errorCode : Nat) : Send.Alike stream (stream.tryStop errorCode).1 := by
  unfold Send.tryStop
  split
  · exact ⟨rfl, rfl, rfl, le_rfl⟩
  · exact .refl _

theorem sendKept_receivedStopSending (errorCode : Nat) : SendKept (· = id) s (s.receivedStopSending id errorCode).1 := by
  unfold receivedStopSending
  split
  · exact .refl s
  split
  · exact .refl s
  split
  · exact .refl s
  next entry hl =>
  have hk := sendKept_setSend hl (tryStop_alike (getOrInsertSend (s.maxSendData id) entry) errorCode)
  dsimp only
  split
  · exact .after (sendKept_onStreamFrame false) (hk.trans (sendKept_of_eq rfl rfl rfl))
  · exact hk

theorem increaseMaxData_alike (stream : Send) (offset : Nat) : Send.Alike stream (stream.increaseMaxData offset).1 := by
  unfold Send.increaseMaxData
  split
  · exact .refl _
  next h =>
  rw [not_or, not_le] at h
  exact ⟨rfl, rfl, rfl, h.1.le⟩

theorem SendKept.then_blocked (h : SendKept U s t) (blocked : List StreamId) (events : List StreamEvent) :
    SendKept U s { t with connectionBlocked := blocked, events := events } :=
  h.trans ⟨rfl, rfl, fun _ => le_rfl, fun _ => le_rfl, fun _ => .refl _, fun _ hs ht => absurd hs ht,
    fun _ h => h, fun _ h => .inl h⟩

/-- What a `MAX_STREAM_DATA` frame does, unless the connection panics. -/
inductive MaxStreamData (s : StreamsState) (id : StreamId) : StreamsState → Prop
  | refused : MaxStreamData s id s
  | closed : ¬(id.initiator ≠ s.side ∧ id.dir = .uni) → MaxStreamData s id (s.onStreamFrame false id)
  | raised {entry : Option Send} {stream : Send} {blocked : List StreamId} {events : List StreamEvent} :
    ¬(id.initiator ≠ s.side ∧ id.dir = .uni) → s.send.lookup id = some entry →
    Send.Alike (getOrInsertSend (s.maxSendData id) entry) stream →
    MaxStreamData s id
      (onStreamFrame { s.setSend id stream with connectionBlocked := blocked, events := events } false id)

theorem receivedMaxStreamData_cases {offset : Nat} {r : Except TransportError Unit}
    (h : s.receivedMaxStreamData id offset = some (t, r)) : MaxStreamData s id t := by
  unfold receivedMaxStreamData at h
  split at h
  · cases h
    exact .refused
  next hdir =>
  obtain ⟨limit, -, h⟩ := bind_eq_some_iff.mp h
  split at h
  · next entry hl =>
    have ha := increaseMaxData_alike (getOrInsertSend (s.maxSendData id) entry) offset
    dsimp only at h
    split at h
    · cases h
      exact .raised hdir hl ha
    split at h <;> cases h
    · exact .raised hdir hl { ha with }
    · exact .raised hdir hl ha
  split at h <;> cases h
  · exact .refused
  · exact .closed hdir

theorem sendKept_receivedMaxStreamData {offset : Nat} {r : Except TransportError Unit}
    (h : s.receivedMaxStreamData id offset = some (t, r)) : SendKept (· = id) s t := by
  cases receivedMaxStreamData_cases h with
  | refused => exact .refl s
  | closed => exact sendKept_onStreamFrame false
  | raised _ hl ha => exact .trans ((sendKept_setSend hl ha).then_blocked _ _) (sendKept_onStreamFrame false)

theorem sendKept_pollBlocked : ∀ (fuel : Nat) {s : StreamsState}, SendKept U s (s.pollBlocked fuel).1
  | 0, s => .refl s
  | fuel + 1, s => by
    unfold pollBlocked
    split
    · exact .refl s
    next id _ =>
    have hk : SendKept U s { s with connectionBlocked := s.connectionBlocked.dropLast } :=
      (SendKept.refl s).then_blocked _ s.events
    dsimp only
    split
    · exact hk.trans (sendKept_pollBlocked fuel)
    next stream hs =>
    have hk' : SendKept U s (({ s with connectionBlocked := s.connectionBlocked.dropLast } : StreamsState).setSend id
        { stream with connectionBlocked := false }) :=
      hk.trans (sendKept_setSend_some hs ⟨rfl, rfl, rfl, le_rfl⟩)
    split
    · exact hk'
    · exact hk'.trans (sendKept_pollBlocked fuel)

theorem poll_moves {R : StreamsState → StreamsState → Prop} {r : Option StreamEvent} (h : s.poll = some (t, r))
    (hrefl : R s s) (htrans : ∀ {u}, R s u → R u t → R s t) (hblocked : ∀ fuel, R s (s.pollBlocked fuel).1)
    (hflags : ∀ u opened events, R u { u with opened, events }) : R s t := by
  unfold poll at h
  split at h
  · cases h
    exact hflags s _ _
  split at h
  · cases h
    exact hflags s _ _
  obtain ⟨limit, -, h⟩ := bind_eq_some_iff.mp h
  have hk : R s (if 0 < limit then s.pollBlocked s.connectionBlocked.length else (s, none)).1 := by
    split
    · exact hblocked _
    · exact hrefl
  generalize (if 0 < limit then s.pollBlocked s.connectionBlocked.length else (s, none)) = polled at h hk
  obtain ⟨u, event⟩ := polled
  dsimp only at h
  split at h <;> cases h
  · exact hk
  · exact htrans hk (hflags u _ _)

theorem sendKept_poll {r : Option StreamEvent} (h : s.poll = some (t, r)) : SendKept U s t :=
  poll_moves h (.refl s) .trans (sendKept_pollBlocked ·) fun _ _ _ => sendKept_of_eq rfl rfl rfl

/-- Writing control frames only moves what is kept about the limits that were announced. -/
structure Announced (s t : StreamsState) : Prop where
  eq : t = { s with recv := t.recv, sentMaxData := t.sentMaxData, sentMaxRemote := t.sentMaxRemote }
  mem : ∀ id, id ∈ t.recv ↔ id ∈ s.recv
  pooled : s.Pooled → t.Pooled
  recvAt : ∀ id, t.recvAt id = s.recvAt id ∨
    ∃ rs n, s.recvAt id = some rs ∧ t.recvAt id = some { rs with sentMaxStreamData := n }

theorem Announced.trans (h₁ : Announced s t) (h₂ : Announced t u) : Announced s u where
  eq := by rw [h₂.eq, h₁.eq]
  mem id := (h₂.mem id).trans (h₁.mem id)
  pooled h := h₂.pooled (h₁.pooled h)
  recvAt id := by
    rcases h₁.recvAt id with h | ⟨rs, n, hs, ht⟩ <;> rcases h₂.recvAt id with h' | ⟨rs', n', hs', ht'⟩
    · exact .inl (h'.trans h)
    · exact .inr ⟨rs', n', h.symm.trans hs', ht'⟩
    · exact .inr ⟨rs, n, hs, h'.trans ht⟩
    · obtain rfl := Option.some.inj (ht.symm.trans hs')
      exact .inr ⟨rs, n', hs, ht'⟩

theorem announced_counters (s : StreamsState) (n : Nat) (f : Dir → Nat) :
    Announced s { s with sentMaxData := n, sentMaxRemote := f } :=
  ⟨rfl, fun _ => Iff.rfl, fun h => ⟨h.free, h.entry⟩, fun _ => .inl rfl⟩

theorem announced_setRecv (h : s.recvAt id = some rs) (n : Nat) :
    Announced s (s.setRecv id (rs.recordSentMaxStreamData n)) := by
  refine ⟨rfl, fun id' => ?_, fun hp => hp.setRecv _, fun id' => ?_⟩
  · rw [mem_setRecv]
    exact or_iff_right_of_imp fun hid => hid ▸ mem_of_recvAt h
  · by_cases hid : id' = id
    · subst hid
      rw [recvAt_setRecv_self, h]
      unfold Recv.recordSentMaxStreamData
      split
      · exact .inr ⟨rs, n, rfl, rfl⟩
      · exact .inl rfl
    · exact .inl (recvAt_setRecv_ne _ hid)

theorem writeResetStream_streams : ∀ {fuel : Nat} {w v : ControlWriter},
    writeResetStream maxSize fuel w = some v → v.streams = w.streams
  | 0, w, v, h => by
    cases h
    rfl
  | fuel + 1, w, v, h => by
    unfold writeResetStream at h
    split at h
    · split at h
      · cases h
        rfl
      dsimp only at h
      split at h
      · exact (writeResetStream_streams h).trans rfl
      split at h
      · exact (writeResetStream_streams h).trans rfl
      · cases h
    cases h
    rfl

theorem writeStopSending_streams (maxSize : Nat) : ∀ (fuel : Nat) (w : ControlWriter),
    (writeStopSending maxSize fuel w).streams = w.streams
  | 0, w => rfl
  | fuel + 1, w => by
    unfold writeStopSending
    split
    · split
      · rfl
      · exact (writeStopSending_streams maxSize fuel _).trans rfl
    · rfl

theorem announced_writeMaxData (maxSize : Nat) (w : ControlWriter) :
    Announced w.streams (writeMaxData maxSize w).streams := by
  unfold writeMaxData
  split
  · exact announced_counters _ _ w.streams.sentMaxRemote
  · exact announced_counters _ w.streams.sentMaxData w.streams.sentMaxRemote

theorem announced_writeMaxStreams (maxSize : Nat) (dir : Dir) (w : ControlWriter) :
    Announced w.streams (writeMaxStreams maxSize dir w).streams := by
  unfold writeMaxStreams
  split
  · exact announced_counters _ w.streams.sentMaxData _
  · exact announced_counters _ w.streams.sentMaxData w.streams.sentMaxRemote

theorem announced_writeMaxStreamData : ∀ {fuel : Nat} {w v : ControlWriter} {encoded : Bool},
    writeMaxStreamData maxSize fuel w = some (v, encoded) → Announced w.streams v.streams
  | 0, w, v, encoded, h => by
    cases h
    exact announced_counters _ w.streams.sentMaxData w.streams.sentMaxRemote
  | fuel + 1, w, v, encoded, h => by
    unfold writeMaxStreamData at h
    split at h
    · split at h
      · cases h
        exact announced_counters _ w.streams.sentMaxData w.streams.sentMaxRemote
      dsimp only at h
      split at h
      · have := announced_writeMaxStreamData h
        exact this
      next rs hrs =>
      split at h
      · have := announced_writeMaxStreamData h
        exact this
      obtain ⟨⟨max, b⟩, -, h⟩ := bind_eq_some_iff.mp h
      have ha := announced_setRecv hrs max
      split at h
      · exact ha.trans (announced_writeMaxStreamData h)
      cases h
      exact ha
    cases h
    exact announced_counters _ w.streams.sentMaxData w.streams.sentMaxRemote

theorem announced_write {w v : ControlWriter} {encoded : Bool}
    (h : write maxSize w = some (v, encoded)) : Announced w.streams v.streams := by
  obtain ⟨w₁, h₁, h⟩ := bind_eq_some_iff.mp h
  obtain ⟨⟨w₂, e⟩, h₂, h⟩ := bind_eq_some_iff.mp h
  have ha := (announced_writeMaxData maxSize _).trans (announced_writeMaxStreamData h₂)
  rw [writeStopSending_streams, writeResetStream_streams h₁] at ha
  dsimp only at h
  split at h <;> cases h
  · exact ha.trans ((announced_writeMaxStreams maxSize .bi _).trans (announced_writeMaxStreams maxSize .uni _))
  · exact ha

theorem Announced.sendKept (h : Announced s t) : SendKept U s t :=
  sendKept_of_eq (by rw [h.eq]) (by rw [h.eq]) (by rw [h.eq])

end StreamsState

/-! What sending leaves alone: the receiving side, and which streams there are. -/

open StreamsState

/-- Between `s` and `t` no stream came or went, nothing was received, and only streams of `P` were finished. -/
structure StreamsState.Outbound (P : StreamId → Prop) (s t : StreamsState) : Prop where
  side : t.side = s.side
  incoming : t.toIncoming = s.toIncoming
  remote : t.toRemote = { s.toRemote with opened := t.opened }
  next : t.next = s.next
  mem : ∀ id, id ∈ t.send ↔ id ∈ s.send
  finished : ∀ id stream, t.sendAt id = some stream → stream.state ≠ .ready →
    (∃ stream', s.sendAt id = some stream' ∧ stream'.state ≠ .ready) ∨ P id

namespace StreamsState
variable {P : StreamId → Prop} {s t u : StreamsState} {id : StreamId} {stream a b : Send} {pending pending' : Retransmits}
  {m : StreamMeta}

theorem Outbound.trans (h₁ : Outbound P s t) (h₂ : Outbound P t u) : Outbound P s u where
  side := h₂.side.trans h₁.side
  incoming := h₂.incoming.trans h₁.incoming
  remote := by rw [h₂.remote, h₁.remote]
  next := h₂.next.trans h₁.next
  mem id := (h₂.mem id).trans (h₁.mem id)
  finished id stream hs hne := by
    rcases h₂.finished id stream hs hne with ⟨stream', hs', hne'⟩ | hP
    · exact h₁.finished id stream' hs' hne'
    · exact .inr hP

theorem Outbound.after (h₂ : Outbound P t u) (h₁ : Outbound P s t) : Outbound P s u := h₁.trans h₂

theorem outbound_of_eq (hside : t.side = s.side) (hinc : t.toIncoming = s.toIncoming)
    (hrem : t.toRemote = { s.toRemote with opened := t.opened }) (hnext : t.next = s.next) (hsend : t.send = s.send) :
    Outbound P s t :=
  ⟨hside, hinc, hrem, hnext, fun _ => by rw [hsend], fun id stream hs hne =>
    .inl ⟨stream, by rwa [sendAt, ← hsend], hne⟩⟩

theorem Outbound.refl (s : StreamsState) : Outbound P s s := outbound_of_eq rfl rfl rfl rfl rfl

theorem outbound_insert (hmem : id ∈ s.send)
    (h : stream.state ≠ .ready → (∃ stream', s.sendAt id = some stream' ∧ stream'.state ≠ .ready) ∨ P id)
    (hside : t.side = s.side) (hinc : t.toIncoming = s.toIncoming) (hrem : t.toRemote = s.toRemote)
    (hnext : t.next = s.next) (hsend : t.send = s.send.insert id (some stream)) : Outbound P s t := by
  have hat : ∀ id', t.sendAt id' = (s.setSend id stream).sendAt id' := fun id' => by
    rw [sendAt, hsend]
    rfl
  refine ⟨hside, hinc, by rw [hrem], hnext, fun id' => ?_, fun id' stream' hs hne => ?_⟩
  · rw [hsend, AList.mem_insert]
    exact or_iff_right_of_imp fun hid => hid ▸ hmem
  · rw [hat] at hs
    by_cases hid : id' = id
    · subst hid
      rw [sendAt_setSend_self] at hs
      cases hs
      exact h hne
    rw [sendAt_setSend_ne stream hid] at hs
    exact .inl ⟨stream', hs, hne⟩

theorem outbound_stored {entry : Option Send} (hl : s.send.lookup id = some entry) (hside : t.side = s.side)
    (hinc : t.toIncoming = s.toIncoming) (hrem : t.toRemote = s.toRemote) (hnext : t.next = s.next)
    (hsend : t.send = s.send.insert id (some stream)) : Outbound (· = id) s t :=
  outbound_insert (mem_of_lookup_send hl) (fun _ => .inr rfl) hside hinc hrem hnext hsend

theorem outbound_restored (hat : s.sendAt id = some a) (hsend : t.send = s.send.insert id (some b))
    (hside : t.side = s.side) (hinc : t.toIncoming = s.toIncoming) (hrem : t.toRemote = s.toRemote)
    (hnext : t.next = s.next) (hst : b.state ≠ .ready → a.state ≠ .ready) : Outbound (fun _ => False) s t :=
  outbound_insert (mem_of_sendAt hat) (fun hne => .inl ⟨a, hat, hst hne⟩) hside hinc hrem hnext hsend

theorem outbound_writeSource {σ : Type} [BytesSource σ] {source : σ} {r : Except WriteError Written}
    (h : s.writeSource id source = some (t, r)) : Outbound (· = id) s t := by
  obtain ⟨limit, -, h⟩ := bind_eq_some_iff.mp h
  split at h
  · cases h
    exact .refl s
  next entry hl =>
  dsimp only at h
  split at h
  · split at h <;> cases h <;> exact outbound_stored hl rfl rfl rfl rfl rfl
  obtain ⟨result, -, h⟩ := bind_eq_some_iff.mp h
  split at h
  · cases h
    exact outbound_stored hl rfl rfl rfl rfl rfl
  cases h
  split <;> exact outbound_stored hl rfl rfl rfl rfl rfl

theorem outbound_finish : Outbound (· = id) s (s.finish id).1 := by
  unfold finish
  split
  · exact .refl s
  next entry hl =>
  dsimp only
  split
  · exact outbound_stored hl rfl rfl rfl rfl rfl
  · split <;> exact outbound_stored hl rfl rfl rfl rfl rfl

theorem outbound_reset {errorCode : Nat} {r : Except ClosedStream Unit}
    (h : s.reset pending id errorCode = some (t, pending', r)) : Outbound (· = id) s t := by
  unfold reset at h
  split at h
  · cases h
    exact .refl s
  next entry hl =>
  dsimp only at h
  split at h
  · cases h
    exact outbound_stored hl rfl rfl rfl rfl rfl
  obtain ⟨n, -, h⟩ := bind_eq_some_iff.mp h
  obtain ⟨rest, -, ⟨⟩⟩ := exists_of_bind h
  exact outbound_stored hl rfl rfl rfl rfl rfl

theorem outbound_setPriority {priority : Int} : Outbound (· = id) s (s.setPriority id priority).1 := by
  unfold setPriority
  split
  · exact .refl s
  · next entry hl => exact outbound_stored hl rfl rfl rfl rfl rfl

theorem outbound_losses : ∀ (frames : List StreamMeta) (s : StreamsState), Outbound (fun _ => False) s (frames.foldl retransmit s)
  | [], s => .refl s
  | m :: frames, s => by
    refine .trans ?_ (outbound_losses frames (s.retransmit m))
    unfold retransmit
    split
    · exact .refl s
    next stream hs =>
    split <;> exact outbound_restored hs rfl rfl rfl rfl rfl id

theorem nextFrame_state {maxLen : Nat} {encodeLength : Bool}
    (h : a.nextFrame id maxLen = some (b, m, encodeLength)) : b.state = a.state := by
  obtain ⟨⟨pending, offsets, e⟩, -, ⟨⟩⟩ := exists_of_bind h
  rfl

theorem outbound_writeStreamFrames {fair : Bool} {maxBufSize len' : Nat} {frames' : List (StreamMeta × Bool)} :
    ∀ {fuel : Nat} {s : StreamsState} {len : Nat} {frames : List (StreamMeta × Bool)},
    writeStreamFramesLoop fair maxBufSize fuel s len frames = some (t, len', frames') → Outbound (fun _ => False) s t
  | 0, s, len, frames, h => by
    obtain ⟨rfl, -⟩ : s = t ∧ _ := by simpa [writeStreamFramesLoop] using h
    exact .refl s
  | fuel + 1, s, len, frames, h => by
    unfold writeStreamFramesLoop at h
    split at h
    · split at h
      · obtain ⟨rfl, -⟩ : s = t ∧ _ := by simpa using h
        exact .refl s
      next next queue hpop =>
      have hk : Outbound (fun _ => False) s { s with pending := queue } := outbound_of_eq rfl rfl rfl rfl rfl
      dsimp only at h
      split at h
      · exact hk.trans (outbound_writeStreamFrames h)
      next stream hs =>
      split at h
      · exact hk.trans (outbound_writeStreamFrames h)
      obtain ⟨maxLen, -, h⟩ := bind_eq_some_iff.mp h
      obtain ⟨⟨stream', m, encodeLength⟩, hnext, h⟩ := bind_eq_some_iff.mp h
      obtain ⟨data, -, h⟩ := bind_eq_some_iff.mp h
      refine .after (outbound_writeStreamFrames h) ?_
      exact outbound_restored hs rfl rfl rfl rfl rfl fun hne => nextFrame_state hnext ▸ hne
    obtain ⟨rfl, -⟩ : s = t ∧ _ := by simpa using h
    exact .refl s

theorem outbound_pollBlocked : ∀ (fuel : Nat) {s : StreamsState}, Outbound (fun _ => False) s (s.pollBlocked fuel).1
  | 0, s => .refl s
  | fuel + 1, s => by
    unfold pollBlocked
    split
    · exact .refl s
    dsimp only
    split
    · exact .after (outbound_pollBlocked fuel) (outbound_of_eq rfl rfl rfl rfl rfl)
    next stream hs =>
    split
    · exact outbound_restored hs rfl rfl rfl rfl rfl id
    · exact .after (outbound_pollBlocked fuel) (outbound_restored hs rfl rfl rfl rfl rfl id)

theorem outbound_poll {r : Option StreamEvent} (h : s.poll = some (t, r)) : Outbound (fun _ => False) s t :=
  poll_moves h (.refl s) .trans (outbound_pollBlocked ·) fun _ _ _ => outbound_of_eq rfl rfl rfl rfl rfl

theorem outbound_setMaxDataRemotes (maxData : Nat) : ∀ count, Outbound (fun _ => False) s (s.setMaxDataRemotes maxData count)
  | 0 => .refl s
  | count + 1 => by
    have ih := outbound_setMaxDataRemotes maxData count
    unfold setMaxDataRemotes
    dsimp only
    split
    · next stream hs => exact ih.trans (outbound_restored hs rfl rfl rfl rfl rfl id)
    · exact ih

theorem outbound_setParams (params : TransportParameters) : Outbound (fun _ => False) s (s.setParams params) :=
  .after (outbound_setMaxDataRemotes _ _) (outbound_of_eq rfl rfl rfl rfl rfl)

theorem outbound_retransmitAllFor0rttDir (dir : Dir) : ∀ (count : Nat) (s : StreamsState),
    Outbound (fun _ => False) s (s.retransmitAllFor0rttDir dir count)
  | 0, s => .refl s
  | count + 1, s => by
    have ih := outbound_retransmitAllFor0rttDir dir count s
    unfold retransmitAllFor0rttDir
    dsimp only
    split
    · exact ih
    next stream hs =>
    split
    · exact ih
    refine ih.trans ?_
    split <;> exact outbound_restored hs rfl rfl rfl rfl rfl id

end StreamsState

namespace Connection
variable {c d : Connection}

theorem outbound_sendCall {id : StreamId} {call : SendCall} (h : c.sendCall id call = some d) :
    Outbound (· = id) c.streams d.streams := by
  cases call with
  | write data | writeChunks data =>
    obtain ⟨⟨streams, r⟩, hw, rfl⟩ := exists_of_bind h
    exact outbound_writeSource hw
  | finish =>
    cases h
    exact outbound_finish
  | reset errorCode =>
    obtain ⟨⟨streams, pending, r⟩, hr, rfl⟩ := exists_of_bind h
    exact outbound_reset hr
  | setPriority priority =>
    cases h
    exact outbound_setPriority

theorem outbound_transmit {len extra maxSize : Nat} {fair : Bool} (h : c.transmit len extra maxSize fair = some d) :
    ∃ u, Announced c.streams u ∧ Outbound (fun _ => False) u d.streams := by
  obtain ⟨⟨w, encoded⟩, hw, h⟩ := bind_eq_some_iff.mp h
  refine ⟨w.streams, announced_write hw, ?_⟩
  dsimp only at h
  split at h
  · obtain ⟨⟨streams, len', frames⟩, hs, rfl⟩ := exists_of_bind h
    exact outbound_writeStreamFrames hs
  cases h
  exact .refl _

/-- The events that have to do with what is sent, but with no stream in particular. -/
def AboutSending : Event → Prop
  | .poll | .packetEnd | .lost _ | .probe _ | .init0rtt _ | .established _ | .retry => True
  | _ => False

theorem outbound_step {e : Event} (h : c.step e = some d) (he : AboutSending e) :
    Outbound (fun _ => False) c.streams d.streams := by
  cases e with
  | poll =>
    obtain ⟨⟨streams, r⟩, hr, rfl⟩ := exists_of_bind h
    exact outbound_poll hr
  | packetEnd =>
    obtain ⟨⟨pending, b⟩, -, rfl⟩ := exists_of_bind h
    exact .refl _
  | lost i =>
    cases h
    unfold lost
    split
    · exact .refl _
    · exact outbound_losses _ _
  | probe i =>
    cases h
    unfold probe
    split <;> exact .refl _
  | init0rtt params | established params =>
    cases h
    exact outbound_setParams params
  | retry =>
    cases h
    exact (outbound_retransmitAllFor0rttDir _ _ _).trans (outbound_retransmitAllFor0rttDir _ _ _)
  | _ => exact he.elim

end Connection

/-! What writing the control frames of the streams takes from their queues. -/

open List Retransmits VarInt

def Retransmits.load (self : Retransmits) : Nat :=
  self.resetStream.length + self.stopSending.length + self.maxData.toNat + self.maxStreamData.length +
    (self.maxStreamId .bi).toNat + (self.maxStreamId .uni).toNat

def StreamsState.Resettable (s : StreamsState) (queue : List (StreamId × Nat)) : Prop :=
  ∀ x ∈ queue, ∃ stream, s.sendAt x.1 = some stream ∧ stream.offset ≤ max

def StreamsState.Announceable (s : StreamsState) : Prop :=
  ∀ id rs, s.recvAt id = some rs → rs.sentMaxStreamData ≤ rs.assembler.bytesRead + s.streamReceiveWindow

namespace ControlWriter
variable {w v u : ControlWriter} {maxSize : Nat}

structure Spends (w v : ControlWriter) : Prop where
  len_le : w.len ≤ v.len
  load_le : v.pending.load ≤ w.pending.load
  spent : w.len < v.len → v.pending.load < w.pending.load

theorem Spends.refl (w : ControlWriter) : Spends w w := ⟨le_rfl, le_rfl, fun h => absurd h (lt_irrefl _)⟩

theorem Spends.trans (h : Spends w v) (h' : Spends v u) : Spends w u := by
  refine ⟨h.len_le.trans h'.len_le, h'.load_le.trans h.load_le, fun hlt => ?_⟩
  rcases lt_or_ge w.len v.len with hv | hv
  · exact h'.load_le.trans_lt (h.spent hv)
  · exact (h'.spent (hv.trans_lt hlt)).trans_le h.load_le

/-- Writing the frames of one kind: nothing happens only if there is no room for one, or if `done`. -/
structure Drains (maxSize room : Nat) (done : Prop) (w v : ControlWriter) : Prop extends Spends w v where
  idle : v.len = w.len → v = w ∧ (w.len + room < maxSize → done)

variable {room : Nat} {done : Prop}

theorem Drains.rest (h : w.len + room < maxSize → done) : Drains maxSize room done w w := ⟨.refl w, fun _ => ⟨rfl, h⟩⟩

theorem Drains.after (hlen : w.len < v.len) (hload : v.pending.load < w.pending.load) (h : Spends v u) :
    Drains maxSize room done w u :=
  ⟨Spends.trans ⟨hlen.le, hload.le, fun _ => hload⟩ h, fun heq => absurd heq (ne_of_gt (hlen.trans_le h.len_le))⟩

theorem length_of_getLast? {α : Type} {l : List α} {x : α} (h : l.getLast? = some x) : l.dropLast.length + 1 = l.length := by
  have hne : l ≠ [] := by
    rintro rfl
    cases h
  rw [length_dropLast]
  exact Nat.sub_add_cancel (length_pos_iff.mpr hne)

theorem writeResetStream_spends (maxSize : Nat) : ∀ (fuel : Nat) (w : ControlWriter), w.pending.resetStream.length ≤ fuel →
    w.streams.Resettable w.pending.resetStream →
    ∃ v, writeResetStream maxSize fuel w = some v ∧ Drains maxSize 25 (w.pending.resetStream = []) w v
  | 0, w, hfuel, _ => ⟨w, rfl, .rest fun _ => length_eq_zero_iff.mp (Nat.le_zero.mp hfuel)⟩
  | fuel + 1, w, hfuel, hrst => by
    unfold writeResetStream
    split
    · split
      · next hnone => exact ⟨w, rfl, .rest fun _ => getLast?_eq_none_iff.mp hnone⟩
      next id errorCode hlast =>
      have hln := length_of_getLast? hlast
      obtain ⟨stream, hstream, hoff⟩ := hrst _ (mem_of_getLast? hlast)
      simp only [hstream, if_pos hoff]
      obtain ⟨v, hv, hdrains⟩ := writeResetStream_spends maxSize fuel { w with
          pending := { w.pending with resetStream := w.pending.resetStream.dropLast }
          sent := { w.sent with resetStream := w.sent.resetStream ++ [(id, errorCode)] }
          len := w.len + 1 + size id.toNat + size errorCode + size stream.offset }
        (by show w.pending.resetStream.dropLast.length ≤ fuel; omega)
        (fun x hx => hrst x (dropLast_subset _ hx))
      exact ⟨v, hv, .after (by simp only; omega) (by simp only [load]; omega) hdrains.toSpends⟩
    · next hroom => exact ⟨w, rfl, .rest fun hlt => absurd hlt hroom⟩

theorem writeStopSending_spends (maxSize : Nat) : ∀ (fuel : Nat) (w : ControlWriter), w.pending.stopSending.length ≤ fuel →
    Drains maxSize 17 (w.pending.stopSending = []) w (writeStopSending maxSize fuel w)
  | 0, w, hfuel => .rest fun _ => length_eq_zero_iff.mp (Nat.le_zero.mp hfuel)
  | fuel + 1, w, hfuel => by
    unfold writeStopSending
    split
    · split
      · next hnone => exact .rest fun _ => getLast?_eq_none_iff.mp hnone
      next id errorCode hlast =>
      have hln := length_of_getLast? hlast
      have hdrains := writeStopSending_spends maxSize fuel { w with
          pending := { w.pending with stopSending := w.pending.stopSending.dropLast }
          sent := { w.sent with stopSending := w.sent.stopSending ++ [(id, errorCode)] }
          len := w.len + 1 + size id.toNat + size errorCode }
        (by show w.pending.stopSending.dropLast.length ≤ fuel; omega)
      exact .after (by simp only; omega) (by simp only [load]; omega) hdrains.toSpends
    · next hroom => exact .rest fun hlt => absurd hlt hroom

theorem writeMaxData_spends (maxSize : Nat) (w : ControlWriter) :
    Drains maxSize 9 (w.pending.maxData = false) w (writeMaxData maxSize w) := by
  unfold writeMaxData
  split
  · next h =>
    have hload : ({ w.pending with maxData := false } : Retransmits).load < w.pending.load := by
      simp only [load, h.1, Bool.toNat_true, Bool.toNat_false]
      omega
    exact .after (by simp only; omega) hload (.refl _)
  · next h => exact .rest fun hlt => Bool.eq_false_iff.mpr fun hmax => h ⟨hmax, hlt⟩

theorem writeMaxStreams_spends (maxSize : Nat) (dir : Dir) (w : ControlWriter) :
    Drains maxSize 9 (w.pending.maxStreamId dir = false) w (writeMaxStreams maxSize dir w) := by
  unfold writeMaxStreams
  split
  · next h =>
    have hload : ({ w.pending with maxStreamId := Function.update w.pending.maxStreamId dir false } : Retransmits).load <
        w.pending.load := by
      have hdir := h.1
      cases dir <;> simp only [load, hdir, Function.update_self, Bool.toNat_true, Bool.toNat_false, ne_eq,
        reduceCtorEq, not_false_eq_true, Function.update_of_ne] <;> omega
    exact .after (by simp only; omega) hload (.refl _)
  · next h => exact .rest fun hlt => Bool.eq_false_iff.mpr fun hmax => h ⟨hmax, hlt⟩

theorem announceable_setRecv {s : StreamsState} (h : s.Announceable) {id : StreamId} {rs : Recv}
    (hrs : s.recvAt id = some rs) :
    (s.setRecv id (rs.recordSentMaxStreamData (rs.assembler.bytesRead + s.streamReceiveWindow))).Announceable := by
  intro id' rs' hrs'
  by_cases hid : id' = id
  · subst hid
    rw [recvAt_setRecv_self] at hrs'
    cases hrs'
    unfold Recv.recordSentMaxStreamData
    split
    · exact le_rfl
    · exact h _ _ hrs
  rw [recvAt_setRecv_ne _ hid] at hrs'
  exact h _ _ hrs'

/-- What writing the MAX_STREAM_DATA frames does: they are dropped for streams that need none any more. -/
structure Updates (maxSize : Nat) (w v : ControlWriter) (encoded : Bool) : Prop where
  spends : Spends w v
  failed : encoded = false → v.pending.load < w.pending.load
  idle : v.len = w.len → encoded = true ∧ (∃ maxStreamData, v = { w with pending := { w.pending with maxStreamData } }) ∧
    (w.len + 17 < maxSize → ∀ id ∈ w.pending.maxStreamData, w.streams.canSendFlowControl id = false)

theorem Updates.refl (h : w.len + 17 < maxSize → w.pending.maxStreamData = []) : Updates maxSize w w true :=
  ⟨.refl w, nofun, fun _ => ⟨rfl, ⟨_, rfl⟩, fun hroom => h hroom ▸ nofun⟩⟩

theorem Updates.skip {id : StreamId} {rest : List StreamId} {encoded : Bool} (hcons : w.pending.maxStreamData = id :: rest)
    (hnot : w.streams.canSendFlowControl id = false)
    (h : Updates maxSize { w with pending := { w.pending with maxStreamData := rest } } v encoded) :
    Updates maxSize w v encoded := by
  have hload : ({ w.pending with maxStreamData := rest } : Retransmits).load < w.pending.load := by
    simp only [load, hcons, length_cons]
    omega
  refine ⟨⟨h.spends.len_le, h.spends.load_le.trans hload.le, fun hlt => (h.spends.spent hlt).trans hload⟩,
    fun hfail => (h.failed hfail).trans hload, fun heq => ?_⟩
  obtain ⟨henc, hsame, hrest⟩ := h.idle heq
  refine ⟨henc, hsame, fun hroom id' hid' => ?_⟩
  rw [hcons] at hid'
  rcases mem_cons.mp hid' with rfl | hid'
  · exact hnot
  · exact hrest hroom id' hid'

theorem writeMaxStreamData_updates (maxSize : Nat) : ∀ (fuel : Nat) (w : ControlWriter), w.pending.maxStreamData.length ≤ fuel →
    w.streams.Announceable →
    ∃ v encoded, writeMaxStreamData maxSize fuel w = some (v, encoded) ∧ Updates maxSize w v encoded
  | 0, w, hfuel, _ => ⟨w, true, rfl, .refl fun _ => length_eq_zero_iff.mp (Nat.le_zero.mp hfuel)⟩
  | fuel + 1, w, hfuel, hann => by
    unfold writeMaxStreamData
    split
    · split
      · next hnil => exact ⟨w, true, rfl, .refl fun _ => hnil⟩
      next id rest hcons =>
      have hfuel' : rest.length ≤ fuel := by
        rw [hcons, length_cons] at hfuel
        omega
      have hskip : w.streams.canSendFlowControl id = false → ∃ v encoded, writeMaxStreamData maxSize fuel
          { w with pending := { w.pending with maxStreamData := rest } } = some (v, encoded) ∧
            Updates maxSize w v encoded := by
        intro hnot
        obtain ⟨v, encoded, hv, h⟩ := writeMaxStreamData_updates maxSize fuel
          { w with pending := { w.pending with maxStreamData := rest } } hfuel' hann
        exact ⟨v, encoded, hv, h.skip hcons hnot⟩
      dsimp only
      cases hrs : w.streams.recvAt id with
      | none => exact hskip (by rw [canSendFlowControl, hrs]; rfl)
      | some rs =>
        cases hcan : rs.canSendFlowControl with
        | false =>
          simp only [hcan, Bool.not_false, if_true]
          exact hskip (by rw [canSendFlowControl, hrs]; exact hcan)
        | true =>
          -- A frame is written, and then the next stream is looked at, unless the limit cannot be encoded.
          simp only [hcan, Bool.not_true, Bool.false_eq_true, if_false, Recv.maxStreamData,
            checkedSub_of_le (hann id rs hrs), Option.bind_eq_bind, Option.bind_some]
          generalize hw : ControlWriter.mk (w.streams.setRecv id (rs.recordSentMaxStreamData
            (rs.assembler.bytesRead + w.streams.streamReceiveWindow))) { w.pending with maxStreamData := rest }
            (w.sent.insertMaxStreamData id)
            (w.len + 1 + size id.toNat + size (rs.assembler.bytesRead + w.streams.streamReceiveWindow)) = w'
          have hlen : w.len < w'.len := by
            rw [← hw]
            simp only
            omega
          have hload : w'.pending.load < w.pending.load := by
            rw [← hw]
            simp only [load, hcons, length_cons]
            omega
          split
          · obtain ⟨v, encoded, hv, h⟩ := writeMaxStreamData_updates maxSize fuel w' (by rw [← hw]; exact hfuel')
              (by rw [← hw]; exact announceable_setRecv hann hrs)
            have hdrains : Drains maxSize 17 False w v := .after hlen hload h.spends
            exact ⟨v, encoded, hv, hdrains.toSpends, fun hfail => (h.failed hfail).trans hload,
              fun heq => absurd heq (ne_of_gt (hlen.trans_le h.spends.len_le))⟩
          exact ⟨w', false, rfl, ⟨hlen.le, hload.le, fun _ => hload⟩, fun _ => hload, fun heq => absurd heq (ne_of_gt hlen)⟩
    · next hroom => exact ⟨w, true, rfl, .refl fun hlt => absurd hlt hroom⟩

structure Quiet (r : Retransmits) (streams : StreamsState) : Prop where
  resetStream : r.resetStream = []
  stopSending : r.stopSending = []
  maxData : r.maxData = false
  maxStreamData : ∀ id ∈ r.maxStreamData, streams.canSendFlowControl id = false
  maxStreamId : ∀ dir, r.maxStreamId dir = false

theorem announceable_writeMaxData (maxSize : Nat) (h : w.streams.Announceable) :
    (writeMaxData maxSize w).streams.Announceable := by
  unfold writeMaxData
  split
  · exact h
  · exact h

theorem write_spends (maxSize : Nat) (w : ControlWriter) (hrst : w.streams.Resettable w.pending.resetStream)
    (hann : w.streams.Announceable) :
    ∃ v encoded, write maxSize w = some (v, encoded) ∧ Spends w v ∧ (encoded = false → v.pending.load < w.pending.load) ∧
      (v.len = w.len → encoded = true ∧ (∃ maxStreamData, v = { w with pending := { w.pending with maxStreamData } }) ∧
        (w.len + 25 < maxSize → Quiet w.pending w.streams)) := by
  obtain ⟨w₁, hw₁, ⟨hspends₁, hidle₁⟩⟩ := writeResetStream_spends maxSize _ w le_rfl hrst
  obtain ⟨hspends₂, hidle₂⟩ := writeStopSending_spends maxSize _ w₁ le_rfl
  obtain ⟨hspends₃, hidle₃⟩ := writeMaxData_spends maxSize (writeStopSending maxSize w₁.pending.stopSending.length w₁)
  have hann₃ := announceable_writeMaxData (w := writeStopSending maxSize w₁.pending.stopSending.length w₁) maxSize
    (by rw [writeStopSending_streams, writeResetStream_streams hw₁]; exact hann)
  obtain ⟨w₄, encoded, hw₄, hupd⟩ := writeMaxStreamData_updates maxSize _ _ le_rfl hann₃
  have hwr : write maxSize w = some (if encoded then
      (writeMaxStreams maxSize .uni (writeMaxStreams maxSize .bi w₄), true) else (w₄, false)) := by
    unfold write
    simp only [hw₁, Option.bind_eq_bind, Option.bind_some, hw₄]
    cases encoded <;> rfl
  generalize writeMaxData maxSize (writeStopSending maxSize w₁.pending.stopSending.length w₁) = w₃ at *
  generalize writeStopSending maxSize w₁.pending.stopSending.length w₁ = w₂ at *
  -- If nothing was written by the end, nothing was written before.
  have hidle : w₄.len = w.len → w₃ = w ∧ w₄.len = w₃.len ∧ (w.len + 25 < maxSize →
      w.pending.resetStream = [] ∧ w.pending.stopSending = [] ∧ w.pending.maxData = false) := by
    intro hlen
    have h₁ := hspends₁.len_le
    have h₂ := hspends₂.len_le
    have h₃ := hspends₃.len_le
    have h₄ := hupd.spends.len_le
    obtain ⟨rfl, hrst⟩ := hidle₁ (by omega)
    obtain ⟨rfl, hstop⟩ := hidle₂ (by omega)
    obtain ⟨rfl, hmax⟩ := hidle₃ (by omega)
    exact ⟨rfl, hlen, fun hroom => ⟨hrst hroom, hstop (by omega), hmax (by omega)⟩⟩
  have hpre := hspends₁.trans (hspends₂.trans hspends₃)
  cases encoded with
  | false =>
    refine ⟨w₄, false, hwr, hpre.trans hupd.spends, fun _ => ?_, fun hlen => ?_⟩
    · exact (hupd.failed rfl).trans_le hpre.load_le
    · cases (hupd.idle (hidle hlen).2.1).1
  | true =>
    obtain ⟨hspends₅, hidle₅⟩ := writeMaxStreams_spends maxSize .bi w₄
    obtain ⟨hspends₆, hidle₆⟩ := writeMaxStreams_spends maxSize .uni (writeMaxStreams maxSize .bi w₄)
    refine ⟨_, true, hwr, (hpre.trans hupd.spends).trans (hspends₅.trans hspends₆), nofun, fun hlen => ?_⟩
    have h₄ := (hpre.trans hupd.spends).len_le
    have h₅ := hspends₅.len_le
    have h₆ := hspends₆.len_le
    obtain ⟨hsame₆, huni⟩ := hidle₆ (by omega)
    obtain ⟨hsame₅, hbi⟩ := hidle₅ (by omega)
    rw [hsame₆, hsame₅]
    rw [hsame₅] at huni
    obtain ⟨rfl, hlen₄, hfst⟩ := hidle (by omega)
    obtain ⟨-, ⟨maxStreamData, rfl⟩, hupdated⟩ := hupd.idle hlen₄
    refine ⟨rfl, ⟨_, rfl⟩, fun hroom => ?_⟩
    obtain ⟨hrst, hstop, hmax⟩ := hfst hroom
    refine ⟨hrst, hstop, hmax, hupdated (by omega), fun dir => ?_⟩
    cases dir with
    | bi => exact hbi (by simp only; omega)
    | uni => exact huni (by simp only; omega)

end ControlWriter
end SaorsaTransport
