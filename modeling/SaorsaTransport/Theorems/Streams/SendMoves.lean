import SaorsaTransport.Theorems.Streams.SendKept

/-! What an event can do to the sending side of a connection, broken into the smallest moves. -/

namespace SaorsaTransport
open Library StreamsState List Option

structure Sending where
  streams : StreamsState
  inflight : List StreamMeta

namespace Connection

def inflight (c : Connection) : List StreamMeta := c.sentPackets.flatMap (·.streamFrames)

def sending (c : Connection) : Sending := ⟨c.streams, c.inflight⟩

end Connection

/-- Before the handshake is done, only local streams are used. -/
def LocalFirst (phase : Phase) (s : StreamsState) (id : StreamId) : Prop := phase ≠ .ready → id.initiator = s.side

/-- The queue once `stream`, as it was before it got something to send, is in it. -/
def StreamsState.enqueue (s : StreamsState) (id : StreamId) (stream : Send) : PendingStreamsQueue :=
  if stream.isPending then s.pending else s.pending.pushPending id stream.priority

inductive Move (phase : Phase) (acks : Prop) : Sending → Sending → Prop
  | kept {s t : StreamsState} {ms : List StreamMeta} {U : StreamId → Prop} : SendKept U s t →
      (∀ id, U id → LocalFirst phase s id) → Move phase acks ⟨s, ms⟩ ⟨t, ms⟩
  | perm {s : StreamsState} {ms ms' : List StreamMeta} : ms.Perm ms' → Move phase acks ⟨s, ms⟩ ⟨s, ms'⟩
  | raised {s : StreamsState} {ms : List StreamMeta} (n : Nat) : Move phase acks ⟨s, ms⟩ ⟨s.receivedMaxData n, ms⟩
  | wrote {s : StreamsState} {ms : List StreamMeta} {id : StreamId} {entry : Option Send} {limit : Nat}
      (chunks : List Bytes) : ¬acks → s.send.lookup id = some entry → LocalFirst phase s id → s.writeLimit = some limit →
      (getOrInsertSend (s.maxSendData id) entry).state = .ready → chunks.flatten.length ≤ limit →
      (getOrInsertSend (s.maxSendData id) entry).offset + chunks.flatten.length ≤
        (getOrInsertSend (s.maxSendData id) entry).maxData →
      Move phase acks ⟨s, ms⟩
        ⟨{ s.setSend id { getOrInsertSend (s.maxSendData id) entry with
             pending := chunks.foldl SendBuffer.write (getOrInsertSend (s.maxSendData id) entry).pending } with
           dataSent := s.dataSent + chunks.flatten.length
           unackedData := s.unackedData + chunks.flatten.length
           pending := s.enqueue id (getOrInsertSend (s.maxSendData id) entry) }, ms⟩
  | finished {s : StreamsState} {ms : List StreamMeta} {id : StreamId} {entry : Option Send} :
      s.send.lookup id = some entry → LocalFirst phase s id → (getOrInsertSend (s.maxSendData id) entry).state = .ready →
      Move phase acks ⟨s, ms⟩
        ⟨{ s.setSend id { getOrInsertSend (s.maxSendData id) entry with state := .dataSent false, finPending := true } with
           pending := s.enqueue id (getOrInsertSend (s.maxSendData id) entry) }, ms⟩
  | reset {s : StreamsState} {ms : List StreamMeta} {id : StreamId} {entry : Option Send} {n rest : Nat} :
      s.send.lookup id = some entry → LocalFirst phase s id →
      (getOrInsertSend (s.maxSendData id) entry).isReset = false →
      (getOrInsertSend (s.maxSendData id) entry).pending.unacked = some n → s.unackedData = n + rest →
      Move phase acks ⟨s, ms⟩
        ⟨{ s.setSend id { getOrInsertSend (s.maxSendData id) entry with state := .resetSent } with unackedData := rest }, ms⟩
  /-- A frame of a stream that is closed or was reset is forgotten. -/
  | ignored {s : StreamsState} {ms : List StreamMeta} {m : StreamMeta} : phase = .ready →
      (∀ stream, s.sendAt m.id = some stream → stream.isReset = true) → Move phase acks ⟨s, m :: ms⟩ ⟨s, ms⟩
  | acked {s : StreamsState} {ms : List StreamMeta} {m : StreamMeta} {stream stream' : Send} {done : Bool} {rest : Nat} :
      phase = .ready → s.sendAt m.id = some stream → stream.isReset = false →
      s.unackedData = m.offsets.2 - m.offsets.1 + rest → stream.ack m = some (stream', done) →
      Move phase acks ⟨s, m :: ms⟩ ⟨{ s.setSend m.id stream' with unackedData := rest }, ms⟩
  | freed {s t : StreamsState} {ms : List StreamMeta} {id : StreamId} {stream : Send} : phase = .ready → acks →
      s.sendAt id = some stream → stream.isReset = true ∨ stream.state = .dataSent true ∧ stream.pending.isFullyAcked = true →
      (s.eraseSend id).streamFreed id .send = some t → Move phase acks ⟨s, ms⟩ ⟨t, ms⟩
  | lost {s : StreamsState} {ms : List StreamMeta} {m : StreamMeta} {stream : Send} : phase = .ready →
      s.sendAt m.id = some stream →
      Move phase acks ⟨s, m :: ms⟩
        ⟨{ s.setSend m.id { stream with finPending := stream.finPending || m.fin
                                        pending := stream.pending.retransmit m.offsets } with
           pending := s.enqueue m.id stream }, ms⟩
  | skipped {s : StreamsState} {ms : List StreamMeta} {next : PendingStream} {queue : PendingStreamsQueue} :
      s.pending.pop = some (next, queue) → (∀ stream, s.sendAt next.id = some stream → stream.isReset = true) →
      Move phase acks ⟨s, ms⟩ ⟨{ s with pending := queue }, ms⟩
  | sent {s : StreamsState} {ms : List StreamMeta} {next : PendingStream} {queue : PendingStreamsQueue} {stream stream' : Send}
      {maxLen : Nat} {m : StreamMeta} {encodeLength : Bool} (fair : Bool) : s.pending.pop = some (next, queue) →
      s.sendAt next.id = some stream → stream.isReset = false → 16 ≤ maxLen →
      stream.nextFrame next.id maxLen = some (stream', m, encodeLength) →
      Move phase acks ⟨s, ms⟩
        ⟨{ s.setSend next.id stream' with
           pending := ({ s with pending := queue } : StreamsState).requeue fair next.id stream' }, m :: ms⟩

abbrev Moves (phase : Phase) (acks : Prop) : Sending → Sending → Prop := Relation.ReflTransGen (Move phase acks)

theorem moves_kept {phase : Phase} {acks : Prop} {s t : StreamsState} {ms : List StreamMeta} {U : StreamId → Prop}
    (h : SendKept U s t) (hU : ∀ id, U id → LocalFirst phase s id) : Moves phase acks ⟨s, ms⟩ ⟨t, ms⟩ :=
  .single (.kept h hU)

theorem moves_still {phase : Phase} {acks : Prop} {s t : StreamsState} {ms : List StreamMeta}
    (h : SendKept (fun _ => False) s t) : Moves phase acks ⟨s, ms⟩ ⟨t, ms⟩ :=
  moves_kept h fun _ h => h.elim

section Write
variable {σ : Type} [BytesSource σ]

theorem writeLoop_spec : ∀ {fuel : Nat} {pending p : SendBuffer} {source left : σ} {limit : Nat} {result r : Written},
    Send.writeLoop fuel pending source limit result = some (p, left, r) →
    ∃ chunks : List Bytes, p = chunks.foldl SendBuffer.write pending ∧ r.bytes = result.bytes + chunks.flatten.length ∧
      chunks.flatten.length ≤ limit
  | 0, _, _, _, _, _, _, _, h => by cases h
  | fuel + 1, pending, p, source, left, limit, result, r, h => by
    unfold Send.writeLoop at h
    dsimp only at h
    split at h
    · next hemp =>
      cases h
      exact ⟨[], rfl, by rw [isEmpty_iff.mp hemp]; rfl, zero_le⟩
    obtain ⟨rest, hrest, h⟩ := bind_eq_some_iff.mp h
    have hrest := checkedSub_eq_some.mp hrest
    obtain ⟨chunks, rfl, hby, hle⟩ := writeLoop_spec h
    refine ⟨_ :: chunks, rfl, ?_, ?_⟩
    · rw [hby, flatten_cons, length_append, add_assoc]
    · rw [flatten_cons, length_append]
      omega

theorem write_spec {stream written : Send} {source left : σ} {limit : Nat} {result : Written}
    (h : stream.write source limit = some (.ok (written, left, result))) :
    ∃ chunks : List Bytes, written = { stream with pending := chunks.foldl SendBuffer.write stream.pending } ∧
      result.bytes = chunks.flatten.length ∧ stream.state = .ready ∧ chunks.flatten.length ≤ limit ∧
      stream.offset + chunks.flatten.length ≤ stream.maxData := by
  unfold Send.write at h
  split at h
  · cases h
  next hw =>
  split at h
  · cases h
  obtain ⟨budget, hbud, h⟩ := bind_eq_some_iff.mp h
  split at h
  · cases h
  obtain ⟨⟨p, rest, r⟩, hloop, h⟩ := bind_eq_some_iff.mp h
  cases h
  obtain ⟨chunks, rfl, hby, hle⟩ := writeLoop_spec hloop
  have hbud := checkedSub_eq_some.mp hbud
  refine ⟨chunks, rfl, by rw [hby, zero_add], ?_, by omega, ?_⟩
  · simpa [Send.isWritable] using hw
  · unfold Send.offset
    omega

theorem writeLoop_isSome : ∀ (fuel : Nat) (pending : SendBuffer) (source : σ) (limit : Nat) (result : Written),
    limit < fuel → (Send.writeLoop fuel pending source limit result).isSome
  | 0, _, _, _, _, h => absurd h (Nat.not_lt_zero _)
  | fuel + 1, pending, source, limit, result, h => by
    unfold Send.writeLoop
    dsimp only
    split
    · rfl
    next hemp =>
    have hle := BytesSource.length_le source limit
    have hpos : 0 < (BytesSource.popChunk source limit).1.1.length :=
      length_pos_iff.mpr fun hnil => hemp (isEmpty_iff.mpr hnil)
    rw [checkedSub_of_le hle]
    exact writeLoop_isSome fuel _ _ _ _ (by omega)

theorem write_isSome {stream : Send} (h : stream.offset ≤ stream.maxData) (source : σ) (limit : Nat) :
    (stream.write source limit).isSome := by
  unfold Send.write
  split
  · rfl
  split
  · rfl
  rw [checkedSub_of_le (show stream.pending.offset ≤ stream.maxData from h), bind_eq_bind, bind_some]
  split
  · rfl
  obtain ⟨⟨p, left, r⟩, hp⟩ := isSome_iff_exists.mp (writeLoop_isSome (min limit (stream.maxData - stream.pending.offset) + 1)
    stream.pending source _ ⟨0, 0⟩ (lt_add_one _))
  dsimp only
  rw [hp]
  rfl

variable {s t : StreamsState} {id : StreamId} {phase : Phase} {acks : Prop} {ms : List StreamMeta}

theorem moves_writeSource {source : σ} {r : Except WriteError Written} (hacks : ¬acks) (hid : LocalFirst phase s id)
    (h : s.writeSource id source = some (t, r)) : Moves phase acks ⟨s, ms⟩ ⟨t, ms⟩ := by
  obtain ⟨limit, hlim, h⟩ := bind_eq_some_iff.mp h
  have hU : ∀ id', id' = id → LocalFirst phase s id' := fun id' h => h ▸ hid
  split at h
  · cases h
    exact .refl
  next entry hl =>
  dsimp only at h
  split at h
  · -- The connection is blocked; the stream is noted as such.
    split at h <;> cases h
    · exact moves_kept (sendKept_setSend hl (.refl _)) hU
    · have ha : Send.Alike (getOrInsertSend (s.maxSendData id) entry)
          { getOrInsertSend (s.maxSendData id) entry with connectionBlocked := true } := ⟨rfl, rfl, rfl, le_rfl⟩
      exact moves_kept ((sendKept_setSend hl ha).then_blocked _ s.events) hU
  obtain ⟨result, hwr, h⟩ := bind_eq_some_iff.mp h
  match result, hwr, h with
  | .error e, _, h =>
    cases h
    exact moves_kept (sendKept_setSend hl (.refl _)) hU
  | .ok (written, _, result), hwr, h =>
    obtain ⟨chunks, rfl, hby, hst, hle, hmax⟩ := write_spec hwr
    cases h
    have hmove : Move phase acks ⟨s, ms⟩ _ := .wrote chunks hacks hl hid hlim hst hle hmax
    refine .single ?_
    rw [hby]
    unfold enqueue at hmove
    split <;> next hp =>
      simp only [hp] at hmove
      exact hmove

end Write

/-- The chunks are split after as many bytes as the limit allows, and `n` of them are used up. -/
structure SplitAt (chunks : List Bytes) (limit : Nat) (taken : Bytes) (n : Nat) (left : List Bytes) : Prop where
  bytes : taken = chunks.flatten.take limit
  rest : left.flatten = chunks.flatten.drop limit
  count : n + left.length = chunks.length
  used : left.head? ≠ some []

theorem popFrom_spec (limit : Nat) (chunks : List Bytes) : ∃ piece n rest,
    BytesArray.popFrom chunks limit = ((piece, n), rest) ∧ chunks.flatten = piece ++ rest.flatten ∧ piece.length ≤ limit ∧
      n + rest.length = chunks.length ∧ (piece = [] → rest.head? ≠ some [] ∧ (limit = 0 ∨ rest = [])) := by
  refine ⟨_, _, _, rfl, ?_⟩
  fun_induction BytesArray.popFrom chunks limit with
  | case1 => simp
  | case4 => grind [take_append_drop]
  | _ => grind

namespace Send

theorem writeLoop_splitAt : ∀ (fuel : Nat) (pending : SendBuffer) (chunks : List Bytes) (limit : Nat) (result : Written),
    limit < fuel → ∃ (pieces : List Bytes) (n : Nat) (left : List Bytes),
      writeLoop fuel pending (⟨chunks⟩ : BytesArray) limit result = some (pieces.foldl SendBuffer.write pending, ⟨left⟩,
        ⟨result.bytes + pieces.flatten.length, result.chunks + n⟩) ∧ SplitAt chunks limit pieces.flatten n left
  | fuel + 1, pending, chunks, limit, result, h => by
    obtain ⟨piece, n, rest, hpop, hflat, hlen, hcount, hend⟩ := popFrom_spec limit chunks
    simp only [writeLoop, BytesSource.popChunk, hpop]
    cases piece with
    | nil =>
      obtain ⟨hhead, hstop⟩ := hend rfl
      exact ⟨[], n, rest, rfl, by grind, by grind, hcount, hhead⟩
    | cons b bs =>
      obtain ⟨pieces, m, left, hloop, hs⟩ := writeLoop_splitAt fuel (pending.write (b :: bs)) rest (limit - (b :: bs).length)
        ⟨result.bytes + (b :: bs).length, result.chunks + n⟩ (by grind)
      obtain ⟨hbytes, hrest, hleft, hused⟩ := hs
      simp only [isEmpty_cons, Bool.false_eq_true, if_false, checkedSub_of_le hlen, bind_eq_bind, bind_some, hloop]
      refine ⟨(b :: bs) :: pieces, n + m, left, ?_, ?_, ?_, by omega, hused⟩
      · simp only [flatten_cons, length_append, add_assoc, foldl_cons]
      · rw [flatten_cons, hbytes, hflat, take_append, take_of_length_le hlen]
      · rw [hflat, drop_append, drop_of_length_le hlen, hrest]
        rfl

/-- A write takes as many bytes as the budget allows, in order, and leaves the rest of the chunks. -/
def WritesPrefix (stream : Send) (chunks : List Bytes) (limit : Nat) : Prop :=
  let budget := min limit (stream.maxData - stream.offset)
  ∃ (pieces : List Bytes) (n : Nat) (left : List Bytes), stream.write (⟨chunks⟩ : BytesArray) limit =
      some (.ok ({ stream with pending := pieces.foldl SendBuffer.write stream.pending }, ⟨left⟩,
        ⟨min budget chunks.flatten.length, n⟩)) ∧
    SplitAt chunks budget pieces.flatten n left

theorem writes_prefix {stream : Send} (hw : stream.isWritable = true) (hstop : stream.stopReason = none)
    (hlt : stream.offset < stream.maxData) (chunks : List Bytes) (limit : Nat) : stream.WritesPrefix chunks limit := by
  obtain ⟨pieces, n, left, hloop, hs⟩ := writeLoop_splitAt _ stream.pending chunks _ ⟨0, 0⟩ (lt_add_one _)
  refine ⟨pieces, n, left, ?_, hs⟩
  unfold write offset at *
  have hbud : stream.maxData - stream.pending.offset ≠ 0 := by omega
  simp [hw, hstop, checkedSub_of_le hlt.le, hbud, hloop, hs.bytes]

theorem writes_prefix_cut : (Send.new 3).WritesPrefix [[1], [], [2, 3, 4]] 9 := writes_prefix rfl rfl (by decide) _ _

end Send

section
variable {s t : StreamsState} {id : StreamId} {phase : Phase} {acks : Prop} {ms : List StreamMeta}

theorem finish_ok {stream finished : Send} (h : stream.finish = .ok finished) :
    stream.state = .ready ∧ finished = { stream with state := .dataSent false, finPending := true } := by
  unfold Send.finish at h
  split at h
  · cases h
  split at h
  · next hr => exact ⟨hr, (Except.ok.inj h).symm⟩
  · cases h

section
variable (hid : LocalFirst phase s id)
include hid

theorem moves_finish : Moves phase acks ⟨s, ms⟩ ⟨(s.finish id).1, ms⟩ := by
  unfold finish
  split
  · exact .refl
  next entry hl =>
  dsimp only
  split
  · exact moves_kept (sendKept_setSend hl (.refl _)) fun id' h => h ▸ hid
  next finished hf =>
  obtain ⟨hst, rfl⟩ := finish_ok hf
  have hmove : Move phase acks ⟨s, ms⟩ _ := .finished hl hid hst
  refine .single ?_
  unfold enqueue at hmove
  split <;> next hp =>
    simp only [hp] at hmove
    exact hmove

theorem moves_reset {pending pending' : Retransmits} {errorCode : Nat} {r : Except ClosedStream Unit}
    (h : s.reset pending id errorCode = some (t, pending', r)) :
    Moves phase acks ⟨s, ms⟩ ⟨t, ms⟩ := by
  unfold reset at h
  split at h
  · cases h
    exact .refl
  next entry hl =>
  cases hr : (getOrInsertSend (s.maxSendData id) entry).isReset with
  | true =>
    rw [if_pos hr] at h
    cases h
    exact moves_kept (sendKept_setSend hl (.refl _)) fun id' h => h ▸ hid
  | false =>
    rw [if_neg (Bool.not_eq_true _ ▸ hr)] at h
    obtain ⟨n, hn, h⟩ := bind_eq_some_iff.mp h
    obtain ⟨rest, hrest, ⟨⟩⟩ := exists_of_bind h
    have hrst : (getOrInsertSend (s.maxSendData id) entry).reset =
        { getOrInsertSend (s.maxSendData id) entry with state := .resetSent } := by
      unfold Send.reset
      split <;> simp_all [Send.isReset]
    rw [hrst]
    exact .single (.reset hl hid hr hn (checkedSub_eq_some.mp hrest))

theorem moves_setPriority {priority : Int} : Moves phase acks ⟨s, ms⟩ ⟨(s.setPriority id priority).1, ms⟩ := by
  unfold setPriority
  split
  · exact .refl
  next entry hl =>
  exact moves_kept (sendKept_setSend hl ⟨rfl, rfl, rfl, le_rfl⟩) fun id' h => h ▸ hid

end

variable {m : StreamMeta}

theorem ack_done {stream stream' : Send} (h : stream.ack m = some (stream', true)) :
    stream'.state = .dataSent true ∧ stream'.pending.isFullyAcked = true := by
  obtain ⟨pending, -, h⟩ := bind_eq_some_iff.mp h
  split at h
  · obtain ⟨rfl, hdone⟩ := Prod.mk.inj (some.inj h)
    obtain ⟨hfin, hacked⟩ := Bool.and_eq_true_iff.mp hdone
    exact ⟨congrArg SendState.dataSent hfin, hacked⟩
  · cases (Prod.mk.inj (some.inj h)).2
  · cases (Prod.mk.inj (some.inj h)).2

theorem moves_receivedAckOf (hrdy : phase = .ready) (hacks : acks) (h : s.receivedAckOf m = some t) :
    Moves phase acks ⟨s, m :: ms⟩ ⟨t, ms⟩ := by
  unfold receivedAckOf at h
  split at h
  · next hl =>
    cases h
    refine .single (.ignored hrdy fun stream hs => ?_)
    rw [sendAt, hl] at hs
    cases hs
  · next hl =>
    cases h
    refine .single (.ignored hrdy fun stream hs => ?_)
    rw [sendAt, hl] at hs
    cases hs
  next stream hl =>
  have hat := sendAt_of_lookup hl
  split at h
  · next hr =>
    cases h
    refine .single (.ignored hrdy fun stream' hs => ?_)
    obtain rfl := some.inj (hat.symm.trans hs)
    exact hr
  next hr =>
  obtain ⟨len, hlen, h⟩ := bind_eq_some_iff.mp h
  obtain ⟨rest, hrest, h⟩ := bind_eq_some_iff.mp h
  obtain ⟨⟨stream', done⟩, hack, h⟩ := bind_eq_some_iff.mp h
  have hrest : s.unackedData = m.offsets.2 - m.offsets.1 + rest := by
    rw [checkedSub_eq_some.mp hrest, checkedSub_eq_some.mp hlen, Nat.add_sub_cancel_left]
  have hmove : Move phase acks ⟨s, m :: ms⟩ _ := .acked hrdy hat (Bool.not_eq_true _ ▸ hr) hrest hack
  cases done with
  | false =>
    cases h
    exact .single hmove
  | true =>
    obtain ⟨u, hu, rfl⟩ := exists_of_bind h
    have hfreed : Move phase acks ⟨{ s.setSend m.id stream' with unackedData := rest }, ms⟩ ⟨u, ms⟩ :=
      .freed hrdy hacks (sendAt_setSend_self (s := s) stream') (.inr (ack_done hack)) hu
    exact .tail (.tail (.single hmove) hfreed) (.kept (sendKept_of_eq (U := fun _ => False) rfl rfl rfl)
      fun _ h => h.elim)

theorem moves_resetAcked (hrdy : phase = .ready) (hacks : acks) (h : s.resetAcked id = some t) :
    Moves phase acks ⟨s, ms⟩ ⟨t, ms⟩ := by
  unfold resetAcked at h
  split at h
  · next stream hs =>
    split at h
    · next hr => exact .single (.freed hrdy hacks hs (.inl hr) h)
    cases h
    exact .refl
  cases h
  exact .refl

theorem moves_retransmit (hrdy : phase = .ready) : Moves phase acks ⟨s, m :: ms⟩ ⟨s.retransmit m, ms⟩ := by
  unfold retransmit
  split
  · next hs =>
    refine .single (.ignored hrdy fun stream h => ?_)
    rw [hs] at h
    cases h
  next stream hs =>
  have hmove : Move phase acks ⟨s, m :: ms⟩ _ := .lost hrdy hs
  refine .single ?_
  unfold enqueue at hmove
  split
  · next hp =>
    rw [if_pos hp] at hmove
    exact hmove
  next hp =>
  rw [if_neg hp] at hmove
  exact hmove

theorem moves_resets (hrdy : phase = .ready) (hacks : acks) : ∀ {resets : List (StreamId × Nat)} {s : StreamsState},
    resets.foldlM (fun streams reset => streams.resetAcked reset.1) s = some t → Moves phase acks ⟨s, ms⟩ ⟨t, ms⟩
  | [], s, h => by
    cases h
    exact .refl
  | reset :: resets, s, h => by
    obtain ⟨u, hu, h⟩ := bind_eq_some_iff.mp h
    exact (moves_resetAcked hrdy hacks hu).trans (moves_resets hrdy hacks h)

theorem moves_acks (hrdy : phase = .ready) (hacks : acks) : ∀ {frames : List StreamMeta} {s : StreamsState},
    frames.foldlM receivedAckOf s = some t → Moves phase acks ⟨s, frames ++ ms⟩ ⟨t, ms⟩
  | [], s, h => by
    cases h
    exact .refl
  | m :: frames, s, h => by
    obtain ⟨u, hu, h⟩ := bind_eq_some_iff.mp h
    exact (moves_receivedAckOf hrdy hacks hu).trans (moves_acks hrdy hacks h)

theorem moves_losses (hrdy : phase = .ready) : ∀ (frames : List StreamMeta) (s : StreamsState),
    Moves phase acks ⟨s, frames ++ ms⟩ ⟨frames.foldl retransmit s, ms⟩
  | [], _ => .refl
  | m :: frames, s => (moves_retransmit hrdy).trans (moves_losses hrdy frames (s.retransmit m))

theorem moves_writeStreamFrames {fair : Bool} {maxBufSize len' : Nat} : ∀ {fuel : Nat} {s : StreamsState} {len : Nat}
    {frames frames' : List (StreamMeta × Bool)} (ms : List StreamMeta),
    writeStreamFramesLoop fair maxBufSize fuel s len frames = some (t, len', frames') →
    ∃ sent, frames' = frames ++ sent ∧ Moves phase acks ⟨s, ms⟩ ⟨t, (sent.map Prod.fst).reverse ++ ms⟩
  | 0, s, len, frames, frames', ms, h => by
    obtain ⟨rfl, -, rfl⟩ : s = t ∧ len = len' ∧ frames = frames' := by
      simpa [writeStreamFramesLoop] using h
    exact ⟨[], by simp, .refl⟩
  | fuel + 1, s, len, frames, frames', ms, h => by
    unfold writeStreamFramesLoop at h
    split at h
    · next hroom =>
      split at h
      · obtain ⟨rfl, -, rfl⟩ : s = t ∧ len = len' ∧ frames = frames' := by simpa using h
        exact ⟨[], by simp, .refl⟩
      next next queue hpop =>
      dsimp only at h
      split at h
      · next hs =>
        obtain ⟨sent, hsent, hmoves⟩ := moves_writeStreamFrames ms h
        refine ⟨sent, hsent, .head (.skipped hpop fun stream h => ?_) hmoves⟩
        have := hs.symm.trans h
        cases this
      next stream hs =>
      split at h
      · next hr =>
        obtain ⟨sent, hsent, hmoves⟩ := moves_writeStreamFrames ms h
        refine ⟨sent, hsent, .head (.skipped hpop fun stream' h => ?_) hmoves⟩
        obtain rfl := some.inj (hs.symm.trans h)
        exact hr
      next hr =>
      obtain ⟨maxLen, hmax, h⟩ := bind_eq_some_iff.mp h
      obtain ⟨⟨stream', m, encodeLength⟩, hnext, h⟩ := bind_eq_some_iff.mp h
      obtain ⟨data, -, h⟩ := bind_eq_some_iff.mp h
      obtain ⟨sent, rfl, hmoves⟩ := moves_writeStreamFrames (m :: ms) h
      have hroom : 16 ≤ maxLen := by
        have := checkedSub_eq_some.mp hmax
        have := VarInt.size_le next.id.toNat
        omega
      refine ⟨(m, encodeLength) :: sent, by simp, .head (.sent fair hpop hs (Bool.not_eq_true _ ▸ hr) hroom hnext) ?_⟩
      rw [map_cons, reverse_cons, append_assoc]
      exact hmoves
    obtain ⟨rfl, -, rfl⟩ : s = t ∧ len = len' ∧ frames = frames' := by simpa using h
    exact ⟨[], by simp, .refl⟩

end

namespace Connection

variable {c d : Connection} {acks : Prop}

variable {id : StreamId} {i : Nat}

theorem moves_sendCall {call : SendCall} (hacks : ¬acks) (hid : LocalFirst c.phase c.streams id)
    (h : c.sendCall id call = some d) : d.phase = c.phase ∧ Moves c.phase acks c.sending d.sending := by
  cases call with
  | write data | writeChunks data =>
    obtain ⟨⟨streams, r⟩, hw, rfl⟩ := exists_of_bind h
    exact ⟨rfl, moves_writeSource hacks hid hw⟩
  | finish =>
    cases h
    exact ⟨rfl, moves_finish hid⟩
  | reset errorCode =>
    obtain ⟨⟨streams, pending, r⟩, hr, rfl⟩ := exists_of_bind h
    exact ⟨rfl, moves_reset hid hr⟩
  | setPriority priority =>
    cases h
    exact ⟨rfl, moves_setPriority hid⟩

theorem moves_recvCall {call : RecvCall} (h : c.recvCall id call = some d) :
    d.phase = c.phase ∧ Moves c.phase acks c.sending d.sending := by
  cases call with
  | read ordered maxLengths =>
    obtain ⟨⟨streams, pending, r⟩, hr, rfl⟩ := exists_of_bind h
    exact ⟨rfl, moves_still (sendKept_session hr)⟩
  | stop errorCode =>
    obtain ⟨⟨streams, pending, r⟩, hr, rfl⟩ := exists_of_bind h
    exact ⟨rfl, moves_still (sendKept_stop hr)⟩
  | checkReset =>
    obtain ⟨⟨streams, pending, r⟩, hr, rfl⟩ := exists_of_bind h
    exact ⟨rfl, moves_still (sendKept_checkReset hr)⟩

theorem moves_receiveFrame {frame : Frame} (hrdy : c.phase = .ready) (h : c.receiveFrame frame = some d) :
    d.phase = c.phase ∧ Moves c.phase acks c.sending d.sending := by
  have hloc : ∀ id, LocalFirst c.phase c.streams id := fun id hne => absurd hrdy hne
  cases frame with
  | stream frame payloadLen =>
    obtain ⟨⟨streams, r⟩, hr, rfl⟩ := exists_of_bind h
    exact ⟨rfl, moves_still (sendKept_received hr)⟩
  | resetStream frame =>
    obtain ⟨⟨streams, r⟩, hr, rfl⟩ := exists_of_bind h
    exact ⟨rfl, moves_still (sendKept_receivedReset hr)⟩
  | stopSending id errorCode =>
    cases h
    exact ⟨rfl, moves_kept (sendKept_receivedStopSending errorCode) fun id' _ => hloc id'⟩
  | maxData n =>
    cases h
    exact ⟨rfl, .single (.raised n)⟩
  | maxStreamData id offset =>
    obtain ⟨⟨streams, r⟩, hr, rfl⟩ := exists_of_bind h
    exact ⟨rfl, moves_kept (sendKept_receivedMaxStreamData hr) fun id' _ => hloc id'⟩
  | maxStreams dir count =>
    cases h
    exact ⟨rfl, moves_still (sendKept_receivedMaxStreams dir count)⟩

theorem moves_transmit {len extra maxSize : Nat} {fair : Bool} (h : c.transmit len extra maxSize fair = some d) :
    d.phase = c.phase ∧ Moves c.phase acks c.sending d.sending := by
  obtain ⟨⟨w, encoded⟩, hw, h⟩ := bind_eq_some_iff.mp h
  have hctl : Moves c.phase acks c.sending ⟨w.streams, c.inflight⟩ := moves_still (announced_write hw).sendKept
  cases encoded with
  | false =>
    cases h
    refine ⟨rfl, hctl.tail (.perm ?_)⟩
    simp [inflight]
  | true =>
    obtain ⟨⟨streams, len', frames⟩, hfr, rfl⟩ := exists_of_bind h
    obtain ⟨sent, rfl, hmoves⟩ := moves_writeStreamFrames c.inflight hfr
    refine ⟨rfl, (hctl.trans hmoves).tail (.perm ?_)⟩
    have hinflight : (c.sentPackets ++ [SentPacket.mk w.sent (frames.map Prod.fst)]).flatMap (·.streamFrames) =
        c.inflight ++ frames.map Prod.fst := by
      simp [inflight]
    exact ((reverse_perm (frames.map Prod.fst)).append_right _).trans (perm_append_comm.trans (.of_eq hinflight.symm))

theorem inflight_perm {packet : SentPacket} (h : c.sentPackets[i]? = some packet) :
    c.inflight.Perm (packet.streamFrames ++ (c.sentPackets.eraseIdx i).flatMap (·.streamFrames)) := by
  obtain ⟨hi, rfl⟩ := List.getElem?_eq_some_iff.mp h
  exact (getElem_cons_eraseIdx_perm hi).symm.flatMap_right _

theorem moves_ack (hrdy : c.phase = .ready) (hacks : acks) (h : c.ack i = some d) :
    d.phase = c.phase ∧ Moves c.phase acks c.sending d.sending := by
  unfold ack at h
  split at h
  · cases h
    exact ⟨rfl, .refl⟩
  next packet hp =>
  obtain ⟨streams, hs, rfl⟩ := exists_of_bind h
  obtain ⟨u, hu, hs⟩ := bind_eq_some_iff.mp hs
  exact ⟨rfl, .head (.perm (inflight_perm hp)) ((moves_resets hrdy hacks hu).trans (moves_acks hrdy hacks hs))⟩

theorem moves_lost (hrdy : c.phase = .ready) :
    (c.lost i).phase = c.phase ∧ Moves c.phase acks c.sending (c.lost i).sending := by
  unfold lost
  split
  · exact ⟨rfl, .refl⟩
  next packet hp =>
  exact ⟨rfl, .head (.perm (inflight_perm hp)) (moves_losses hrdy packet.streamFrames c.streams)⟩

theorem moves_probe : (c.probe i).phase = c.phase ∧ Moves c.phase acks c.sending (c.probe i).sending := by
  unfold probe
  split
  · exact ⟨rfl, .refl⟩
  next packet hp =>
  refine ⟨rfl, .single (.perm (.of_eq ?_))⟩
  obtain ⟨hi, rfl⟩ := List.getElem?_eq_some_iff.mp hp
  unfold inflight
  have hset : (c.sentPackets.map (·.streamFrames)).set i c.sentPackets[i].streamFrames =
      c.sentPackets.map (·.streamFrames) := by
    rw [← map_set, set_getElem_self]
  rw [flatMap_def, flatMap_def, map_set, hset]

def Handshake : Event → Prop
  | .init0rtt _ | .established _ | .zeroRttRejected _ | .retry => True
  | _ => False

/-- Before the handshake is done, the peer has opened no stream. -/
def NoneAccepted (c : Connection) : Prop :=
  c.phase ≠ .ready → ∀ dir, c.streams.nextRemote dir = 0 ∧ c.streams.nextReportedRemote dir = 0

theorem Handle.localFirst (h : c.Handle id) (hnone : c.NoneAccepted) : LocalFirst c.phase c.streams id := fun hne => by
  refine h.resolve_right fun hlt => ?_
  rw [(hnone hne id.dir).2] at hlt
  exact Nat.not_lt_zero _ hlt

theorem moves_step {e : Event} (hnone : c.NoneAccepted) (he : c.Enabled e) (hh : ¬Handshake e) (h : c.step e = some d) :
    d.phase = c.phase ∧ Moves c.phase (∃ i, e = .ack i) c.sending d.sending := by
  cases e with
  | openStream dir =>
    obtain ⟨⟨streams, r⟩, hr, rfl⟩ := exists_of_bind h
    exact ⟨rfl, moves_still (sendKept_openStream hr)⟩
  | accept dir =>
    cases h
    exact ⟨rfl, moves_still sendKept_accept⟩
  | send id call => exact moves_sendCall (fun ⟨i, hi⟩ => by cases hi) (Handle.localFirst he hnone) h
  | recv id call => exact moves_recvCall h
  | poll =>
    obtain ⟨⟨streams, r⟩, hr, rfl⟩ := exists_of_bind h
    exact ⟨rfl, moves_still (sendKept_poll hr)⟩
  | setMaxConcurrent dir count =>
    obtain ⟨streams, hs, h⟩ := bind_eq_some_iff.mp h
    obtain ⟨⟨pending, b⟩, -, rfl⟩ := exists_of_bind h
    exact ⟨rfl, moves_still (grown_setMaxConcurrent hs).sendKept⟩
  | setReceiveWindow n =>
    cases h
    exact ⟨rfl, moves_still (sendKept_setReceiveWindow n)⟩
  | frame frame => exact moves_receiveFrame he.1 h
  | packetEnd =>
    obtain ⟨⟨pending, b⟩, -, rfl⟩ := exists_of_bind h
    exact ⟨rfl, .refl⟩
  | transmit len extra maxSize fair => exact moves_transmit h
  | ack i => exact moves_ack he ⟨i, rfl⟩ h
  | lost i =>
    cases h
    exact moves_lost he
  | probe i =>
    cases h
    exact moves_probe
  | init0rtt params | established params | zeroRttRejected params | retry => exact absurd trivial hh

end Connection
end SaorsaTransport
