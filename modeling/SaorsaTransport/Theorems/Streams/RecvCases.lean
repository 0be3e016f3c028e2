import SaorsaTransport.Theorems.Delivery
import SaorsaTransport.Theorems.Streams.Views

/-! What the frame handlers and calls of the receiving side can do, case by case. -/

namespace SaorsaTransport.Recv
variable {rs rs' : Recv} {received maxData : Nat}

theorem isReceiving_iff : rs.isReceiving = true ↔ ∃ size, rs.state = .recv size := by
  unfold isReceiving
  split
  · next size hs => exact ⟨fun _ => ⟨size, hs⟩, fun _ => rfl⟩
  · next n code hs => exact ⟨nofun, fun ⟨size, hs'⟩ => RecvState.noConfusion (hs.symm.trans hs')⟩

theorem reset_ok {errorCode finalOffset : Nat} {fresh : Bool}
    (h : rs.reset errorCode finalOffset received maxData = .ok (rs', fresh)) :
    (∀ n, rs.finalOffset = some n → n = finalOffset) ∧ (rs.finalOffset = none → rs.end_ ≤ finalOffset) ∧
    received + (finalOffset - rs.end_) ≤ maxData ∧
    (fresh = false ∧ rs' = rs ∧ rs.isReceiving = false ∨
      fresh = true ∧ rs.isReceiving = true ∧
        rs' = { rs with state := .resetRecvd finalOffset errorCode, assembler := rs.assembler.clear }) := by
  unfold Recv.reset at h
  cases hv : rs.validateFinalOffset finalOffset with
  | error e =>
    rw [hv] at h
    cases h
  | ok _ =>
    cases hc : rs.creditConsumedBy finalOffset received maxData with
    | error e =>
      rw [hv, hc] at h
      cases h
    | ok n =>
      rw [hv, hc] at h
      have hroom : received + (finalOffset - rs.end_) ≤ maxData := by
        unfold creditConsumedBy at hc
        dsimp only at hc
        split at hc
        · cases hc
        next hroom =>
        rw [not_or, not_lt, not_lt] at hroom
        exact hroom.2
      unfold validateFinalOffset at hv
      refine ⟨fun n hn => ?_, fun hn => ?_, hroom, ?_⟩
      · rw [hn] at hv
        dsimp only at hv
        split at hv
        · cases hv
        · next hne => exact not_not.mp hne
      · rw [hn] at hv
        dsimp only at hv
        split at hv
        · cases hv
        · next hlt => exact not_lt.mp hlt
      · split at h
        · next hs =>
          cases h
          exact .inl ⟨rfl, rfl, by unfold isReceiving; rw [hs]⟩
        next hs =>
        cases h
        exact .inr ⟨rfl, isReceiving_iff.mpr ⟨_, hs⟩, rfl⟩

end SaorsaTransport.Recv

namespace SaorsaTransport.StreamsState
open Library

variable {s t : StreamsState} {id : StreamId}

structure Credited (s t : StreamsState) (credits : Nat) : Prop where
  eq : t = { s with localMaxData := t.localMaxData, receiveWindowShrinkDebt := t.receiveWindowShrinkDebt }
  localMaxData : t.localMaxData = if s.receiveWindowShrinkDebt < credits then
    saturatingAdd s.localMaxData (credits - s.receiveWindowShrinkDebt) else s.localMaxData
  debt : t.receiveWindowShrinkDebt = s.receiveWindowShrinkDebt - credits

theorem credited_addReadCredits {credits : Nat} {transmit : Bool} (h : s.addReadCredits credits = some (t, transmit)) :
    Credited s t credits := by
  -- The result is the state with its two counters moved, whichever way the limit compares with a `VarInt`.
  have hst : ∀ {u : StreamsState}, (if VarInt.max < u.localMaxData then some (u, false) else do
      let diff ← checkedSub u.localMaxData u.sentMaxData
      some (u, decide (u.receiveWindow / 8 ≤ diff))) = some (t, transmit) → u = t := fun {u} hu => by
    split at hu
    · exact congrArg Prod.fst (Option.some.inj hu)
    obtain ⟨diff, -, hu⟩ := Option.bind_eq_some_iff.mp hu
    exact congrArg Prod.fst (Option.some.inj hu)
  obtain rfl := hst h
  split
  · next hd =>
    exact ⟨rfl, (if_pos hd).symm, (Nat.sub_eq_zero_of_le hd.le).symm⟩
  next hd =>
  exact ⟨rfl, (if_neg hd).symm, rfl⟩

def takeBytes (s : StreamsState) (id : StreamId) (rs : Recv) (newBytes : Nat) : StreamsState :=
  { s.setRecv id rs with dataRecvd := saturatingAdd s.dataRecvd newBytes }

inductive Received (s : StreamsState) (frame : StreamFrame) (payloadLen : Nat) :
    StreamsState → Except TransportError Bool → Prop
  | invalid {e : TransportError} : s.validateReceiveId frame.id = .error e → Received s frame payloadLen s (.error e)
  | closed : frame.id ∉ s.recv → Received s frame payloadLen s (.ok false)
  | finished {entry : Option StreamRecv} : s.recv.lookup frame.id = some entry →
      (getOrInsertRecv s.streamReceiveWindow entry).isReceiving = false →
      Received s frame payloadLen (s.setRecv frame.id (getOrInsertRecv s.streamReceiveWindow entry)) (.ok false)
  | rejected {entry : Option StreamRecv} {e : TransportError} : s.recv.lookup frame.id = some entry →
      (getOrInsertRecv s.streamReceiveWindow entry).isReceiving = true →
      (getOrInsertRecv s.streamReceiveWindow entry).ingest frame payloadLen s.dataRecvd s.localMaxData = some (.error e) →
      Received s frame payloadLen (s.setRecv frame.id (getOrInsertRecv s.streamReceiveWindow entry)) (.error e)
  | taken {entry : Option StreamRecv} {rs : Recv} {newBytes : Nat} {closed : Bool} :
      s.validateReceiveId frame.id = .ok () → s.recv.lookup frame.id = some entry →
      (getOrInsertRecv s.streamReceiveWindow entry).isReceiving = true →
      (getOrInsertRecv s.streamReceiveWindow entry).ingest frame payloadLen s.dataRecvd s.localMaxData =
        some (.ok (rs, newBytes, closed)) → rs.stopped = false →
      Received s frame payloadLen ((s.takeBytes frame.id rs newBytes).onStreamFrame true frame.id) (.ok false)
  | discarded {entry : Option StreamRecv} {rs : Recv} {newBytes : Nat} {transmit : Bool} {t : StreamsState} :
      s.recv.lookup frame.id = some entry → (getOrInsertRecv s.streamReceiveWindow entry).isReceiving = true →
      (getOrInsertRecv s.streamReceiveWindow entry).ingest frame payloadLen s.dataRecvd s.localMaxData =
        some (.ok (rs, newBytes, false)) → rs.stopped = true →
      (s.takeBytes frame.id rs newBytes).addReadCredits newBytes = some (t, transmit) →
      Received s frame payloadLen t (.ok transmit)
  | ended {entry : Option StreamRecv} {rs : Recv} {newBytes : Nat} {transmit : Bool} {u t : StreamsState} :
      s.recv.lookup frame.id = some entry → (getOrInsertRecv s.streamReceiveWindow entry).isReceiving = true →
      (getOrInsertRecv s.streamReceiveWindow entry).ingest frame payloadLen s.dataRecvd s.localMaxData =
        some (.ok (rs, newBytes, true)) → rs.stopped = true →
      ((s.takeBytes frame.id rs newBytes).eraseRecv frame.id).streamRecvFreed frame.id (.open_ rs) = some u →
      u.addReadCredits newBytes = some (t, transmit) → Received s frame payloadLen t (.ok transmit)

variable {r : Except TransportError Bool}

theorem received_cases {frame : StreamFrame} {payloadLen : Nat}
    (h : s.received frame payloadLen = some (t, r)) : Received s frame payloadLen t r := by
  unfold received at h
  cases hv : s.validateReceiveId frame.id with
  | error e =>
    simp only [hv] at h
    cases h
    exact .invalid hv
  | ok _ =>
    simp only [hv] at h
    cases hl : s.recv.lookup frame.id with
    | none =>
      simp only [hl] at h
      cases h
      exact .closed (AList.lookup_eq_none.mp hl)
    | some entry =>
      simp only [hl] at h
      cases hr : (getOrInsertRecv s.streamReceiveWindow entry).isReceiving with
      | false =>
        rw [hr] at h
        cases h
        exact .finished hl hr
      | true =>
        rw [hr] at h
        obtain ⟨ingested, hi, h⟩ := Option.bind_eq_some_iff.mp h
        match ingested, hi, h with
        | .error e, hi, h =>
          cases h
          exact .rejected hl hr hi
        | .ok (rs, newBytes, closed), hi, h =>
          cases hstop : rs.stopped with
          | false =>
            simp only [hstop, Bool.not_false, if_true] at h
            cases h
            exact .taken hv hl hr hi hstop
          | true =>
            simp only [hstop, Bool.not_true, Bool.false_eq_true, if_false] at h
            obtain ⟨u, hu, h⟩ := Option.bind_eq_some_iff.mp h
            obtain ⟨⟨v, transmit⟩, hcred, ⟨⟩⟩ := exists_of_bind h
            cases closed with
            | false =>
              obtain rfl : _ = u := Option.some.inj hu
              exact .discarded hl hr hi hstop hcred
            | true => exact .ended hl hr hi hstop hu hcred

/-- The end of `received_reset`, which accounts for the bytes that the stream had in all. -/
def Settled (s t : StreamsState) (rs : Recv) (finalOffset : Nat) : Prop :=
  rs.assembler.bytesRead = finalOffset ∧ t = s ∨
    ∃ newBytes credits transmit, finalOffset = rs.end_ + newBytes ∧ finalOffset = rs.assembler.bytesRead + credits ∧
      ({ s with dataRecvd := saturatingAdd s.dataRecvd newBytes } : StreamsState).addReadCredits credits = some (t, transmit)

inductive ReceivedReset (s : StreamsState) (frame : ResetStream) : StreamsState → Except TransportError Bool → Prop
  | invalid {e : TransportError} : s.validateReceiveId frame.id = .error e → ReceivedReset s frame s (.error e)
  | closed : frame.id ∉ s.recv → ReceivedReset s frame s (.ok false)
  | rejected {entry : Option StreamRecv} {e : TransportError} : s.recv.lookup frame.id = some entry →
      (getOrInsertRecv s.streamReceiveWindow entry).reset frame.errorCode frame.finalOffset s.dataRecvd s.localMaxData =
        .error e →
      ReceivedReset s frame (s.setRecv frame.id (getOrInsertRecv s.streamReceiveWindow entry)) (.error e)
  | redundant {entry : Option StreamRecv} {rs : Recv} : s.recv.lookup frame.id = some entry →
      (getOrInsertRecv s.streamReceiveWindow entry).reset frame.errorCode frame.finalOffset s.dataRecvd s.localMaxData =
        .ok (rs, false) →
      ReceivedReset s frame (s.setRecv frame.id rs) (.ok false)
  | accepted {entry : Option StreamRecv} {rs : Recv} {t : StreamsState} {transmit : Bool} :
      s.validateReceiveId frame.id = .ok () → s.recv.lookup frame.id = some entry →
      (getOrInsertRecv s.streamReceiveWindow entry).reset frame.errorCode frame.finalOffset s.dataRecvd s.localMaxData =
        .ok (rs, true) → rs.stopped = false →
      Settled ((s.setRecv frame.id rs).onStreamFrame true frame.id) t rs frame.finalOffset →
      ReceivedReset s frame t (.ok transmit)
  | disposed {entry : Option StreamRecv} {rs : Recv} {u t : StreamsState} {transmit : Bool} :
      s.validateReceiveId frame.id = .ok () → s.recv.lookup frame.id = some entry →
      (getOrInsertRecv s.streamReceiveWindow entry).reset frame.errorCode frame.finalOffset s.dataRecvd s.localMaxData =
        .ok (rs, true) → rs.stopped = true →
      ((s.setRecv frame.id rs).eraseRecv frame.id).streamRecvFreed frame.id (.open_ rs) = some u →
      Settled (u.onStreamFrame false frame.id) t rs frame.finalOffset → ReceivedReset s frame t (.ok transmit)

theorem settled_of_eq {rs : Recv} {finalOffset : Nat} (h : (if rs.assembler.bytesRead ≠ finalOffset then do
        let newBytes ← checkedSub finalOffset rs.end_
        let self := { s with dataRecvd := saturatingAdd s.dataRecvd newBytes }
        let (self, transmit) ← self.addReadCredits (← checkedSub finalOffset rs.assembler.bytesRead)
        some (self, Except.ok (ε := TransportError) transmit)
      else some (s, .ok false)) = some (t, r)) :
    Settled s t rs finalOffset ∧ ∃ transmit, r = .ok transmit := by
  by_cases hread : rs.assembler.bytesRead = finalOffset
  · rw [if_neg fun hne => hne hread, Option.some.injEq, Prod.mk.injEq] at h
    obtain ⟨rfl, rfl⟩ := h
    exact ⟨.inl ⟨hread, rfl⟩, _, rfl⟩
  rw [if_pos hread] at h
  obtain ⟨newBytes, hnew, h⟩ := Option.bind_eq_some_iff.mp h
  obtain ⟨credits, hcreds, h⟩ := Option.bind_eq_some_iff.mp h
  obtain ⟨⟨v, transmit⟩, hadd, ⟨⟩⟩ := exists_of_bind h
  exact ⟨.inr ⟨newBytes, credits, transmit, checkedSub_eq_some.mp hnew, checkedSub_eq_some.mp hcreds, hadd⟩, _, rfl⟩

theorem receivedReset_cases {frame : ResetStream}
    (h : s.receivedReset frame = some (t, r)) : ReceivedReset s frame t r := by
  unfold receivedReset at h
  cases hv : s.validateReceiveId frame.id with
  | error e =>
    simp only [hv] at h
    cases h
    exact .invalid hv
  | ok _ =>
    simp only [hv] at h
    cases hl : s.recv.lookup frame.id with
    | none =>
      simp only [hl] at h
      cases h
      exact .closed (AList.lookup_eq_none.mp hl)
    | some entry =>
      simp only [hl] at h
      match hr : (getOrInsertRecv s.streamReceiveWindow entry).reset frame.errorCode frame.finalOffset s.dataRecvd
          s.localMaxData with
      | .error e =>
        simp only [hr] at h
        cases h
        exact .rejected hl hr
      | .ok (rs, false) =>
        simp only [hr] at h
        cases h
        exact .redundant hl hr
      | .ok (rs, true) =>
        simp only [hr] at h
        obtain ⟨u, hu, h⟩ := Option.bind_eq_some_iff.mp h
        obtain ⟨hs, transmit, rfl⟩ := settled_of_eq h
        cases hstop : rs.stopped with
        | false =>
          rw [hstop] at hu hs
          obtain rfl : _ = u := Option.some.inj hu
          exact .accepted hv hl hr hstop hs
        | true =>
          rw [hstop] at hu hs
          exact .disposed hv hl hr hstop hu hs

inductive StopCases (s : StreamsState) (id : StreamId) : StreamsState → Prop
  | closed : id ∉ s.recv → StopCases s id s
  | stopped {entry : Option StreamRecv} : s.recv.lookup id = some entry →
      (getOrInsertRecv s.streamReceiveWindow entry).stopped = true →
      StopCases s id (s.setRecv id (getOrInsertRecv s.streamReceiveWindow entry))
  | kept {entry : Option StreamRecv} {rs : Recv} {credits : Nat} {stopSending transmit : Bool} {t : StreamsState} :
      s.recv.lookup id = some entry →
      (getOrInsertRecv s.streamReceiveWindow entry).stop = some (.ok (rs, credits, stopSending)) →
      rs.finalOffsetUnknown = true → (s.setRecv id rs).addReadCredits credits = some (t, transmit) → StopCases s id t
  | freed {entry : Option StreamRecv} {rs : Recv} {credits : Nat} {stopSending transmit : Bool} {u t : StreamsState} :
      s.recv.lookup id = some entry →
      (getOrInsertRecv s.streamReceiveWindow entry).stop = some (.ok (rs, credits, stopSending)) →
      rs.finalOffsetUnknown = false → (s.eraseRecv id).streamRecvFreed id (.open_ rs) = some u →
      u.addReadCredits credits = some (t, transmit) → StopCases s id t

theorem stop_cases {pending pending' : Retransmits} {errorCode : Nat} {r : Except ClosedStream Unit}
    (h : s.stop pending id errorCode = some (t, pending', r)) : StopCases s id t := by
  unfold stop at h
  cases hl : s.recv.lookup id with
  | none =>
    simp only [hl] at h
    cases h
    exact .closed (AList.lookup_eq_none.mp hl)
  | some entry =>
    simp only [hl] at h
    obtain ⟨stopped, hs, h⟩ := Option.bind_eq_some_iff.mp h
    match stopped, hs, h with
    | .error e, hs, h =>
      cases h
      refine .stopped hl ?_
      by_contra hn
      rw [Bool.not_eq_true] at hn
      unfold Recv.stop at hs
      rw [hn] at hs
      obtain ⟨credits, -, ⟨⟩⟩ := exists_of_bind hs
    | .ok (rs, credits, stopSending), hs, h =>
      obtain ⟨u, hu, h⟩ := Option.bind_eq_some_iff.mp h
      obtain ⟨⟨v, transmit⟩, hadd, ⟨⟩⟩ := exists_of_bind h
      cases hf : rs.finalOffsetUnknown with
      | true =>
        rw [hf] at hu
        obtain rfl : _ = u := Option.some.inj hu
        exact .kept hl hs hf hadd
      | false =>
        rw [hf] at hu
        exact .freed hl hs hf hu hadd

theorem checkReset_cases {pending pending' : Retransmits} {r : Except ClosedStream (Option Nat)}
    (h : s.checkReset pending id = some (t, pending', r)) :
    t = s ∨ ∃ rs code, s.recvAt id = some rs ∧ rs.stopped = false ∧ rs.resetCode = some code ∧
      (s.eraseRecv id).streamRecvFreed id (.open_ rs) = some t := by
  unfold checkReset at h
  cases hl : s.recv.lookup id with
  | none =>
    simp only [hl, Option.some.injEq, Prod.mk.injEq] at h
    exact .inl h.1.symm
  | some entry =>
    simp only [hl] at h
    have hat := recvAt_of_lookup hl
    cases he : entry.bind StreamRecv.asOpenRecv with
    | none =>
      simp only [he, Option.some.injEq, Prod.mk.injEq] at h
      exact .inl h.1.symm
    | some rs =>
      simp only [he] at h
      cases hstop : rs.stopped with
      | true =>
        simp only [hstop, if_true, Option.some.injEq, Prod.mk.injEq] at h
        exact .inl h.1.symm
      | false =>
        simp only [hstop, Bool.false_eq_true, if_false] at h
        cases hcode : rs.resetCode with
        | none =>
          simp only [hcode, Option.some.injEq, Prod.mk.injEq] at h
          exact .inl h.1.symm
        | some code =>
          simp only [hcode] at h
          obtain ⟨u, hu, h⟩ := Option.bind_eq_some_iff.mp h
          obtain ⟨⟨p, b⟩, -, ⟨⟩⟩ := exists_of_bind h
          exact .inr ⟨rs, code, hat.trans he, hstop, hcode, hu⟩

end SaorsaTransport.StreamsState

namespace SaorsaTransport.Chunks
open Library StreamsState

def handed (results : List (Except ReadError (Option Chunk))) : List Chunk :=
  results.filterMap fun r => r.toOption.join

theorem handed_cons (r : Except ReadError (Option Chunk)) (results : List (Except ReadError (Option Chunk))) :
    handed (r :: results) = r.toOption.join.toList ++ handed results := by
  unfold handed
  cases h : r.toOption.join <;> simp [h]

def Reads (ordered : Bool) (a : Assembler) (maxLengths : List Nat) (b : Assembler) (got : List Chunk) : Prop :=
  ∀ before, Assembler.run ordered (a, before) (maxLengths.map .read) = some (b, before ++ got)

theorem reads_nil (ordered : Bool) (a : Assembler) : Reads ordered a [] a [] := fun before => by
  rw [List.append_nil]
  rfl

theorem Reads.cons {ordered : Bool} {a b c : Assembler} {maxLength : Nat} {maxLengths : List Nat} {chunk : Option Chunk}
    {got : List Chunk} (h : a.read maxLength ordered = some (b, chunk)) (hr : Reads ordered b maxLengths c got) :
    Reads ordered a (maxLength :: maxLengths) c (chunk.toList ++ got) := fun before => by
  rw [List.map_cons, Assembler.run, Assembler.step, h, ← List.append_assoc]
  exact hr _

/-- The stream has no more chunks to give: it was reset, or all its bytes were read. -/
def AtEnd (rs : Recv) : Prop :=
  rs.state = .recv (some rs.end_) ∧ rs.assembler.bytesRead = rs.end_ ∨ ∃ size code, rs.state = .resetRecvd size code

/-- What a session has done so far to the stream that it took out of the map as `rs`. -/
inductive Outcome (self : Chunks) (rs : Recv) (a : Assembler) : Chunks → Prop
  | readable {read : Nat} : Outcome self rs a { self with state := .readable { rs with assembler := a }, read }
  | ended {state : ChunksState} {streams : StreamsState} {read : Nat} : state = .finished ∨ (∃ code, state = .reset code) →
      AtEnd { rs with assembler := a } → self.streams.streamRecvFreed self.id (.open_ { rs with assembler := a }) = some streams →
      Outcome self rs a { self with streams, state, read }

theorem nexts_ended {self t : Chunks} : ∀ {maxLengths : List Nat} {results : List (Except ReadError (Option Chunk))},
    self.nexts maxLengths = some (t, results) →
    self.state = .finished ∨ (∃ code, self.state = .reset code) → t = self ∧ handed results = []
  | [], results, h, _ => by
    cases h
    exact ⟨rfl, rfl⟩
  | maxLength :: maxLengths, results, h, hs => by
    obtain ⟨⟨u, r⟩, hu, h⟩ := Option.bind_eq_some_iff.mp h
    obtain ⟨⟨v, rs⟩, hv, ⟨⟩⟩ := exists_of_bind h
    have hnext : u = self ∧ r.toOption.join = none := by
      unfold next at hu
      rcases hs with hs | ⟨code, hs⟩ <;> rw [hs] at hu <;> cases hu <;>
        exact ⟨rfl, rfl⟩
    obtain ⟨rfl, hr⟩ := hnext
    obtain ⟨rfl, hrest⟩ := nexts_ended hv hs
    refine ⟨rfl, ?_⟩
    rw [handed_cons, hr, hrest]
    rfl

theorem next_cases {self t : Chunks} {rs : Recv} {maxLength : Nat} {r : Except ReadError (Option Chunk)}
    (hs : self.state = .readable rs) (h : self.next maxLength = some (t, r)) :
    ∃ a chunk, rs.assembler.read maxLength self.ordered = some (a, chunk) ∧ r.toOption.join = chunk ∧
      t.read = self.read + total (chunkSpans chunk.toList) ∧ Outcome self rs a t := by
  unfold next at h
  rw [hs] at h
  obtain ⟨⟨a, chunk⟩, hread, h⟩ := Option.bind_eq_some_iff.mp h
  cases chunk with
  | some chunk =>
    cases h
    refine ⟨a, some chunk, hread, rfl, ?_, .readable⟩
    simp [chunkSpans, Chunk.span]
  | none =>
    simp only at h
    split at h
    · next size code hst =>
      obtain ⟨streams, hfree, ⟨⟩⟩ := exists_of_bind h
      exact ⟨a, none, hread, rfl, rfl, .ended (.inr ⟨code, rfl⟩) (.inr ⟨size, code, hst⟩) hfree⟩
    next size hst =>
    split at h
    · next hend =>
      obtain ⟨streams, hfree, ⟨⟩⟩ := exists_of_bind h
      exact ⟨a, none, hread, rfl, rfl, .ended (.inl rfl) (.inl ⟨hst.trans (congrArg _ hend.1), hend.2⟩) hfree⟩
    cases h
    exact ⟨a, none, hread, rfl, rfl, .readable⟩

theorem nexts_cases : ∀ {maxLengths : List Nat} {self t : Chunks} {rs : Recv}
    {results : List (Except ReadError (Option Chunk))}, self.state = .readable rs →
    self.nexts maxLengths = some (t, results) →
    ∃ reads a, Reads self.ordered rs.assembler reads a (handed results) ∧
      t.read = self.read + total (chunkSpans (handed results)) ∧ Outcome self rs a t
  | [], self, t, rs, results, hs, h => by
    cases h
    obtain ⟨id, ordered, streams, pending, state, read⟩ := self
    obtain rfl := hs
    exact ⟨[], rs.assembler, reads_nil _ _, rfl, .readable⟩
  | maxLength :: maxLengths, self, t, rs, results, hs, h => by
    obtain ⟨⟨u, r⟩, hu, h⟩ := Option.bind_eq_some_iff.mp h
    obtain ⟨⟨v, results⟩, hv, ⟨⟩⟩ := exists_of_bind h
    obtain ⟨a, chunk, hread, hr, htot, hout⟩ := next_cases hs hu
    rw [handed_cons, hr]
    cases hout with
    | readable =>
      obtain ⟨reads, b, hreads, htot', hout⟩ := @nexts_cases maxLengths _ _ { rs with assembler := a } _ rfl hv
      refine ⟨maxLength :: reads, b, hreads.cons hread, ?_, ?_⟩
      · rw [htot', htot, Assembler.chunkSpans_append, total_append, add_assoc]
      · cases hout with
        | readable => exact .readable
        | ended h1 h2 h3 => exact .ended h1 h2 h3
    | ended hst hend hfree =>
      obtain ⟨rfl, hnil⟩ := nexts_ended hv hst
      rw [hnil, List.append_nil]
      refine ⟨[maxLength], a, ?_, htot, .ended hst hend hfree⟩
      have := Reads.cons hread (reads_nil self.ordered a)
      rwa [List.append_nil] at this

theorem finalize_ended {self : Chunks} {t : StreamsState} {pending : Retransmits} {b : Bool}
    (hs : self.state = .finished ∨ ∃ code, self.state = .reset code) (h : self.finalize = some (t, pending, b)) :
    ∃ transmit, self.streams.addReadCredits self.read = some (t, transmit) := by
  unfold finalize at h
  rcases hs with hs | ⟨code, hs⟩ <;> rw [hs] at h <;>
  · obtain ⟨⟨p, q⟩, -, h⟩ := Option.bind_eq_some_iff.mp h
    obtain ⟨⟨v, transmit⟩, hadd, ⟨⟩⟩ := exists_of_bind h
    exact ⟨transmit, hadd⟩

inductive SessionCases (s : StreamsState) (id : StreamId) (ordered : Bool) :
    StreamsState → Except ReadableError (List (Except ReadError (Option Chunk))) → Prop
  | closed : id ∉ s.recv → SessionCases s id ordered s (.error .closedStream)
  | stopped {entry : Option StreamRecv} : s.recv.lookup id = some entry →
      (getOrInsertRecv s.streamReceiveWindow entry).stopped = true →
      SessionCases s id ordered (s.setRecv id (getOrInsertRecv s.streamReceiveWindow entry)) (.error .closedStream)
  | lost {entry : Option StreamRecv} {e : IllegalOrderedRead} : s.recv.lookup id = some entry →
      (getOrInsertRecv s.streamReceiveWindow entry).stopped = false →
      (getOrInsertRecv s.streamReceiveWindow entry).assembler.ensureOrdering ordered = .error e →
      SessionCases s id ordered (s.eraseRecv id) (.error .illegalOrderedRead)
  | readable {entry : Option StreamRecv} {a b : Assembler} {reads : List Nat}
      {results : List (Except ReadError (Option Chunk))} {transmit : Bool} {t : StreamsState} :
      s.recv.lookup id = some entry → (getOrInsertRecv s.streamReceiveWindow entry).stopped = false →
      (getOrInsertRecv s.streamReceiveWindow entry).assembler.ensureOrdering ordered = .ok a →
      Reads ordered a reads b (handed results) →
      ((s.eraseRecv id).setRecv id { getOrInsertRecv s.streamReceiveWindow entry with assembler := b }).addReadCredits
        (total (chunkSpans (handed results))) = some (t, transmit) →
      SessionCases s id ordered t (.ok results)
  | ended {entry : Option StreamRecv} {a b : Assembler} {reads : List Nat}
      {results : List (Except ReadError (Option Chunk))} {transmit : Bool} {u t : StreamsState} :
      s.recv.lookup id = some entry → (getOrInsertRecv s.streamReceiveWindow entry).stopped = false →
      (getOrInsertRecv s.streamReceiveWindow entry).assembler.ensureOrdering ordered = .ok a →
      Reads ordered a reads b (handed results) →
      AtEnd { getOrInsertRecv s.streamReceiveWindow entry with assembler := b } →
      (s.eraseRecv id).streamRecvFreed id (.open_ { getOrInsertRecv s.streamReceiveWindow entry with assembler := b }) =
        some u →
      u.addReadCredits (total (chunkSpans (handed results))) = some (t, transmit) →
      SessionCases s id ordered t (.ok results)

theorem session_cases {s t : StreamsState} {pending pending' : Retransmits} {id : StreamId} {ordered : Bool}
    {maxLengths : List Nat} {r : Except ReadableError (List (Except ReadError (Option Chunk)))}
    (h : session s pending id ordered maxLengths = some (t, pending', r)) : SessionCases s id ordered t r := by
  unfold session new at h
  cases hl : s.recv.lookup id with
  | none =>
    simp only [hl] at h
    cases h
    exact .closed (AList.lookup_eq_none.mp hl)
  | some entry =>
    simp only [hl] at h
    cases hstop : (getOrInsertRecv s.streamReceiveWindow entry).stopped with
    | true =>
      rw [if_pos hstop] at h
      cases h
      exact .stopped hl hstop
    | false =>
      rw [if_neg (Bool.not_eq_true _ ▸ hstop)] at h
      cases hens : (getOrInsertRecv s.streamReceiveWindow entry).assembler.ensureOrdering ordered with
      | error e =>
        simp only [hens] at h
        cases h
        exact .lost hl hstop hens
      | ok a =>
        simp only [hens] at h
        obtain ⟨⟨c, results⟩, hnexts, h⟩ := Option.bind_eq_some_iff.mp h
        obtain ⟨⟨streams, p, b⟩, hfin, ⟨⟩⟩ := exists_of_bind h
        obtain ⟨reads, d, hreads, htot, hout⟩ := nexts_cases rfl hnexts
        rw [zero_add] at htot
        cases hout with
        | readable =>
          obtain ⟨⟨p₁, q₁⟩, -, hfin⟩ := Option.bind_eq_some_iff.mp hfin
          obtain ⟨⟨m, q₂⟩, -, hfin⟩ := Option.bind_eq_some_iff.mp hfin
          obtain ⟨⟨v, q₃⟩, hadd, ⟨⟩⟩ := exists_of_bind hfin
          exact .readable hl hstop hens hreads (htot ▸ hadd)
        | ended hst hend hfree =>
          obtain ⟨q, hadd⟩ := finalize_ended hst hfin
          exact .ended hl hstop hens hreads hend hfree (htot ▸ hadd)

end SaorsaTransport.Chunks
