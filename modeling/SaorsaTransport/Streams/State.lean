import SaorsaTransport.Buffers
import Mathlib.Data.Prod.Lex

/-! The receiving half of a stream, as in `src/connection/streams/recv.rs`. -/

namespace SaorsaTransport
open Library

structure StreamFrame where
  id : StreamId
  offset : Nat
  fin : Bool
  data : Bytes
  deriving DecidableEq

structure ResetStream where
  id : StreamId
  errorCode : Nat
  finalOffset : Nat
  deriving DecidableEq

inductive RecvState where
  | recv (size : Option Nat)
  | resetRecvd (size errorCode : Nat)
  deriving DecidableEq

structure ClosedStream where
  deriving DecidableEq

structure Recv where
  state : RecvState
  assembler : Assembler
  sentMaxStreamData : Nat
  end_ : Nat
  stopped : Bool

namespace Recv

def new (initialMaxData : Nat) : Recv := ⟨.recv none, Assembler.new, initialMaxData, 0, false⟩

def reinit (self : Recv) (initialMaxData : Nat) : Recv :=
  { self with state := .recv none, assembler := self.assembler.reinit, sentMaxStreamData := initialMaxData, end_ := 0
              stopped := false }

def finalOffset (self : Recv) : Option Nat :=
  match self.state with
  | .recv size => size
  | .resetRecvd size _ => some size

def finalOffsetUnknown (self : Recv) : Bool := self.state == .recv none

def canSendFlowControl (self : Recv) : Bool := self.finalOffsetUnknown && !self.stopped

def isReceiving (self : Recv) : Bool :=
  match self.state with
  | .recv _ => true
  | .resetRecvd _ _ => false

def resetCode (self : Recv) : Option Nat :=
  match self.state with
  | .recv _ => none
  | .resetRecvd _ errorCode => some errorCode

/-- Compute the amount of flow control credit consumed, or return an error if more was consumed than
    issued. -/
def creditConsumedBy (self : Recv) (offset received maxData : Nat) : Except TransportError Nat :=
  let newBytes := offset - self.end_
  if self.sentMaxStreamData < offset ∨ maxData < received + newBytes then .error ⟨.flowControlError, ""⟩
  else .ok newBytes

/-- Process a STREAM frame. Return value is the stream with the number of new bytes ingested and whether
    the stream is closed; an error leaves the stream as it was. -/
def ingest (self : Recv) (frame : StreamFrame) (payloadLen received maxData : Nat) :
    Option (Except TransportError (Recv × Nat × Bool)) :=
  let end_ := frame.offset + frame.data.length
  if 2 ^ 62 ≤ end_ then some (.error ⟨.flowControlError, "maximum stream offset too large"⟩)
  else if self.finalOffset.any fun finalOffset => decide (finalOffset < end_ ∨ frame.fin ∧ end_ ≠ finalOffset) then
    some (.error ⟨.finalSizeError, ""⟩)
  else
    match self.creditConsumedBy end_ received maxData with
    | .error e => some (.error e)
    | .ok newBytes => do
      -- Stopped streams don't need to wait for the actual data, they just need to know how much there was.
      let state := match self.state with
        | .recv size => .recv (if frame.fin && !self.stopped then some end_ else size)
        | state => state
      -- Don't bother storing data if the stream's already stopped
      let assembler ← (if self.stopped then some self.assembler
        else self.assembler.insert frame.offset frame.data payloadLen)
      some (.ok ({ self with state, assembler, end_ := max self.end_ end_ }, newBytes, frame.fin && self.stopped))

/-- Stop accepting data. Returns the flow control credit for unread data, and whether to tell the peer. -/
def stop (self : Recv) : Option (Except ClosedStream (Recv × Nat × Bool)) :=
  if self.stopped then some (.error {})
  else do
    let readCredits ← checkedSub self.end_ self.assembler.bytesRead
    some (.ok ({ self with stopped := true, assembler := self.assembler.clear }, readCredits, self.isReceiving))

/-- Returns the window that should be advertised in a `MAX_STREAM_DATA` frame, and whether a new
    transmission of the value is recommended. -/
def maxStreamData (self : Recv) (streamReceiveWindow : Nat) : Option (Nat × Bool) := do
  let maxStreamData := self.assembler.bytesRead + streamReceiveWindow
  let diff ← checkedSub maxStreamData self.sentMaxStreamData
  some (maxStreamData, self.canSendFlowControl && decide (streamReceiveWindow / 8 ≤ diff))

def recordSentMaxStreamData (self : Recv) (sentValue : Nat) : Recv :=
  if self.sentMaxStreamData < sentValue then { self with sentMaxStreamData := sentValue } else self

/-- Check the final size that a RESET_STREAM frame declares. -/
def validateFinalOffset (self : Recv) (finalOffset : Nat) : Except TransportError Unit :=
  match self.finalOffset with
  | some offset => if offset ≠ finalOffset then .error ⟨.finalSizeError, "inconsistent value"⟩ else .ok ()
  | none => if finalOffset < self.end_ then .error ⟨.finalSizeError, "lower than high water mark"⟩ else .ok ()

/-- Process a RESET_STREAM frame. Returns `false` iff the reset was redundant. -/
def reset (self : Recv) (errorCode finalOffset received maxData : Nat) : Except TransportError (Recv × Bool) := do
  self.validateFinalOffset finalOffset
  let _ ← self.creditConsumedBy finalOffset received maxData
  match self.state with
  | .resetRecvd _ _ => .ok (self, false)
  | .recv _ =>
    .ok ({ self with state := .resetRecvd finalOffset errorCode, assembler := self.assembler.clear }, true)

end Recv

inductive StreamRecv where
  | free (recv : Recv)
  | open_ (recv : Recv)

namespace StreamRecv

def asOpenRecv : StreamRecv → Option Recv
  | .open_ recv => some recv
  | .free _ => none

/-- Reinitialize the stream so the inner `Recv` can be reused; unreachable on a free one. -/
def toFree (self : StreamRecv) (initialMaxData : Nat) : Option StreamRecv :=
  match self with
  | .free _ => none
  | .open_ recv => some (.free (recv.reinit initialMaxData))

end StreamRecv

def getOrInsertRecv (initialMaxData : Nat) : Option StreamRecv → Recv
  | some (.free recv) | some (.open_ recv) => recv
  | none => Recv.new initialMaxData

/-! The sending half of a stream, as in `src/connection/streams/send.rs`. -/

structure StreamMeta where
  id : StreamId
  offsets : Nat × Nat
  fin : Bool
  deriving DecidableEq

/-- A source of one or more buffers. The chunk it yields stays within the limit; it is empty if the limit
    is zero or no more data is available. The number counts the chunks that were consumed. -/
class BytesSource (σ : Type) where
  popChunk : σ → Nat → (Bytes × Nat) × σ
  length_le : ∀ source limit, (popChunk source limit).1.1.length ≤ limit

/-- A byte slice, given out in one piece up to the limit. -/
structure ByteSlice where
  data : Bytes

def ByteSlice.popChunk (self : ByteSlice) (limit : Nat) : (Bytes × Nat) × ByteSlice :=
  let limit := min limit self.data.length
  if limit = 0 then (([], 0), self)
  else
    let chunk := self.data.take limit
    let data := self.data.drop chunk.length
    ((chunk, if data.isEmpty then 1 else 0), ⟨data⟩)

instance : BytesSource ByteSlice where
  popChunk := ByteSlice.popChunk
  length_le source limit := by
    unfold ByteSlice.popChunk
    dsimp only
    split
    · exact zero_le
    · simp only [List.length_take]
      omega

structure BytesArray where
  chunks : List Bytes

/-- Empty chunks are skipped while still marking them as consumed. -/
def BytesArray.popFrom : List Bytes → Nat → (Bytes × Nat) × List Bytes
  | [], _ => (([], 0), [])
  | chunk :: rest, limit =>
    if chunk.length ≤ limit then
      if chunk.isEmpty then
        let ((bytes, consumed), rest) := popFrom rest limit
        ((bytes, consumed + 1), rest)
      else ((chunk, 1), rest)
    else if 0 < limit then ((chunk.take limit, 0), chunk.drop limit :: rest)
    else (([], 0), chunk :: rest)

theorem BytesArray.popFrom_length_le (limit : Nat) : ∀ chunks, (popFrom chunks limit).1.1.length ≤ limit
  | [] => zero_le
  | chunk :: rest => by
    unfold popFrom
    split
    · split
      · exact popFrom_length_le limit rest
      · assumption
    · split
      · exact List.length_take_le _ _
      · exact zero_le

instance : BytesSource BytesArray where
  popChunk self limit := let (r, chunks) := BytesArray.popFrom self.chunks limit; (r, ⟨chunks⟩)
  length_le source limit := BytesArray.popFrom_length_le limit source.chunks

structure Written where
  bytes : Nat
  chunks : Nat
  deriving DecidableEq

inductive WriteError where
  | blocked
  | stopped (errorCode : Nat)
  | closedStream
  deriving DecidableEq

inductive FinishError where
  | stopped (errorCode : Nat)
  | closedStream
  deriving DecidableEq

inductive SendState where
  | ready
  | dataSent (finishAcked : Bool)
  | resetSent
  deriving DecidableEq

structure Send where
  maxData : Nat
  state : SendState
  pending : SendBuffer
  priority : Int
  /-- Whether a frame containing a FIN bit must be transmitted, even if we don't have any new data. -/
  finPending : Bool
  connectionBlocked : Bool
  stopReason : Option Nat

namespace Send

def new (maxData : Nat) : Send := ⟨maxData, .ready, SendBuffer.new, 0, false, false, none⟩

def isReset (self : Send) : Bool := self.state == .resetSent

def isWritable (self : Send) : Bool := self.state == .ready

def offset (self : Send) : Nat := self.pending.offset

def isPending (self : Send) : Bool := self.pending.hasUnsentData || self.finPending

def finish (self : Send) : Except FinishError Send :=
  match self.stopReason with
  | some errorCode => .error (.stopped errorCode)
  | none =>
    if self.state = .ready then .ok { self with state := .dataSent false, finPending := true }
    else .error .closedStream

/-- The loop of `write`, with what is left of the source. Each round but the last takes at least a byte of the limit. -/
def writeLoop {σ : Type} [BytesSource σ] : Nat → SendBuffer → σ → Nat → Written → Option (SendBuffer × σ × Written)
  | 0, _, _, _, _ => none
  | fuel + 1, pending, source, limit, result => do
    let ((chunk, consumed), source) := BytesSource.popChunk source limit
    let result := ⟨result.bytes + chunk.length, result.chunks + consumed⟩
    if chunk.isEmpty then some (pending, source, result)
    else writeLoop fuel (pending.write chunk) source (← checkedSub limit chunk.length) result

def write {σ : Type} [BytesSource σ] (self : Send) (source : σ) (limit : Nat) :
    Option (Except WriteError (Send × σ × Written)) :=
  if !self.isWritable then some (.error .closedStream)
  else
    match self.stopReason with
    | some errorCode => some (.error (.stopped errorCode))
    | none => do
      let budget ← checkedSub self.maxData self.pending.offset
      if budget = 0 then some (.error .blocked)
      else
        let limit := min limit budget
        let (pending, source, result) ← writeLoop (limit + 1) self.pending source limit ⟨0, 0⟩
        some (.ok ({ self with pending }, source, result))

def reset (self : Send) : Send :=
  match self.state with
  | .ready | .dataSent _ => { self with state := .resetSent }
  | .resetSent => self

/-- Handle STOP_SENDING. Returns whether the stream was stopped due to this frame. -/
def tryStop (self : Send) (errorCode : Nat) : Send × Bool :=
  match self.stopReason with
  | none => ({ self with stopReason := some errorCode }, true)
  | some _ => (self, false)

/-- Returns whether the stream has been finished and all data has been acknowledged by the peer. -/
def ack (self : Send) (frame : StreamMeta) : Option (Send × Bool) := do
  let pending ← self.pending.ack frame.offsets
  match self.state with
  | .dataSent finishAcked =>
    let finishAcked := finishAcked || frame.fin
    some ({ self with pending, state := .dataSent finishAcked }, finishAcked && pending.isFullyAcked)
  | .ready | .resetSent => some ({ self with pending }, false)

/-- Handle increase to stream-level flow control limit. Returns whether the stream was unblocked. -/
def increaseMaxData (self : Send) (offset : Nat) : Send × Bool :=
  if offset ≤ self.maxData ∨ self.state ≠ .ready then (self, false)
  else ({ self with maxData := offset }, self.pending.offset == self.maxData)

end Send

/-! The state of all streams of a connection, `src/connection/streams/state.rs`. The fields of `StreamsState` stand in
    three groups, for what is sent, what is received, and the streams the peer may open. -/

abbrev StreamMap (ν : Type) := AList fun _ : StreamId => ν

structure PendingStream where
  priority : Int
  /-- A tie-breaker for streams of the same priority; larger values are prioritized. -/
  recency : Nat
  id : StreamId
  deriving DecidableEq

namespace PendingStream

def key (self : PendingStream) : Int ×ₗ Nat ×ₗ Nat := toLex (self.priority, toLex (self.recency, self.id.toNat))

/-- `self` is not below `other`, so the heap may give it out before. -/
def Ge (self other : PendingStream) : Prop := other.key ≤ self.key

instance : DecidableRel Ge := fun a b => inferInstanceAs (Decidable (b.key ≤ a.key))

instance : Std.Total Ge := ⟨fun a b => le_total b.key a.key⟩

instance : IsTrans PendingStream Ge := ⟨fun _ _ _ h₁ h₂ => le_trans h₂ h₁⟩

end PendingStream

structure PendingStreamsQueue where
  streams : MaxHeap PendingStream PendingStream.Ge
  /-- The next stream to write out. This is `some` when writing a stream is interrupted while the stream
      still has some pending data. -/
  next : Option PendingStream
  /-- A monotonically decreasing counter for round-robin scheduling of streams with the same priority. -/
  recency : Nat

namespace PendingStreamsQueue

def new : PendingStreamsQueue := ⟨MaxHeap.empty, none, u64Max⟩

def reinsertPending (self : PendingStreamsQueue) (id : StreamId) (priority : Int) : PendingStreamsQueue :=
  if self.next.isSome then self else { self with next := some ⟨priority, self.recency, id⟩ }

def pushPending (self : PendingStreamsQueue) (id : StreamId) (priority : Int) : PendingStreamsQueue :=
  let recency := self.recency - 1
  { self with recency, streams := self.streams.push ⟨priority, recency, id⟩ }

def pop (self : PendingStreamsQueue) : Option (PendingStream × PendingStreamsQueue) :=
  match self.next with
  | some stream => some (stream, { self with next := none })
  | none => self.streams.peek.map fun stream => (stream, { self with streams := self.streams.pop })

def clear (self : PendingStreamsQueue) : PendingStreamsQueue := { self with next := none, streams := MaxHeap.empty }

def iter (self : PendingStreamsQueue) : List PendingStream := self.next.toList ++ self.streams.toList

end PendingStreamsQueue

inductive StreamEvent where
  | opened (dir : Dir)
  | readable (id : StreamId)
  | writable (id : StreamId)
  | finished (id : StreamId)
  | stopped (id : StreamId) (errorCode : Nat)
  | available (dir : Dir)
  deriving DecidableEq

inductive StreamHalf where
  | send
  | recv
  deriving DecidableEq

structure Outgoing where
  send : StreamMap (Option Send)
  next : Dir → Nat
  max : Dir → Nat
  sendStreams : Nat
  pending : PendingStreamsQueue
  /-- Streams blocked on connection-level flow control or stream window space. -/
  connectionBlocked : List StreamId
  maxData : Nat
  /-- Sum of current offsets of all send streams. -/
  dataSent : Nat
  unackedData : Nat
  sendWindow : Nat
  initialMaxStreamDataUni : Nat
  initialMaxStreamDataBidiLocal : Nat
  initialMaxStreamDataBidiRemote : Nat

structure Incoming where
  /-- Receiving halves of streams that are open, or could be immediately opened by the peer. -/
  recv : StreamMap (Option StreamRecv)
  freeRecv : List StreamRecv
  receiveWindow : Nat
  localMaxData : Nat
  /-- The last value of `MAX_DATA` which had been queued for transmission. -/
  sentMaxData : Nat
  /-- Sum of end offsets of all receive streams. Includes gaps, so it's an upper bound. -/
  dataRecvd : Nat
  streamReceiveWindow : Nat
  /-- The shrink to be applied to `localMaxData` when `receiveWindow` is shrunk. -/
  receiveWindowShrinkDebt : Nat

/-- What the state keeps about the streams the peer opens. -/
structure Remote where
  maxRemote : Dir → Nat
  sentMaxRemote : Dir → Nat
  /-- Number of streams that we've given the peer permission to open and which aren't fully closed. -/
  allocatedRemoteCount : Dir → Nat
  maxConcurrentRemoteCount : Dir → Nat
  flowControlAdjusted : Bool
  /-- Lowest remotely-initiated stream index that haven't actually been opened by the peer. -/
  nextRemote : Dir → Nat
  opened : Dir → Bool
  nextReportedRemote : Dir → Nat

structure StreamsState extends Outgoing, Incoming, Remote where
  side : Side
  events : List StreamEvent

structure TransportParameters where
  initialMaxData : Nat
  initialMaxStreamDataBidiLocal : Nat
  initialMaxStreamDataBidiRemote : Nat
  initialMaxStreamDataUni : Nat
  initialMaxStreamsBidi : Nat
  initialMaxStreamsUni : Nat
  deriving DecidableEq

/-- Limit on the number of streams: `MAX_STREAM_COUNT`. -/
def maxStreamCount : Nat := 2 ^ 60

def getOrInsertSend (maxData : Nat) (entry : Option Send) : Send := entry.getD (Send.new maxData)

/-- A value for each direction: `[value; 2]`. -/
def perDir {α : Type} (bi uni : α) : Dir → α
  | .bi => bi
  | .uni => uni

namespace StreamsState

/-- The sending half that exists under `id`: `send.get(&id).and_then(|s| s.as_ref())`. -/
def sendAt (self : StreamsState) (id : StreamId) : Option Send := (self.send.lookup id).join

def recvAt (self : StreamsState) (id : StreamId) : Option Recv :=
  (self.recv.lookup id).join.bind StreamRecv.asOpenRecv

def setSend (self : StreamsState) (id : StreamId) (stream : Send) : StreamsState :=
  { self with send := self.send.insert id (some stream) }

def setRecv (self : StreamsState) (id : StreamId) (recv : Recv) : StreamsState :=
  { self with recv := self.recv.insert id (some (.open_ recv)) }

def insertSend (self : StreamsState) (id : StreamId) : Option StreamsState :=
  if id ∈ self.send then none else some { self with send := self.send.insert id none }

def insertRecv (self : StreamsState) (id : StreamId) : Option StreamsState :=
  if id ∈ self.recv then none
  else some { self with recv := self.recv.insert id self.freeRecv.getLast?, freeRecv := self.freeRecv.dropLast }

def insert (self : StreamsState) (remote : Bool) (id : StreamId) : Option StreamsState := do
  let bi := decide (id.dir = .bi)
  let self ← (if bi || !remote then self.insertSend id else some self)
  if bi || remote then self.insertRecv id else some self

/-- Enter `count` streams of the peer, from index `start` on. -/
def insertRemotes (self : StreamsState) (dir : Dir) (start : Nat) : Nat → Option StreamsState
  | 0 => some self
  | count + 1 => do
    let self ← self.insertRemotes dir start count
    self.insert true ⟨self.side.peer, dir, start + count⟩

def new (side : Side) (maxRemoteUni maxRemoteBi sendWindow receiveWindow streamReceiveWindow : Nat) :
    Option StreamsState := do
  let maxRemote := perDir maxRemoteBi maxRemoteUni
  let self : StreamsState :=
    { side, send := ∅, recv := ∅, freeRecv := [], next := fun _ => 0, max := fun _ => 0, maxRemote
      sentMaxRemote := maxRemote, allocatedRemoteCount := maxRemote, maxConcurrentRemoteCount := maxRemote
      flowControlAdjusted := false, nextRemote := fun _ => 0, opened := fun _ => false
      nextReportedRemote := fun _ => 0, sendStreams := 0, pending := PendingStreamsQueue.new, events := []
      connectionBlocked := [], maxData := 0, receiveWindow, localMaxData := receiveWindow
      sentMaxData := receiveWindow, dataSent := 0, dataRecvd := 0, unackedData := 0, sendWindow
      streamReceiveWindow, initialMaxStreamDataUni := 0, initialMaxStreamDataBidiLocal := 0
      initialMaxStreamDataBidiRemote := 0, receiveWindowShrinkDebt := 0 }
  let self ← self.insertRemotes .bi 0 maxRemoteBi
  self.insertRemotes .uni 0 maxRemoteUni

/-- Ensure we have space for at least a full flow control window of remotely-initiated streams to be open. -/
def ensureRemoteStreams (self : StreamsState) (dir : Dir) : Option StreamsState := do
  let newCount := self.maxConcurrentRemoteCount dir - self.allocatedRemoteCount dir
  let self ← self.insertRemotes dir (self.maxRemote dir) newCount
  some { self with
    allocatedRemoteCount := Function.update self.allocatedRemoteCount dir (self.allocatedRemoteCount dir + newCount)
    maxRemote := Function.update self.maxRemote dir (self.maxRemote dir + newCount) }

/-- Both halves of a remotely-initiated stream are gone, once `half` is. -/
def fullyFree (self : StreamsState) (id : StreamId) (half : StreamHalf) : Bool :=
  id.dir = .uni || match half with
    | .send => id ∉ self.recv
    | .recv => id ∉ self.send

def streamFreed (self : StreamsState) (id : StreamId) (half : StreamHalf) : Option StreamsState := do
  let self ← (if id.initiator ≠ self.side ∧ self.fullyFree id half then do
      let count ← checkedSub (self.allocatedRemoteCount id.dir) 1
      let self := { self with allocatedRemoteCount := Function.update self.allocatedRemoteCount id.dir count }
      self.ensureRemoteStreams id.dir
    else some self)
  match half with
  | .send => do
    let sendStreams ← checkedSub self.sendStreams 1
    some { self with sendStreams }
  | .recv => some self

def streamRecvFreed (self : StreamsState) (id : StreamId) (recv : StreamRecv) : Option StreamsState := do
  let free ← recv.toFree self.streamReceiveWindow
  { self with freeRecv := self.freeRecv ++ [free] }.streamFreed id .recv

/-- Notify the application that new streams were opened or a stream became readable. -/
def onStreamFrame (self : StreamsState) (notifyReadable : Bool) (stream : StreamId) : StreamsState :=
  if stream.initiator ≠ self.side ∧ self.nextRemote stream.dir ≤ stream.index then
    { self with nextRemote := Function.update self.nextRemote stream.dir (stream.index + 1)
                opened := Function.update self.opened stream.dir true }
  else if notifyReadable then { self with events := self.events ++ [.readable stream] }
  else self

/-- Adds credits to the connection flow control window. Returns whether a `MAX_DATA` frame should be
    enqueued as soon as possible. -/
def addReadCredits (self : StreamsState) (credits : Nat) : Option (StreamsState × Bool) :=
  let self :=
    if self.receiveWindowShrinkDebt < credits then
      { self with localMaxData := saturatingAdd self.localMaxData (credits - self.receiveWindowShrinkDebt)
                  receiveWindowShrinkDebt := 0 }
    else { self with receiveWindowShrinkDebt := self.receiveWindowShrinkDebt - credits }
  if VarInt.max < self.localMaxData then some (self, false)
  else do
    let diff ← checkedSub self.localMaxData self.sentMaxData
    some (self, decide (self.receiveWindow / 8 ≤ diff))

def setReceiveWindow (self : StreamsState) (receiveWindow : Nat) : StreamsState × Bool :=
  if self.receiveWindow < receiveWindow then
    ({ self with localMaxData := saturatingAdd self.localMaxData (receiveWindow - self.receiveWindow), receiveWindow },
      true)
  else
    ({ self with
        receiveWindowShrinkDebt := saturatingAdd self.receiveWindowShrinkDebt (self.receiveWindow - receiveWindow)
        receiveWindow }, false)

def writeLimit (self : StreamsState) : Option Nat := do
  let budget ← checkedSub self.maxData self.dataSent
  let window ← checkedSub self.sendWindow self.unackedData
  some (min budget window)

/-- The peer's initial limit on a stream. Remote and local appear reversed because the transport
    parameters are named from the perspective of the peer. -/
def maxSendData (self : StreamsState) (id : StreamId) : Nat :=
  match id.dir with
  | .uni => self.initialMaxStreamDataUni
  | .bi => if self.side ≠ id.initiator then self.initialMaxStreamDataBidiLocal else self.initialMaxStreamDataBidiRemote

def setMaxConcurrent (self : StreamsState) (dir : Dir) (count : Nat) : Option StreamsState :=
  { self with flowControlAdjusted := true
              maxConcurrentRemoteCount := Function.update self.maxConcurrentRemoteCount dir count }.ensureRemoteStreams dir

/-- Set the limit of each of the peer's bidirectional streams below `count` that exists for sending. -/
def setMaxDataRemotes (self : StreamsState) (maxData : Nat) : Nat → StreamsState
  | 0 => self
  | count + 1 =>
    let self := self.setMaxDataRemotes maxData count
    let id : StreamId := ⟨self.side.peer, .bi, count⟩
    match self.sendAt id with
    | some stream => self.setSend id { stream with maxData }
    | none => self

def receivedMaxData (self : StreamsState) (n : Nat) : StreamsState := { self with maxData := Nat.max self.maxData n }

def setParams (self : StreamsState) (params : TransportParameters) : StreamsState :=
  let self := { self with initialMaxStreamDataUni := params.initialMaxStreamDataUni
                          initialMaxStreamDataBidiLocal := params.initialMaxStreamDataBidiLocal
                          initialMaxStreamDataBidiRemote := params.initialMaxStreamDataBidiRemote
                          max := perDir params.initialMaxStreamsBidi params.initialMaxStreamsUni }
  let self := self.receivedMaxData params.initialMaxData
  self.setMaxDataRemotes params.initialMaxStreamDataBidiLocal (self.maxRemote .bi)

/-- Remove the local streams of a direction below `count`; each must be there. -/
def removeLocals (self : StreamsState) (dir : Dir) : Nat → Option StreamsState
  | 0 => some self
  | count + 1 => do
    let self ← self.removeLocals dir count
    let id : StreamId := ⟨self.side, dir, count⟩
    if id ∈ self.send ∧ (dir = .bi → id ∈ self.recv) then
      some { self with send := self.send.erase id, recv := if dir = .bi then self.recv.erase id else self.recv }
    else none

def zeroRttRejectedDir (self : StreamsState) (dir : Dir) : Option StreamsState := do
  let self ← self.removeLocals dir (self.next dir)
  some { self with
    next := Function.update self.next dir 0
    sentMaxRemote := if self.flowControlAdjusted then Function.update self.sentMaxRemote dir 0 else self.sentMaxRemote }

def zeroRttRejected (self : StreamsState) : Option StreamsState := do
  let self ← self.zeroRttRejectedDir .bi
  let self ← self.zeroRttRejectedDir .uni
  some { self with pending := self.pending.clear, sendStreams := 0, dataSent := 0, connectionBlocked := [] }

/-- Send everything on a direction's streams below `count` again. -/
def retransmitAllFor0rttDir (self : StreamsState) (dir : Dir) : Nat → StreamsState
  | 0 => self
  | count + 1 =>
    let self := self.retransmitAllFor0rttDir dir count
    let id : StreamId := ⟨.client, dir, count⟩
    match self.sendAt id with
    | none => self
    | some stream =>
      -- Stream data can't be acked in 0-RTT, so we must not have sent anything on this stream
      if stream.pending.isFullyAcked && !stream.finPending then self
      else
        let self := if stream.isPending then self
          else { self with pending := self.pending.pushPending id stream.priority }
        self.setSend id { stream with pending := stream.pending.retransmitAllFor0rtt }

def retransmitAllFor0rtt (self : StreamsState) : StreamsState :=
  let self := self.retransmitAllFor0rttDir .bi (self.next .bi)
  self.retransmitAllFor0rttDir .uni (self.next .uni)

/-- Check for errors entailed by the peer's use of `id` as a send stream. -/
def validateReceiveId (self : StreamsState) (id : StreamId) : Except TransportError Unit :=
  if self.side = id.initiator then
    match id.dir with
    | .uni => .error ⟨.streamStateError, "illegal operation on send-only stream"⟩
    | .bi => if self.next .bi ≤ id.index then .error ⟨.streamStateError, "operation on unopened stream"⟩ else .ok ()
  else if self.maxRemote id.dir ≤ id.index then .error ⟨.streamLimitError, ""⟩
  else .ok ()

/-- Whether a locally initiated stream has never been open. -/
def isLocalUnopened (self : StreamsState) (id : StreamId) : Bool := self.next id.dir ≤ id.index

/-- Process incoming stream frame. If successful, returns whether a `MAX_DATA` frame needs to be
    transmitted. -/
def received (self : StreamsState) (frame : StreamFrame) (payloadLen : Nat) :
    Option (StreamsState × Except TransportError Bool) :=
  match self.validateReceiveId frame.id with
  | .error e => some (self, .error e)
  | .ok () =>
    match self.recv.lookup frame.id with
    | none => some (self, .ok false) -- dropping frame for closed stream
    | some entry =>
      let rs := getOrInsertRecv self.streamReceiveWindow entry
      if !rs.isReceiving then some (self.setRecv frame.id rs, .ok false) -- dropping frame for finished stream
      else do
        match ← rs.ingest frame payloadLen self.dataRecvd self.localMaxData with
        | .error e => some (self.setRecv frame.id rs, .error e)
        | .ok (rs, newBytes, closed) =>
          let self := { self.setRecv frame.id rs with dataRecvd := saturatingAdd self.dataRecvd newBytes }
          if !rs.stopped then some (self.onStreamFrame true frame.id, .ok false)
          else do
            -- Stopped streams become closed instantly on FIN, so check whether we need to clean up
            let self ← (if closed then
              { self with recv := self.recv.erase frame.id }.streamRecvFreed frame.id (.open_ rs) else some self)
            -- We don't buffer data on stopped streams, so issue flow control credit immediately
            let (self, transmit) ← self.addReadCredits newBytes
            some (self, .ok transmit)

def receivedReset (self : StreamsState) (frame : ResetStream) : Option (StreamsState × Except TransportError Bool) :=
  match self.validateReceiveId frame.id with
  | .error e => some (self, .error e)
  | .ok () =>
    match self.recv.lookup frame.id with
    | none => some (self, .ok false) -- received RESET_STREAM on closed stream
    | some entry =>
      let rs := getOrInsertRecv self.streamReceiveWindow entry
      match rs.reset frame.errorCode frame.finalOffset self.dataRecvd self.localMaxData with
      | .error e => some (self.setRecv frame.id rs, .error e)
      | .ok (rs, false) => some (self.setRecv frame.id rs, .ok false) -- redundant reset
      | .ok (rs, true) => do
        let self := self.setRecv frame.id rs
        -- Stopped streams should be disposed immediately on reset
        let self ← (if rs.stopped then
          { self with recv := self.recv.erase frame.id }.streamRecvFreed frame.id (.open_ rs) else some self)
        let self := self.onStreamFrame (!rs.stopped) frame.id
        -- Update connection-level flow control
        if rs.assembler.bytesRead ≠ frame.finalOffset then do
          let newBytes ← checkedSub frame.finalOffset rs.end_
          let self := { self with dataRecvd := saturatingAdd self.dataRecvd newBytes }
          let (self, transmit) ← self.addReadCredits (← checkedSub frame.finalOffset rs.assembler.bytesRead)
          some (self, .ok transmit)
        else some (self, .ok false)

def receivedStopSending (self : StreamsState) (id : StreamId) (errorCode : Nat) :
    StreamsState × Except TransportError Unit :=
  if id.initiator ≠ self.side ∧ id.dir = .uni then
    (self, .error ⟨.streamStateError, "STOP_SENDING on recv-only stream"⟩)
  else if id.initiator = self.side ∧ self.isLocalUnopened id then
    (self, .error ⟨.streamStateError, "STOP_SENDING on unopened stream"⟩)
  else
    match self.send.lookup id with
    | none => (self, .ok ())
    | some entry =>
      let (stream, stopped) := (getOrInsertSend (self.maxSendData id) entry).tryStop errorCode
      let self := self.setSend id stream
      if stopped then ({ self with events := self.events ++ [StreamEvent.stopped id errorCode] }.onStreamFrame false id, .ok ())
      else (self, .ok ())

def receivedMaxStreams (self : StreamsState) (dir : Dir) (count : Nat) : StreamsState × Except TransportError Unit :=
  if maxStreamCount < count then (self, .error ⟨.frameEncodingError, "unrepresentable stream limit"⟩)
  else if self.max dir < count then
    ({ self with max := Function.update self.max dir count, events := self.events ++ [.available dir] }, .ok ())
  else (self, .ok ())

def receivedMaxStreamData (self : StreamsState) (id : StreamId) (offset : Nat) :
    Option (StreamsState × Except TransportError Unit) :=
  if id.initiator ≠ self.side ∧ id.dir = .uni then
    some (self, .error ⟨.streamStateError, "MAX_STREAM_DATA on recv-only stream"⟩)
  else do
    let writeLimit ← self.writeLimit
    match self.send.lookup id with
    | some entry =>
      let (stream, unblocked) := (getOrInsertSend (self.maxSendData id) entry).increaseMaxData offset
      if unblocked && decide (0 < writeLimit) then
        let self := { self.setSend id stream with events := self.events ++ [StreamEvent.writable id] }
        some (self.onStreamFrame false id, .ok ())
      else if unblocked && !stream.connectionBlocked then
        -- The stream is still blocked on the connection flow control window
        let self := { self.setSend id { stream with connectionBlocked := true } with
          connectionBlocked := self.connectionBlocked ++ [id] }
        some (self.onStreamFrame false id, .ok ())
      else some ((self.setSend id stream).onStreamFrame false id, .ok ())
    | none =>
      if id.initiator = self.side ∧ self.isLocalUnopened id then
        some (self, .error ⟨.streamStateError, "MAX_STREAM_DATA on unopened stream"⟩)
      else some (self.onStreamFrame false id, .ok ())

def receivedAckOf (self : StreamsState) (frame : StreamMeta) : Option StreamsState :=
  match self.send.lookup frame.id with
  | none | some none => some self
  | some (some stream) =>
    -- We account for outstanding data on reset streams at time of reset
    if stream.isReset then some self
    else do
      let unackedData ← checkedSub self.unackedData (← checkedSub frame.offsets.2 frame.offsets.1)
      let (stream, done) ← stream.ack frame
      let self := { self.setSend frame.id stream with unackedData }
      if !done then some self
      else do
        let self ← { self with send := self.send.erase frame.id }.streamFreed frame.id .send
        some { self with events := self.events ++ [.finished frame.id] }

def resetAcked (self : StreamsState) (id : StreamId) : Option StreamsState :=
  match self.sendAt id with
  | some stream =>
    if stream.isReset then { self with send := self.send.erase id }.streamFreed id .send else some self
  | none => some self

def retransmit (self : StreamsState) (frame : StreamMeta) : StreamsState :=
  match self.sendAt frame.id with
  | none => self -- Loss of data on a closed stream is a noop
  | some stream =>
    let self := if stream.isPending then self
      else { self with pending := self.pending.pushPending frame.id stream.priority }
    self.setSend frame.id
      { stream with finPending := stream.finPending || frame.fin, pending := stream.pending.retransmit frame.offsets }

def pollBlocked (self : StreamsState) : Nat → StreamsState × Option StreamEvent
  | 0 => (self, none)
  | fuel + 1 =>
    match self.connectionBlocked.getLast? with
    | none => (self, none)
    | some id =>
      let self := { self with connectionBlocked := self.connectionBlocked.dropLast }
      match self.sendAt id with
      | none => self.pollBlocked fuel
      | some stream =>
        let self := self.setSend id { stream with connectionBlocked := false }
        -- If it's no longer sensible to write to a stream then don't report it
        if stream.isWritable && decide (stream.offset < stream.maxData) then (self, some (.writable id))
        else self.pollBlocked fuel

def poll (self : StreamsState) : Option (StreamsState × Option StreamEvent) :=
  if self.opened .bi then
    some ({ self with opened := Function.update self.opened .bi false }, some (.opened .bi))
  else if self.opened .uni then
    some ({ self with opened := Function.update self.opened .uni false }, some (.opened .uni))
  else do
    let writeLimit ← self.writeLimit
    let (self, event) := if 0 < writeLimit then self.pollBlocked self.connectionBlocked.length else (self, none)
    match event with
    | some event => some (self, some event)
    | none => some ({ self with events := self.events.tail }, self.events.head?)

end StreamsState
end SaorsaTransport
