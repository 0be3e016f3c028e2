import SaorsaTransport.Streams.State

/-! What an application calls on the streams of a connection: `src/connection/streams/mod.rs`, and the
    `Chunks` of `recv.rs`. The connection is open; calls on a closed one fail at once. -/

namespace SaorsaTransport
open Library

/-- Frames about streams that are queued, or that a sent packet carries and would have to send again. -/
structure Retransmits where
  maxData : Bool
  maxStreamId : Dir → Bool
  resetStream : List (StreamId × Nat)
  stopSending : List (StreamId × Nat)
  /-- A set; its order is that of the hash set, of which nothing depends. -/
  maxStreamData : List StreamId

namespace Retransmits

def empty : Retransmits := ⟨false, fun _ => false, [], [], []⟩

def insertMaxStreamData (self : Retransmits) (id : StreamId) : Retransmits :=
  if id ∈ self.maxStreamData then self else { self with maxStreamData := self.maxStreamData ++ [id] }

/-- `self |= rhs`. -/
def merge (self rhs : Retransmits) : Retransmits :=
  rhs.maxStreamData.foldl insertMaxStreamData
    { self with maxData := self.maxData || rhs.maxData
                maxStreamId := fun dir => self.maxStreamId dir || rhs.maxStreamId dir
                resetStream := self.resetStream ++ rhs.resetStream
                stopSending := self.stopSending ++ rhs.stopSending }

end Retransmits

namespace StreamsState

def openStream (self : StreamsState) (dir : Dir) : Option (StreamsState × Option StreamId) :=
  if self.max dir ≤ self.next dir then some (self, none)
  else do
    let id : StreamId := ⟨self.side, dir, self.next dir⟩
    let self ← { self with next := Function.update self.next dir (self.next dir + 1) }.insert false id
    some ({ self with sendStreams := self.sendStreams + 1 }, some id)

def accept (self : StreamsState) (dir : Dir) : StreamsState × Option StreamId :=
  if self.nextRemote dir = self.nextReportedRemote dir then (self, none)
  else
    let x := self.nextReportedRemote dir
    ({ self with nextReportedRemote := Function.update self.nextReportedRemote dir (x + 1)
                 sendStreams := if dir = .bi then self.sendStreams + 1 else self.sendStreams },
      some ⟨self.side.peer, dir, x⟩)

def remoteOpenStreams (self : StreamsState) (dir : Dir) : Option Nat := do
  checkedSub (self.nextRemote dir) (← checkedSub (self.maxRemote dir) (self.allocatedRemoteCount dir))

def writeSource {σ : Type} [BytesSource σ] (self : StreamsState) (id : StreamId) (source : σ) :
    Option (StreamsState × Except WriteError Written) := do
  let limit ← self.writeLimit
  match self.send.lookup id with
  | none => some (self, .error .closedStream)
  | some entry =>
    let stream := getOrInsertSend (self.maxSendData id) entry
    if limit = 0 then
      if stream.connectionBlocked then some (self.setSend id stream, .error .blocked)
      else some ({ self.setSend id { stream with connectionBlocked := true } with
        connectionBlocked := self.connectionBlocked ++ [id] }, .error .blocked)
    else
      match ← stream.write source limit with
      | .error e => some (self.setSend id stream, .error e)
      | .ok (written, _, result) =>
        let self := { self.setSend id written with dataSent := self.dataSent + result.bytes
                                                   unackedData := self.unackedData + result.bytes }
        let self := if stream.isPending then self
          else { self with pending := self.pending.pushPending id stream.priority }
        some (self, .ok result)

def finish (self : StreamsState) (id : StreamId) : StreamsState × Except FinishError Unit :=
  match self.send.lookup id with
  | none => (self, .error .closedStream)
  | some entry =>
    let stream := getOrInsertSend (self.maxSendData id) entry
    match stream.finish with
    | .error e => (self.setSend id stream, .error e)
    | .ok finished =>
      let self := self.setSend id finished
      let self := if stream.isPending then self
        else { self with pending := self.pending.pushPending id stream.priority }
      (self, .ok ())

def reset (self : StreamsState) (pending : Retransmits) (id : StreamId) (errorCode : Nat) :
    Option (StreamsState × Retransmits × Except ClosedStream Unit) :=
  match self.send.lookup id with
  | none => some (self, pending, .error {})
  | some entry =>
    let stream := getOrInsertSend (self.maxSendData id) entry
    if stream.isReset then some (self.setSend id stream, pending, .error {}) -- Redundant reset call
    else do
      -- Restore the portion of the send window consumed by the data that we aren't about to send
      let unackedData ← checkedSub self.unackedData (← stream.pending.unacked)
      some ({ self.setSend id stream.reset with unackedData },
        { pending with resetStream := pending.resetStream ++ [(id, errorCode)] }, .ok ())

def setPriority (self : StreamsState) (id : StreamId) (priority : Int) : StreamsState × Except ClosedStream Unit :=
  match self.send.lookup id with
  | none => (self, .error {})
  | some entry => (self.setSend id { getOrInsertSend (self.maxSendData id) entry with priority }, .ok ())

/-- Queues MAX_STREAM_ID frames of a direction if at least 1/8 of the flow control window has been
    consumed. -/
def queueMaxStreamIdDir (self : StreamsState) (pending : Retransmits) (dir : Dir) : Option (Retransmits × Bool) := do
  let diff ← checkedSub (self.maxRemote dir) (self.sentMaxRemote dir)
  if self.maxConcurrentRemoteCount dir / 8 < diff then
    some ({ pending with maxStreamId := Function.update pending.maxStreamId dir true }, true)
  else some (pending, false)

/-- Queues MAX_STREAM_ID frames in `pending` if needed. Returns whether any frames were queued. -/
def queueMaxStreamId (self : StreamsState) (pending : Retransmits) : Option (Retransmits × Bool) := do
  let (pending, bi) ← self.queueMaxStreamIdDir pending .bi
  let (pending, uni) ← self.queueMaxStreamIdDir pending .uni
  some (pending, bi || uni)

/-- Stop accepting data on the given receive stream. Discards unread data and notifies the peer to stop
    transmitting. -/
def stop (self : StreamsState) (pending : Retransmits) (id : StreamId) (errorCode : Nat) :
    Option (StreamsState × Retransmits × Except ClosedStream Unit) :=
  match self.recv.lookup id with
  | none => some (self, pending, .error {})
  | some entry => do
    let stream := getOrInsertRecv self.streamReceiveWindow entry
    match ← stream.stop with
    | .error e => some (self.setRecv id stream, pending, .error e)
    | .ok (stream, readCredits, stopSending) =>
      let pending := if stopSending then { pending with stopSending := pending.stopSending ++ [(id, errorCode)] }
        else pending
      -- Clean up stream state if possible
      let self ← (if stream.finalOffsetUnknown then some (self.setRecv id stream)
        else { self with recv := self.recv.erase id }.streamRecvFreed id (.open_ stream))
      -- Update flow control if needed
      let (self, transmit) ← self.addReadCredits readCredits
      some (self, { pending with maxData := pending.maxData || transmit }, .ok ())

def checkReset (self : StreamsState) (pending : Retransmits) (id : StreamId) :
    Option (StreamsState × Retransmits × Except ClosedStream (Option Nat)) :=
  match self.recv.lookup id with
  | none => some (self, pending, .error {})
  | some entry =>
    match entry.bind StreamRecv.asOpenRecv with
    | none => some (self, pending, .ok none)
    | some s =>
      if s.stopped then some (self, pending, .error {})
      else
        match s.resetCode with
        | none => some (self, pending, .ok none)
        | some code => do
          -- Clean up state after application observes the reset
          let self ← { self with recv := self.recv.erase id }.streamRecvFreed id (.open_ s)
          let (pending, _) ← self.queueMaxStreamId pending
          some (self, pending, .ok (some code))

end StreamsState

inductive ReadError where
  | blocked
  | reset (errorCode : Nat)
  deriving DecidableEq

inductive ReadableError where
  | closedStream
  | illegalOrderedRead
  deriving DecidableEq

inductive ChunksState where
  | readable (rs : Recv)
  | reset (errorCode : Nat)
  | finished
  | finalized

/-- Chunks returned from `RecvStream::read`. The stream is out of the map while they are read. -/
structure Chunks where
  id : StreamId
  ordered : Bool
  streams : StreamsState
  pending : Retransmits
  state : ChunksState
  read : Nat

namespace Chunks

/-- Open a stream for reading. An error comes with the state it leaves: an ordered read of a stream that
    was read unordered has already taken the stream out of the map. -/
def new (id : StreamId) (ordered : Bool) (streams : StreamsState) (pending : Retransmits) :
    Except (ReadableError × StreamsState) Chunks :=
  match streams.recv.lookup id with
  | none => .error (.closedStream, streams)
  | some entry =>
    let recv := getOrInsertRecv streams.streamReceiveWindow entry
    if recv.stopped then .error (.closedStream, streams.setRecv id recv)
    else
      let streams := { streams with recv := streams.recv.erase id }
      match recv.assembler.ensureOrdering ordered with
      | .error .illegalOrderedRead => .error (.illegalOrderedRead, streams)
      | .ok assembler => .ok ⟨id, ordered, streams, pending, .readable { recv with assembler }, 0⟩

def next (self : Chunks) (maxLength : Nat) : Option (Chunks × Except ReadError (Option Chunk)) :=
  match self.state with
  | .reset errorCode => some (self, .error (.reset errorCode))
  | .finished => some (self, .ok none)
  | .finalized => none
  | .readable rs => do
    let (assembler, chunk) ← rs.assembler.read maxLength self.ordered
    let rs := { rs with assembler }
    match chunk with
    | some chunk =>
      some ({ self with state := .readable rs, read := self.read + chunk.bytes.length }, .ok (some chunk))
    | none =>
      match rs.state with
      | .resetRecvd _ errorCode =>
        let streams ← self.streams.streamRecvFreed self.id (.open_ rs)
        some ({ self with streams, state := .reset errorCode }, .error (.reset errorCode))
      | .recv size =>
        if size = some rs.end_ ∧ rs.assembler.bytesRead = rs.end_ then
          let streams ← self.streams.streamRecvFreed self.id (.open_ rs)
          some ({ self with streams, state := .finished }, .ok none)
        else some ({ self with state := .readable rs }, .error .blocked)

def finalize (self : Chunks) : Option (StreamsState × Retransmits × Bool) :=
  match self.state with
  | .finalized => some (self.streams, self.pending, false)
  | .readable rs => do
    let (pending, queued) ← self.streams.queueMaxStreamId self.pending
    -- If the stream hasn't finished, we may need to issue stream-level flow control credit
    let (_, maxStreamData) ← rs.maxStreamData self.streams.streamReceiveWindow
    let pending := if maxStreamData then pending.insertMaxStreamData self.id else pending
    -- Return the stream to storage for future use
    let (streams, maxData) ← (self.streams.setRecv self.id rs).addReadCredits self.read
    some (streams, { pending with maxData := pending.maxData || maxData }, queued || maxStreamData || maxData)
  | .reset _ | .finished => do
    let (pending, queued) ← self.streams.queueMaxStreamId self.pending
    let (streams, maxData) ← self.streams.addReadCredits self.read
    some (streams, { pending with maxData := pending.maxData || maxData }, queued || maxData)

def nexts (self : Chunks) : List Nat → Option (Chunks × List (Except ReadError (Option Chunk)))
  | [] => some (self, [])
  | maxLength :: rest => do
    let (self, result) ← self.next maxLength
    let (self, results) ← self.nexts rest
    some (self, result :: results)

def session (streams : StreamsState) (pending : Retransmits) (id : StreamId) (ordered : Bool) (maxLengths : List Nat) :
    Option (StreamsState × Retransmits × Except ReadableError (List (Except ReadError (Option Chunk)))) :=
  match new id ordered streams pending with
  | .error (e, streams) => some (streams, pending, .error e)
  | .ok chunks => do
    let (chunks, results) ← chunks.nexts maxLengths
    let (streams, pending, _) ← chunks.finalize
    some (streams, pending, .ok results)

end Chunks

/-! Writing the frames of the streams into a packet: `write_control_frames` and `write_stream_frames` of
    `src/connection/streams/state.rs`. The packet is its length so far, with what a loss would have to send again. -/

structure ControlWriter where
  streams : StreamsState
  pending : Retransmits
  sent : Retransmits
  len : Nat

namespace ControlWriter

/-- RESET_STREAM: one round for each queued frame. The final offset must fit a `VarInt`. -/
def writeResetStream (maxSize : Nat) : Nat → ControlWriter → Option ControlWriter
  | 0, w => some w
  | fuel + 1, w =>
    if w.len + 25 < maxSize then
      match w.pending.resetStream.getLast? with
      | none => some w
      | some (id, errorCode) =>
        let w := { w with pending := { w.pending with resetStream := w.pending.resetStream.dropLast } }
        match w.streams.sendAt id with
        | none => writeResetStream maxSize fuel w
        | some stream =>
          if stream.offset ≤ VarInt.max then
            writeResetStream maxSize fuel
              { w with sent := { w.sent with resetStream := w.sent.resetStream ++ [(id, errorCode)] }
                       len := w.len + 1 + VarInt.size id.toNat + VarInt.size errorCode + VarInt.size stream.offset }
          else none
    else some w

/-- STOP_SENDING, even for streams whose state we have discarded. -/
def writeStopSending (maxSize : Nat) : Nat → ControlWriter → ControlWriter
  | 0, w => w
  | fuel + 1, w =>
    if w.len + 17 < maxSize then
      match w.pending.stopSending.getLast? with
      | none => w
      | some (id, errorCode) =>
        writeStopSending maxSize fuel
          { w with pending := { w.pending with stopSending := w.pending.stopSending.dropLast }
                   sent := { w.sent with stopSending := w.sent.stopSending ++ [(id, errorCode)] }
                   len := w.len + 1 + VarInt.size id.toNat + VarInt.size errorCode }
    else w

/-- MAX_DATA, clamped to the largest `VarInt`. -/
def writeMaxData (maxSize : Nat) (w : ControlWriter) : ControlWriter :=
  if w.pending.maxData ∧ w.len + 9 < maxSize then
    let max := min w.streams.localMaxData VarInt.max
    { w with pending := { w.pending with maxData := false }
             streams := { w.streams with sentMaxData := Nat.max w.streams.sentMaxData max }
             sent := { w.sent with maxData := true }
             len := w.len + 1 + VarInt.size max }
  else w

/-- MAX_STREAM_DATA. The flag says whether all limits could be encoded. -/
def writeMaxStreamData (maxSize : Nat) : Nat → ControlWriter → Option (ControlWriter × Bool)
  | 0, w => some (w, true)
  | fuel + 1, w =>
    if w.len + 17 < maxSize then
      match w.pending.maxStreamData with
      | [] => some (w, true)
      | id :: rest =>
        let w := { w with pending := { w.pending with maxStreamData := rest } }
        match w.streams.recvAt id with
        | none => writeMaxStreamData maxSize fuel w
        | some rs =>
          if !rs.canSendFlowControl then writeMaxStreamData maxSize fuel w
          else do
            let (max, _) ← rs.maxStreamData w.streams.streamReceiveWindow
            let w := { w with sent := w.sent.insertMaxStreamData id
                              streams := w.streams.setRecv id (rs.recordSentMaxStreamData max)
                              len := w.len + 1 + VarInt.size id.toNat + VarInt.size max }
            if max ≤ VarInt.max then writeMaxStreamData maxSize fuel w else some (w, false)
    else some (w, true)

def writeMaxStreams (maxSize : Nat) (dir : Dir) (w : ControlWriter) : ControlWriter :=
  if w.pending.maxStreamId dir ∧ w.len + 9 < maxSize then
    { w with pending := { w.pending with maxStreamId := Function.update w.pending.maxStreamId dir false }
             sent := { w.sent with maxStreamId := Function.update w.sent.maxStreamId dir true }
             streams := { w.streams with
               sentMaxRemote := Function.update w.streams.sentMaxRemote dir (w.streams.maxRemote dir) }
             len := w.len + 1 + VarInt.size (w.streams.maxRemote dir) }
  else w

/-- All control frames that fit; the flag is `false` if a value could not be encoded. -/
def write (maxSize : Nat) (w : ControlWriter) : Option (ControlWriter × Bool) := do
  let w ← writeResetStream maxSize w.pending.resetStream.length w
  let w := writeStopSending maxSize w.pending.stopSending.length w
  let w := writeMaxData maxSize w
  let (w, encoded) ← writeMaxStreamData maxSize w.pending.maxStreamData.length w
  if encoded then some (writeMaxStreams maxSize .uni (writeMaxStreams maxSize .bi w), true) else some (w, false)

end ControlWriter

def StreamMeta.headerLen (self : StreamMeta) (encodeLength : Bool) : Nat :=
  1 + VarInt.size self.id.toNat + (if self.offsets.1 ≠ 0 then VarInt.size self.offsets.1 else 0) +
    (if encodeLength then VarInt.size (self.offsets.2 - self.offsets.1) else 0)

def SendState.isDataSent : SendState → Bool
  | .dataSent _ => true
  | .ready | .resetSent => false

/-- Take the next range of a stream into a frame. Returns the stream, the frame, and whether its length is
    encoded. -/
def Send.nextFrame (self : Send) (id : StreamId) (maxLen : Nat) : Option (Send × StreamMeta × Bool) := do
  let (pending, offsets, encodeLength) ← self.pending.pollTransmit maxLen
  let fin := decide (offsets.2 = pending.offset) && self.state.isDataSent
  some ({ self with pending, finPending := self.finPending && !fin }, ⟨id, offsets, fin⟩, encodeLength)

namespace StreamsState

/-- Put a stream that still has pending data back into the queue. -/
def requeue (self : StreamsState) (fair : Bool) (id : StreamId) (stream : Send) : PendingStreamsQueue :=
  if stream.isPending then
    if fair then self.pending.pushPending id stream.priority else self.pending.reinsertPending id stream.priority
  else self.pending

/-- The loop of `write_stream_frames`. Each round takes a stream off the queue; one that puts it back has
    written a frame. The frames come with whether their lengths were encoded. -/
def writeStreamFramesLoop (fair : Bool) (maxBufSize : Nat) :
    Nat → StreamsState → Nat → List (StreamMeta × Bool) → Option (StreamsState × Nat × List (StreamMeta × Bool))
  | 0, self, len, frames => some (self, len, frames)
  | fuel + 1, self, len, frames =>
    if len + 25 < maxBufSize then
      match self.pending.pop with
      | none => some (self, len, frames)
      | some (next, pending) =>
        let self := { self with pending }
        match self.sendAt next.id with
        | none => writeStreamFramesLoop fair maxBufSize fuel self len frames
        | some stream =>
          if stream.isReset then writeStreamFramesLoop fair maxBufSize fuel self len frames
          else do
            let maxLen ← checkedSub (maxBufSize - len - 1) (VarInt.size next.id.toNat)
            let (stream, frame, encodeLength) ← stream.nextFrame next.id maxLen
            let pending := self.requeue fair next.id stream
            let data ← stream.pending.copy (frame.offsets.2 - frame.offsets.1) frame.offsets
            writeStreamFramesLoop fair maxBufSize fuel { self.setSend next.id stream with pending }
              (len + frame.headerLen encodeLength + data.length) (frames ++ [(frame, encodeLength)])
    else some (self, len, frames)

def writeStreamFrames (self : StreamsState) (len maxBufSize : Nat) (fair : Bool) :
    Option (StreamsState × Nat × List (StreamMeta × Bool)) :=
  writeStreamFramesLoop fair maxBufSize (self.pending.iter.length + maxBufSize) self len []

end StreamsState

/-! A connection as far as its streams are concerned: the events that reach them, from the application,
    the peer, the packets in flight and the handshake, as `src/connection/mod.rs` passes them on. -/

structure SentPacket where
  retransmits : Retransmits
  streamFrames : List StreamMeta

/-- What is known of the peer's parameters: nothing, those remembered for 0-RTT data, or its own. -/
inductive Phase where
  | initial
  | zeroRtt
  | ready
  deriving DecidableEq

structure Connection where
  streams : StreamsState
  pending : Retransmits
  sentPackets : List SentPacket
  phase : Phase

inductive SendCall where
  | write (data : Bytes)
  | writeChunks (data : List Bytes)
  | finish
  | reset (errorCode : Nat)
  | setPriority (priority : Int)
  deriving DecidableEq

inductive RecvCall where
  | read (ordered : Bool) (maxLengths : List Nat)
  | stop (errorCode : Nat)
  | checkReset
  deriving DecidableEq

inductive Frame where
  | stream (frame : StreamFrame) (payloadLen : Nat)
  | resetStream (frame : ResetStream)
  | stopSending (id : StreamId) (errorCode : Nat)
  | maxData (n : Nat)
  | maxStreamData (id : StreamId) (offset : Nat)
  | maxStreams (dir : Dir) (count : Nat)
  deriving DecidableEq

inductive Event where
  | openStream (dir : Dir)
  | accept (dir : Dir)
  | send (id : StreamId) (call : SendCall)
  | recv (id : StreamId) (call : RecvCall)
  | poll
  | setMaxConcurrent (dir : Dir) (count : Nat)
  | setReceiveWindow (receiveWindow : Nat)
  | frame (frame : Frame)
  | packetEnd
  /-- A packet is sent: `len` bytes are in it before the control frames, `extra` bytes before the streams'. -/
  | transmit (len extra maxSize : Nat) (fair : Bool)
  | ack (i : Nat)
  | lost (i : Nat)
  /-- The control frames of the `i`-th packet in flight are sent again as a probe. -/
  | probe (i : Nat)
  | init0rtt (params : TransportParameters)
  /-- The handshake is done; 0-RTT data, if any, was accepted. -/
  | established (params : TransportParameters)
  /-- The handshake is done, and 0-RTT was rejected. -/
  | zeroRttRejected (params : TransportParameters)
  | retry
  deriving DecidableEq

namespace Connection

def new (side : Side) (maxRemoteUni maxRemoteBi sendWindow receiveWindow streamReceiveWindow : Nat) :
    Option Connection := do
  let streams ← StreamsState.new side maxRemoteUni maxRemoteBi sendWindow receiveWindow streamReceiveWindow
  some ⟨streams, Retransmits.empty, [], .initial⟩

def sendCall (self : Connection) (id : StreamId) : SendCall → Option Connection
  | .write data => do
    let (streams, _) ← self.streams.writeSource id (ByteSlice.mk data)
    some { self with streams }
  | .writeChunks data => do
    let (streams, _) ← self.streams.writeSource id (BytesArray.mk data)
    some { self with streams }
  | .finish => some { self with streams := (self.streams.finish id).1 }
  | .reset errorCode => do
    let (streams, pending, _) ← self.streams.reset self.pending id errorCode
    some { self with streams, pending }
  | .setPriority priority => some { self with streams := (self.streams.setPriority id priority).1 }

def recvCall (self : Connection) (id : StreamId) : RecvCall → Option Connection
  | .read ordered maxLengths => do
    let (streams, pending, _) ← Chunks.session self.streams self.pending id ordered maxLengths
    some { self with streams, pending }
  | .stop errorCode => do
    let (streams, pending, _) ← self.streams.stop self.pending id errorCode
    some { self with streams, pending }
  | .checkReset => do
    let (streams, pending, _) ← self.streams.checkReset self.pending id
    some { self with streams, pending }

/-- Remember that a `MAX_DATA` frame is to be sent, if the frame's handler asked for it. -/
def afterFrame (self : Connection) (streams : StreamsState) (result : Except TransportError Bool) : Connection :=
  { self with streams
              pending := { self.pending with maxData := self.pending.maxData || result.toOption.getD false } }

def receiveFrame (self : Connection) : Frame → Option Connection
  | .stream frame payloadLen => do
    let (streams, result) ← self.streams.received frame payloadLen
    some (self.afterFrame streams result)
  | .resetStream frame => do
    let (streams, result) ← self.streams.receivedReset frame
    some (self.afterFrame streams result)
  | .stopSending id errorCode => some { self with streams := (self.streams.receivedStopSending id errorCode).1 }
  | .maxData n => some { self with streams := self.streams.receivedMaxData n }
  | .maxStreamData id offset => do
    let (streams, _) ← self.streams.receivedMaxStreamData id offset
    some { self with streams }
  | .maxStreams dir count => some { self with streams := (self.streams.receivedMaxStreams dir count).1 }

def transmit (self : Connection) (len extra maxSize : Nat) (fair : Bool) : Option Connection := do
  let (w, encoded) ← ControlWriter.write maxSize ⟨self.streams, self.pending, Retransmits.empty, len⟩
  if encoded then do
    let (streams, _, frames) ← w.streams.writeStreamFrames (w.len + extra) maxSize fair
    some { self with streams, pending := w.pending, sentPackets := self.sentPackets ++ [⟨w.sent, frames.map Prod.fst⟩] }
  else some { self with streams := w.streams, pending := w.pending, sentPackets := self.sentPackets ++ [⟨w.sent, []⟩] }

def onPacketAcked (streams : StreamsState) (packet : SentPacket) : Option StreamsState := do
  let streams ← packet.retransmits.resetStream.foldlM (fun streams reset => streams.resetAcked reset.1) streams
  packet.streamFrames.foldlM StreamsState.receivedAckOf streams

def ack (self : Connection) (i : Nat) : Option Connection :=
  match self.sentPackets[i]? with
  | none => some self
  | some packet => do
    let streams ← onPacketAcked self.streams packet
    some { self with streams, sentPackets := self.sentPackets.eraseIdx i }

def lost (self : Connection) (i : Nat) : Connection :=
  match self.sentPackets[i]? with
  | none => self
  | some packet =>
    { self with streams := packet.streamFrames.foldl StreamsState.retransmit self.streams
                pending := self.pending.merge packet.retransmits
                sentPackets := self.sentPackets.eraseIdx i }

def probe (self : Connection) (i : Nat) : Connection :=
  match self.sentPackets[i]? with
  | none => self
  | some packet =>
    { self with pending := self.pending.merge packet.retransmits
                sentPackets := self.sentPackets.set i { packet with retransmits := Retransmits.empty } }

def retry (self : Connection) : Connection :=
  { self with pending := self.sentPackets.foldl (fun pending packet => pending.merge packet.retransmits) self.pending
              sentPackets := []
              streams := self.streams.retransmitAllFor0rtt }

def zeroRttRejected (self : Connection) (params : TransportParameters) : Option Connection := do
  let streams ← self.streams.zeroRttRejected
  some { self with streams := streams.setParams params, pending := Retransmits.empty, sentPackets := [], phase := .ready }

def step (self : Connection) : Event → Option Connection
  | .openStream dir => do
    let (streams, _) ← self.streams.openStream dir
    some { self with streams }
  | .accept dir => some { self with streams := (self.streams.accept dir).1 }
  | .send id call => self.sendCall id call
  | .recv id call => self.recvCall id call
  | .poll => do
    let (streams, _) ← self.streams.poll
    some { self with streams }
  | .setMaxConcurrent dir count => do
    let streams ← self.streams.setMaxConcurrent dir count
    let (pending, _) ← streams.queueMaxStreamId self.pending
    some { self with streams, pending }
  | .setReceiveWindow receiveWindow =>
    let (streams, expanded) := self.streams.setReceiveWindow receiveWindow
    some { self with streams, pending := { self.pending with maxData := self.pending.maxData || expanded } }
  | .frame frame => self.receiveFrame frame
  | .packetEnd => do
    let (pending, _) ← self.streams.queueMaxStreamId self.pending
    some { self with pending }
  | .transmit len extra maxSize fair => self.transmit len extra maxSize fair
  | .ack i => self.ack i
  | .lost i => some (self.lost i)
  | .probe i => some (self.probe i)
  | .init0rtt params => some { self with streams := self.streams.setParams params, phase := .zeroRtt }
  | .established params => some { self with streams := self.streams.setParams params, phase := .ready }
  | .zeroRttRejected params => self.zeroRttRejected params
  | .retry => some self.retry

/-- The application has a handle on the stream: it is a local one, or was accepted. -/
def Handle (self : Connection) (id : StreamId) : Prop :=
  id.initiator = self.streams.side ∨ id.index < self.streams.nextReportedRemote id.dir

instance (self : Connection) (id : StreamId) : Decidable (self.Handle id) := inferInstanceAs (Decidable (_ ∨ _))

/-- The numbers in frames and settings are variable-length integers. -/
def Frame.Encodable : Frame → Prop
  | .resetStream frame => frame.finalOffset ≤ VarInt.max
  | .maxData n | .maxStreamData _ n | .maxStreams _ n => n ≤ VarInt.max
  | .stream _ _ | .stopSending _ _ => True

instance : DecidablePred Frame.Encodable := fun e => by
  unfold Frame.Encodable
  split <;> infer_instance

/-- The application uses its handles; the peer's frames and acknowledgements come once its parameters are
    known; 0-RTT and Retry belong to a client whose handshake is not done. -/
def Enabled (self : Connection) : Event → Prop
  | .send id _ | .recv id _ => self.Handle id
  | .setReceiveWindow n => n ≤ VarInt.max
  | .frame frame => self.phase = .ready ∧ Frame.Encodable frame
  | .packetEnd | .ack _ | .lost _ => self.phase = .ready
  | .init0rtt _ => self.phase = .initial ∧ self.streams.side = .client
  | .established _ => self.phase ≠ .ready
  | .zeroRttRejected _ => self.phase = .zeroRtt
  | .retry => self.phase ≠ .ready ∧ self.streams.side = .client
  | .openStream _ | .accept _ | .poll | .setMaxConcurrent _ _ | .transmit _ _ _ _ | .probe _ => True

instance (self : Connection) : DecidablePred self.Enabled := fun e => by
  unfold Enabled
  split <;> infer_instance

end Connection
end SaorsaTransport
