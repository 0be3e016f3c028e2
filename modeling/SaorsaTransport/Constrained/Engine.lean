import SaorsaTransport.Basic
import Mathlib.Data.List.AList

/-! The sequence numbers and sliding windows of the constrained transport: `src/constrained/types.rs` and
    `src/constrained/arq.rs`. The caller says which entries of a send window are past the retransmission timeout. -/

namespace SaorsaTransport.Constrained

abbrev SequenceNumber := BitVec 8

namespace SequenceNumber

def next (self : SequenceNumber) : SequenceNumber := self + 1

/-- The distance from `self` to `other`: positive if `other` is ahead, negative if behind. -/
def distanceTo (self other : SequenceNumber) : Int := (other - self).toInt

def isInWindow (self other : SequenceNumber) (windowSize : Nat) : Bool :=
  0 ≤ self.distanceTo other && self.distanceTo other ≤ windowSize

end SequenceNumber

structure ArqConfig where
  windowSize : Nat
  maxRetries : Nat
  deriving DecidableEq

structure SendEntry where
  seq : SequenceNumber
  data : Bytes
  transmissions : Nat
  deriving DecidableEq

structure SendWindow where
  config : ArqConfig
  baseSeq : SequenceNumber
  unacked : List SendEntry
  deriving DecidableEq

namespace SendWindow

def new (config : ArqConfig) : SendWindow := ⟨config, 0, []⟩

def isFull (self : SendWindow) : Bool := !(self.unacked.length < self.config.windowSize)

/-- Add a packet whose sequence number the caller has chosen; `none` is `SendBufferFull`. -/
def add (self : SendWindow) (seq : SequenceNumber) (data : Bytes) : Option SendWindow :=
  if self.isFull then none else some { self with unacked := self.unacked ++ [⟨seq, data, 1⟩] }

def acks (self : SendWindow) (ack : SequenceNumber) (entry : SendEntry) : Bool :=
  self.baseSeq.distanceTo entry.seq ≤ self.baseSeq.distanceTo ack

/-- Process a cumulative ACK: entries leave from the front as long as they are acknowledged. -/
def acknowledge (self : SendWindow) (ack : SequenceNumber) : SendWindow :=
  { self with
    unacked := self.unacked.dropWhile (self.acks ack)
    baseSeq := if 0 < (self.unacked.takeWhile (self.acks ack)).length then ack.next else self.baseSeq }

/-- The entries to send again, and all entries with their count of transmissions brought up to date; `none` if one has
    used up its retries. -/
def retransmissions (maxRetries : Nat) (overdue : SequenceNumber → Bool) :
    List SendEntry → Option (List (SequenceNumber × Bytes)) × List SendEntry
  | [] => (some [], [])
  | entry :: rest =>
    if overdue entry.seq then
      if maxRetries < entry.transmissions then (none, entry :: rest)
      else
        let (retransmits, rest) := retransmissions maxRetries overdue rest
        (retransmits.map ((entry.seq, entry.data) :: ·), { entry with transmissions := entry.transmissions + 1 } :: rest)
    else
      let (retransmits, rest) := retransmissions maxRetries overdue rest
      (retransmits, entry :: rest)

def getRetransmissions (self : SendWindow) (overdue : SequenceNumber → Bool) :
    Option (List (SequenceNumber × Bytes)) × SendWindow :=
  let (retransmits, unacked) := retransmissions self.config.maxRetries overdue self.unacked
  (retransmits, { self with unacked })

end SendWindow

structure ReceiveWindow where
  windowSize : Nat
  nextExpected : SequenceNumber
  cumulativeAck : SequenceNumber
  outOfOrder : List (SequenceNumber × Bytes)
  deriving DecidableEq

namespace ReceiveWindow

def new (windowSize : Nat) : ReceiveWindow := ⟨windowSize, 0, 0, []⟩

def isInWindow (self : ReceiveWindow) (seq : SequenceNumber) : Bool := self.nextExpected.isInWindow seq self.windowSize

def advance (self : ReceiveWindow) (seq : SequenceNumber) : ReceiveWindow :=
  { self with nextExpected := self.nextExpected.next, cumulativeAck := seq }

/-- Take the buffered packets that are now in order; each turn removes one, so their number bounds the turns. -/
def drain : Nat → ReceiveWindow → List (SequenceNumber × Bytes) × ReceiveWindow
  | 0, self => ([], self)
  | fuel + 1, self =>
    match self.outOfOrder.find? (·.1 = self.nextExpected) with
    | none => ([], self)
    | some (seq, data) =>
      let (deliverable, self) := drain fuel
        ({ self with outOfOrder := self.outOfOrder.eraseP (·.1 = self.nextExpected) }.advance seq)
      ((seq, data) :: deliverable, self)

def position (self : ReceiveWindow) (seq : SequenceNumber) : Nat :=
  self.outOfOrder.findIdx fun entry => self.nextExpected.distanceTo seq < self.nextExpected.distanceTo entry.1

/-- Receive a packet. If it is in order, it is returned with the buffered ones that follow it; otherwise it is kept if
    it lies in the window. -/
def receive (self : ReceiveWindow) (seq : SequenceNumber) (data : Bytes) :
    Option (List (SequenceNumber × Bytes)) × ReceiveWindow :=
  if !self.isInWindow seq then (none, self)
  else if seq = self.nextExpected then
    let (deliverable, window) := drain self.outOfOrder.length (self.advance seq)
    (some ((seq, data) :: deliverable), window)
  else if self.outOfOrder.any (·.1 = seq) then (none, self)
  else (none, { self with outOfOrder := self.outOfOrder.insertIdx (self.position seq) (seq, data) })

def resetWithSeq (self : ReceiveWindow) (startSeq : SequenceNumber) : ReceiveWindow :=
  { self with nextExpected := startSeq, cumulativeAck := startSeq, outOfOrder := [] }

end ReceiveWindow

/-! A connection of the constrained transport: `src/constrained/header.rs`, `src/constrained/state.rs` and
    `src/constrained/connection.rs`. `Elapsed` gives a poll the times that have passed. -/

abbrev ConnectionId := BitVec 16

abbrev PacketFlags := BitVec 8

namespace PacketFlags

def syn : PacketFlags := 0x01
def ack : PacketFlags := 0x02
def fin : PacketFlags := 0x04
def rst : PacketFlags := 0x08
def data : PacketFlags := 0x10
def ping : PacketFlags := 0x20
def pong : PacketFlags := 0x40
def synAck : PacketFlags := 0x03

def has (self flag : PacketFlags) : Bool := self &&& flag != 0

end PacketFlags

structure ConstrainedHeader where
  connectionId : ConnectionId
  seq : SequenceNumber
  ack : SequenceNumber
  flags : PacketFlags
  deriving DecidableEq

inductive ConstrainedError where
  | packetTooSmall (expected actual : Nat)
  | invalidStateTransition (source target : String)
  | connectionNotFound (id : ConnectionId)
  | connectionExists (id : ConnectionId)
  | connectionClosed
  | sendBufferFull
  deriving DecidableEq

namespace ConstrainedHeader

def syn (id : ConnectionId) : ConstrainedHeader := ⟨id, 0, 0, .syn⟩
def synAck (id : ConnectionId) (ack : SequenceNumber) : ConstrainedHeader := ⟨id, 0, ack, .synAck⟩
def ackOnly (id : ConnectionId) (seq ack : SequenceNumber) : ConstrainedHeader := ⟨id, seq, ack, .ack⟩
def data (id : ConnectionId) (seq ack : SequenceNumber) : ConstrainedHeader := ⟨id, seq, ack, .data ||| .ack⟩
def fin (id : ConnectionId) (seq ack : SequenceNumber) : ConstrainedHeader := ⟨id, seq, ack, .fin ||| .ack⟩
def reset (id : ConnectionId) : ConstrainedHeader := ⟨id, 0, 0, .rst⟩
def ping (id : ConnectionId) (seq : SequenceNumber) : ConstrainedHeader := ⟨id, seq, 0, .ping⟩
def pong (id : ConnectionId) (ack : SequenceNumber) : ConstrainedHeader := ⟨id, 0, ack, .pong⟩

def isSyn (self : ConstrainedHeader) : Bool := self.flags.has .syn
def isAck (self : ConstrainedHeader) : Bool := self.flags.has .ack
def isSynAck (self : ConstrainedHeader) : Bool := self.isSyn && self.isAck
def isFin (self : ConstrainedHeader) : Bool := self.flags.has .fin
def isRst (self : ConstrainedHeader) : Bool := self.flags.has .rst
def isData (self : ConstrainedHeader) : Bool := self.flags.has .data
def isPing (self : ConstrainedHeader) : Bool := self.flags.has .ping

def headerSize : Nat := 5

def toBytes (self : ConstrainedHeader) : Bytes :=
  [.ofBitVec (self.connectionId.extractLsb' 8 8), .ofBitVec (self.connectionId.extractLsb' 0 8), .ofBitVec self.seq,
    .ofBitVec self.ack, .ofBitVec self.flags]

def fromBytes : Bytes → Except ConstrainedError ConstrainedHeader
  | high :: low :: seq :: ack :: flags :: _ =>
    .ok ⟨high.toBitVec ++ low.toBitVec, seq.toBitVec, ack.toBitVec, flags.toBitVec⟩
  | bytes => .error (.packetTooSmall headerSize bytes.length)

end ConstrainedHeader

structure ConstrainedPacket where
  header : ConstrainedHeader
  payload : Bytes
  deriving DecidableEq

namespace ConstrainedPacket

def control (header : ConstrainedHeader) : ConstrainedPacket := ⟨header, []⟩

def data (id : ConnectionId) (seq ack : SequenceNumber) (payload : Bytes) : ConstrainedPacket :=
  ⟨.data id seq ack, payload⟩

def toBytes (self : ConstrainedPacket) : Bytes := self.header.toBytes ++ self.payload

def fromBytes (bytes : Bytes) : Except ConstrainedError ConstrainedPacket :=
  (ConstrainedHeader.fromBytes bytes).map fun header => ⟨header, bytes.drop ConstrainedHeader.headerSize⟩

end ConstrainedPacket

inductive ConnectionState where
  | closed
  | synSent
  | synReceived
  | established
  | finWait
  | closing
  | timeWait
  deriving DecidableEq

inductive StateEvent where
  | open
  | recvSyn
  | recvSynAck
  | recvAck
  | recvFin
  | recvRst
  | close
  | timeout
  deriving DecidableEq

namespace ConnectionState

def toString : ConnectionState → String
  | closed => "CLOSED"
  | synSent => "SYN_SENT"
  | synReceived => "SYN_RCVD"
  | established => "ESTABLISHED"
  | finWait => "FIN_WAIT"
  | closing => "CLOSING"
  | timeWait => "TIME_WAIT"

def canSendData : ConnectionState → Bool
  | established | finWait => true
  | _ => false

def isClosed : ConnectionState → Bool
  | closed | timeWait => true
  | _ => false

/-- How long to stay in a state, in milliseconds; `none` is for ever. -/
def timeout : ConnectionState → Option Nat
  | closed => none
  | synSent => some 5000
  | synReceived => some 5000
  | established => some 300000
  | finWait => some 30000
  | closing => some 30000
  | timeWait => some 4000

end ConnectionState

def StateEvent.toString : StateEvent → String
  | .open => "OPEN"
  | .recvSyn => "RECV_SYN"
  | .recvSynAck => "RECV_SYN_ACK"
  | .recvAck => "RECV_ACK"
  | .recvFin => "RECV_FIN"
  | .recvRst => "RECV_RST"
  | .close => "CLOSE"
  | .timeout => "TIMEOUT"

def ConnectionState.nextState : ConnectionState → StateEvent → Except ConstrainedError ConnectionState
  | .closed, .open => .ok .synSent
  | .closed, .recvSyn => .ok .synReceived
  | .synSent, .recvSynAck => .ok .established
  | .synSent, .recvRst => .ok .closed
  | .synSent, .timeout => .ok .closed
  | .synSent, .close => .ok .closed
  | .synReceived, .recvAck => .ok .established
  | .synReceived, .recvRst => .ok .closed
  | .synReceived, .timeout => .ok .closed
  | .synReceived, .close => .ok .closed
  | .established, .recvFin => .ok .closing
  | .established, .close => .ok .finWait
  | .established, .recvRst => .ok .closed
  | .established, .timeout => .ok .closed
  | .finWait, .recvAck => .ok .closing
  | .finWait, .recvFin => .ok .timeWait
  | .finWait, .recvRst => .ok .closed
  | .finWait, .timeout => .ok .closed
  | .closing, .recvAck => .ok .timeWait
  | .closing, .recvFin => .ok .timeWait
  | .closing, .recvRst => .ok .closed
  | .closing, .timeout => .ok .closed
  | .timeWait, .timeout => .ok .closed
  | .timeWait, .recvRst => .ok .closed
  | state, event => .error (.invalidStateTransition state.toString (event.toString ++ " -> ?"))

structure ConnectionConfig where
  arq : ArqConfig
  mss : Nat
  keepaliveInterval : Nat
  idleTimeout : Nat
  deriving DecidableEq

inductive ConnectionEvent where
  | connected
  | dataReceived (data : Bytes)
  | closed
  | reset
  | error (message : String)
  | transmit (data : Bytes)
  deriving DecidableEq

structure Elapsed where
  inState : Nat
  activity : Nat
  /-- Since the last keep-alive, or since the last activity if there was none. -/
  keepalive : Nat
  /-- Whether the last transmission of an unacknowledged packet is longer ago than the retransmission timeout. -/
  overdue : SequenceNumber → Bool

structure ConstrainedConnection where
  connectionId : ConnectionId
  remoteAddr : SocketAddr
  state : ConnectionState
  sendWindow : SendWindow
  receiveWindow : ReceiveWindow
  config : ConnectionConfig
  outbound : List ConstrainedPacket
  inbound : List Bytes
  events : List ConnectionEvent
  localSeq : SequenceNumber
  isInitiator : Bool
  deriving DecidableEq

/-- The pieces of at most `size` bytes; their number is at most `fuel`. -/
def chunks (size : Nat) : Nat → Bytes → List Bytes
  | 0, _ => []
  | _ + 1, [] => []
  | fuel + 1, data => data.take size :: chunks size fuel (data.drop size)

namespace ConstrainedConnection

def new (id : ConnectionId) (remoteAddr : SocketAddr) (config : ConnectionConfig) (isInitiator : Bool) :
    ConstrainedConnection :=
  { connectionId := id
    remoteAddr
    state := .closed
    sendWindow := .new config.arq
    receiveWindow := .new config.arq.windowSize
    config
    outbound := []
    inbound := []
    events := []
    localSeq := 0
    isInitiator }

def setState (self : ConstrainedConnection) (state : ConnectionState) : ConstrainedConnection := { self with state }

def transition (self : ConstrainedConnection) (event : StateEvent) : Except ConstrainedError ConstrainedConnection :=
  (self.state.nextState event).map self.setState

/-- Process a state event whose error is of no interest: `let _ = self.state.transition(..)`. -/
def force (self : ConstrainedConnection) (event : StateEvent) : ConstrainedConnection :=
  match self.transition event with
  | .ok conn => conn
  | .error _ => self

def push (self : ConstrainedConnection) (packet : ConstrainedPacket) : ConstrainedConnection :=
  { self with outbound := self.outbound ++ [packet] }

def emit (self : ConstrainedConnection) (event : ConnectionEvent) : ConstrainedConnection :=
  { self with events := self.events ++ [event] }

def initiate (self : ConstrainedConnection) : Except ConstrainedError (ConstrainedPacket × ConstrainedConnection) :=
  if !self.isInitiator then .error (.invalidStateTransition "inbound" "initiating")
  else (self.transition .open).map fun conn => (.control (.syn self.connectionId), conn)

def accept (self : ConstrainedConnection) (synSeq : SequenceNumber) :
    Except ConstrainedError (ConstrainedPacket × ConstrainedConnection) :=
  if self.isInitiator then .error (.invalidStateTransition "outbound" "accepting")
  else (self.transition .recvSyn).map fun conn => (.control (.synAck self.connectionId synSeq.next), conn)

def sendChunk (self : ConstrainedConnection) (chunk : Bytes) : Option ConstrainedConnection :=
  (self.sendWindow.add self.localSeq chunk).map fun sendWindow =>
    { self with localSeq := self.localSeq.next, sendWindow }.push
      (.data self.connectionId self.localSeq self.receiveWindow.cumulativeAck chunk)

def sendChunks (self : ConstrainedConnection) : List Bytes → Except ConstrainedError Unit × ConstrainedConnection
  | [] => (.ok (), self)
  | chunk :: rest =>
    match self.sendChunk chunk with
    | none => (.error .sendBufferFull, self)
    | some conn => conn.sendChunks rest

/-- Send data, in pieces of the maximum segment size; a segment size of 0 is a panic. -/
def send (self : ConstrainedConnection) (data : Bytes) : Option (Except ConstrainedError Unit × ConstrainedConnection) :=
  if !self.state.canSendData then some (.error .connectionClosed, self)
  else if self.config.mss = 0 then none
  else some (self.sendChunks (chunks self.config.mss data.length data))

def recv (self : ConstrainedConnection) : Option Bytes × ConstrainedConnection :=
  (self.inbound.head?, { self with inbound := self.inbound.tail })

def close (self : ConstrainedConnection) : Except ConstrainedError (ConstrainedPacket × ConstrainedConnection) :=
  (self.transition .close).map fun conn =>
    (.control (.fin self.connectionId self.localSeq self.receiveWindow.cumulativeAck), conn)

def reset (self : ConstrainedConnection) : ConstrainedPacket × ConstrainedConnection :=
  (.control (.reset self.connectionId), self.force .recvRst)

def ackPacket (self : ConstrainedConnection) : ConstrainedPacket :=
  .control (.ackOnly self.connectionId self.localSeq self.receiveWindow.cumulativeAck)

def onAck (self : ConstrainedConnection) (header : ConstrainedHeader) : ConstrainedConnection :=
  if header.isAck then { self with sendWindow := self.sendWindow.acknowledge header.ack } else self

/-- Data that came in order is handed over, and acknowledged. -/
def deliver (self : ConstrainedConnection) (deliverable : List (SequenceNumber × Bytes)) : ConstrainedConnection :=
  let conn := { self with
    inbound := self.inbound ++ deliverable.map Prod.snd
    events := self.events ++ deliverable.map fun _ => ConnectionEvent.dataReceived [] }
  conn.push conn.ackPacket

def onData (self : ConstrainedConnection) (packet : ConstrainedPacket) : ConstrainedConnection :=
  if packet.header.isData && !packet.payload.isEmpty then
    match self.receiveWindow.receive packet.header.seq packet.payload with
    | (some deliverable, receiveWindow) => { self with receiveWindow }.deliver deliverable
    | (none, receiveWindow) => { self with receiveWindow }
  else self

def onPing (self : ConstrainedConnection) (header : ConstrainedHeader) : ConstrainedConnection :=
  if header.isPing then self.push (.control (.pong self.connectionId header.seq)) else self

def onEstablished (self : ConstrainedConnection) (packet : ConstrainedPacket) :
    Except ConstrainedError Unit × ConstrainedConnection :=
  let header := packet.header
  let conn := (self.onAck header).onData packet
  if header.isFin then
    match conn.transition .recvFin with
    | .error e => (.error e, conn)
    | .ok closing =>
      (.ok (), ((closing.push (.control (.ackOnly self.connectionId self.localSeq header.seq.next))).emit .closed).onPing
        header)
  else (.ok (), conn.onPing header)

def onSynAck (self : ConstrainedConnection) (header : ConstrainedHeader) :
    Except ConstrainedError Unit × ConstrainedConnection :=
  match self.transition .recvSynAck with
  | .error e => (.error e, self)
  | .ok conn =>
    (.ok (), ({ conn with receiveWindow := self.receiveWindow.resetWithSeq header.seq.next }.push
      (.control (.ackOnly self.connectionId self.localSeq header.seq.next))).emit .connected)

def onFinWait (self : ConstrainedConnection) (header : ConstrainedHeader) :
    Except ConstrainedError Unit × ConstrainedConnection :=
  match if header.isAck then self.transition .recvAck else .ok self with
  | .error e => (.error e, self)
  | .ok conn =>
    if header.isFin then
      match conn.transition .recvFin with
      | .error e => (.error e, conn)
      | .ok conn => (.ok (), conn.emit .closed)
    else (.ok (), conn)

def processPacket (self : ConstrainedConnection) (packet : ConstrainedPacket) :
    Except ConstrainedError Unit × ConstrainedConnection :=
  let header := packet.header
  if header.isRst then (.ok (), (self.force .recvRst).emit .reset)
  else
    match self.state with
    | .closed => (.ok (), self)
    | .synSent => if header.isSynAck then self.onSynAck header else (.ok (), self)
    | .synReceived =>
      if header.isAck then
        match self.transition .recvAck with
        | .error e => (.error e, self)
        | .ok conn => (.ok (), conn.emit .connected)
      else (.ok (), self)
    | .established => self.onEstablished packet
    | .finWait => self.onFinWait header
    | .closing =>
      if header.isAck || header.isFin then
        match self.transition .recvAck with
        | .error e => (.error e, self)
        | .ok conn => (.ok (), conn)
      else (.ok (), self)
    | .timeWait => (.ok (), self)

def expire (self : ConstrainedConnection) (message : String) : ConstrainedConnection :=
  (self.force .timeout).emit (.error message)

def keepalive (self : ConstrainedConnection) (elapsed : Elapsed) : List ConstrainedPacket :=
  if self.state = .established ∧ 0 < self.config.keepaliveInterval ∧ self.config.keepaliveInterval < elapsed.keepalive then
    [.control (.ping self.connectionId self.localSeq)]
  else []

def transmit (self : ConstrainedConnection) (elapsed : Elapsed) (retransmits : List (SequenceNumber × Bytes)) :
    List ConstrainedPacket :=
  (retransmits.map fun entry => .data self.connectionId entry.1 self.receiveWindow.cumulativeAck entry.2) ++
    self.keepalive elapsed ++ self.outbound

def poll (self : ConstrainedConnection) (elapsed : Elapsed) : List ConstrainedPacket × ConstrainedConnection :=
  if self.state.timeout.any (· < elapsed.inState) then ([], self.expire "Connection timed out")
  else if self.config.idleTimeout < elapsed.activity then ([], self.expire "Idle timeout")
  else
    match self.sendWindow.getRetransmissions elapsed.overdue with
    | (none, sendWindow) => ([], { self with sendWindow }.expire "Maximum retransmissions exceeded")
    | (some retransmits, sendWindow) =>
      (self.transmit elapsed retransmits, { self with sendWindow, outbound := [] })

/-- A packet comes in: it is processed, the events are collected, and the connection is polled. -/
def incoming (self : ConstrainedConnection) (packet : ConstrainedPacket) (elapsed : Elapsed) :
    Except ConstrainedError (List ConnectionEvent × List ConstrainedPacket) × ConstrainedConnection :=
  match self.processPacket packet with
  | (.error e, conn) => (.error e, conn)
  | (.ok (), conn) =>
    let (packets, polled) := { conn with events := [] }.poll elapsed
    (.ok (conn.events, packets), polled)

/-- Data is sent, and the connection is polled if all of it was accepted. -/
def sendNow (self : ConstrainedConnection) (data : Bytes) (elapsed : Elapsed) :
    Option (Except ConstrainedError (List ConstrainedPacket) × ConstrainedConnection) :=
  (self.send data).map fun
    | (.error e, conn) => (.error e, conn)
    | (.ok (), conn) =>
      let (packets, conn) := conn.poll elapsed
      (.ok packets, conn)

end ConstrainedConnection

/-! The engine of the constrained transport, which keeps the connections of a node in two tables:
    `src/constrained/engine.rs`. The order in which a poll visits the connections is that of the table. -/

structure EngineConfig where
  maxConnections : Nat
  connectionConfig : ConnectionConfig
  deriving DecidableEq

inductive EngineEvent where
  | connectionAccepted (id : ConnectionId) (remoteAddr : SocketAddr)
  | connectionEstablished (id : ConnectionId)
  | connectionClosed (id : ConnectionId)
  | connectionError (id : ConnectionId) (error : String)
  deriving DecidableEq

structure ConstrainedEngine where
  config : EngineConfig
  connections : AList fun _ : ConnectionId => ConstrainedConnection
  addrToConn : AList fun _ : SocketAddr => ConnectionId
  events : List EngineEvent
  nextConnId : ConnectionId

abbrev Responses := List (SocketAddr × Bytes)

namespace ConstrainedEngine

def new (config : EngineConfig) : ConstrainedEngine := ⟨config, ∅, ∅, [], 1⟩

def connectionCount (self : ConstrainedEngine) : Nat := self.connections.keys.length

def canAcceptConnection (self : ConstrainedEngine) : Bool := self.connectionCount < self.config.maxConnections

def followingConnId (id : ConnectionId) : ConnectionId := if id + 1 = 0 then 1 else id + 1

def setConnection (self : ConstrainedEngine) (id : ConnectionId) (conn : ConstrainedConnection) : ConstrainedEngine :=
  { self with connections := self.connections.insert id conn }

def insertConnection (self : ConstrainedEngine) (id : ConnectionId) (conn : ConstrainedConnection)
    (remoteAddr : SocketAddr) : ConstrainedEngine :=
  { self.setConnection id conn with addrToConn := self.addrToConn.insert remoteAddr id }

def connect (self : ConstrainedEngine) (remoteAddr : SocketAddr) :
    Except ConstrainedError (ConnectionId × Bytes) × ConstrainedEngine :=
  if !self.canAcceptConnection then (.error .sendBufferFull, self)
  else
    match self.addrToConn.lookup remoteAddr with
    | some id => (.error (.connectionExists id), self)
    | none =>
      let id := self.nextConnId
      let engine := { self with nextConnId := followingConnId id }
      match (ConstrainedConnection.new id remoteAddr self.config.connectionConfig true).initiate with
      | .error e => (.error e, engine)
      | .ok (syn, conn) => (.ok (id, syn.toBytes), engine.insertConnection id conn remoteAddr)

/-- The event of the engine for an event of a connection; data is fetched by `recv`. -/
def engineEvent (id : ConnectionId) : ConnectionEvent → Option EngineEvent
  | .connected => some (.connectionEstablished id)
  | .dataReceived _ => none
  | .closed => some (.connectionClosed id)
  | .reset => some (.connectionClosed id)
  | .error message => some (.connectionError id message)
  | .transmit _ => none

def transmission (remoteAddr : SocketAddr) : ConnectionEvent → Option (SocketAddr × Bytes)
  | .transmit data => some (remoteAddr, data)
  | _ => none

def processKnown (self : ConstrainedEngine) (conn : ConstrainedConnection) (remoteAddr : SocketAddr)
    (packet : ConstrainedPacket) (elapsed : Elapsed) : Except ConstrainedError Responses × ConstrainedEngine :=
  let id := packet.header.connectionId
  match conn.incoming packet elapsed with
  | (.error e, conn) => (.error e, self.setConnection id conn)
  | (.ok (events, packets), conn) =>
    (.ok (events.filterMap (transmission remoteAddr) ++ packets.map fun p => (remoteAddr, p.toBytes)),
      { self.setConnection id conn with events := self.events ++ events.filterMap (engineEvent id) })

def processSyn (self : ConstrainedEngine) (remoteAddr : SocketAddr) (header : ConstrainedHeader) :
    Except ConstrainedError Responses × ConstrainedEngine :=
  let id := header.connectionId
  if !self.canAcceptConnection then (.ok [(remoteAddr, (ConstrainedPacket.control (.reset id)).toBytes)], self)
  else
    match (ConstrainedConnection.new id remoteAddr self.config.connectionConfig false).accept header.seq with
    | .error e => (.error e, self)
    | .ok (synAck, conn) =>
      (.ok [(remoteAddr, synAck.toBytes)],
        { self.insertConnection id conn remoteAddr with events := self.events ++ [.connectionAccepted id remoteAddr] })

def processPacket (self : ConstrainedEngine) (remoteAddr : SocketAddr) (packet : ConstrainedPacket) (elapsed : Elapsed) :
    Except ConstrainedError Responses × ConstrainedEngine :=
  match self.connections.lookup packet.header.connectionId with
  | some conn => self.processKnown conn remoteAddr packet elapsed
  | none =>
    if packet.header.isSyn && !packet.header.isAck then self.processSyn remoteAddr packet.header else (.ok [], self)

def processIncoming (self : ConstrainedEngine) (remoteAddr : SocketAddr) (data : Bytes) (elapsed : Elapsed) :
    Except ConstrainedError Responses × ConstrainedEngine :=
  match ConstrainedPacket.fromBytes data with
  | .error e => (.error e, self)
  | .ok packet => self.processPacket remoteAddr packet elapsed

def send (self : ConstrainedEngine) (id : ConnectionId) (data : Bytes) (elapsed : Elapsed) :
    Option (Except ConstrainedError Responses × ConstrainedEngine) :=
  match self.connections.lookup id with
  | none => some (.error (.connectionNotFound id), self)
  | some conn => (conn.sendNow data elapsed).map fun r =>
    (r.1.map fun packets => packets.map fun p => (conn.remoteAddr, p.toBytes), self.setConnection id r.2)

def recv (self : ConstrainedEngine) (id : ConnectionId) : Option Bytes × ConstrainedEngine :=
  match self.connections.lookup id with
  | none => (none, self)
  | some conn => (conn.recv.1, self.setConnection id conn.recv.2)

def close (self : ConstrainedEngine) (id : ConnectionId) : Except ConstrainedError Responses × ConstrainedEngine :=
  match self.connections.lookup id with
  | none => (.error (.connectionNotFound id), self)
  | some conn =>
    match conn.close with
    | .error e => (.error e, self)
    | .ok (fin, closed) => (.ok [(conn.remoteAddr, fin.toBytes)], self.setConnection id closed)

def retain (map : AList fun _ : SocketAddr => ConnectionId) (id : ConnectionId) : AList fun _ : SocketAddr => ConnectionId :=
  ⟨map.entries.filter (·.2 ≠ id), map.nodupKeys.sublist List.filter_sublist⟩

def reset (self : ConstrainedEngine) (id : ConnectionId) : Except ConstrainedError Responses × ConstrainedEngine :=
  match self.connections.lookup id with
  | none => (.error (.connectionNotFound id), self)
  | some conn =>
    (.ok [(conn.remoteAddr, conn.reset.1.toBytes)],
      { self with connections := self.connections.erase id, addrToConn := retain self.addrToConn id })

def ends : ConnectionEvent → Bool
  | .closed | .reset | .error _ => true
  | _ => false

structure Polling where
  engine : ConstrainedEngine
  responses : Responses
  toRemove : List ConnectionId

def pollConnection (elapsed : ConnectionId → Elapsed) (state : Polling) (id : ConnectionId) : Polling :=
  match state.engine.connections.lookup id with
  | none => state
  | some conn =>
    let (packets, polled) := conn.poll (elapsed id)
    let engine := state.engine.setConnection id { polled with events := [] }
    { engine := { engine with events := engine.events ++ (polled.events.filter ends).filterMap (engineEvent id) }
      responses := state.responses ++ packets.map fun p => (conn.remoteAddr, p.toBytes)
      toRemove := if polled.events.any ends || polled.state.isClosed then state.toRemove ++ [id] else state.toRemove }

def removeClosed (self : ConstrainedEngine) (id : ConnectionId) : ConstrainedEngine :=
  match self.connections.lookup id with
  | none => self
  | some conn =>
    { self with connections := self.connections.erase id, addrToConn := self.addrToConn.erase conn.remoteAddr }

/-- Poll the engine for maintenance; `due` says whether the poll interval has passed. -/
def poll (self : ConstrainedEngine) (due : Bool) (elapsed : ConnectionId → Elapsed) : Responses × ConstrainedEngine :=
  if due then
    let polled := self.connections.keys.foldl (pollConnection elapsed) ⟨self, [], []⟩
    (polled.responses, polled.toRemove.foldl removeClosed polled.engine)
  else ([], self)

end ConstrainedEngine

/-! Two engines of the constrained transport that are joined by a channel, seen from one connection between them. A packet
    may arrive any number of times, or never, and in any order. What the applications did is recorded. -/

open Library

inductive Role where
  | initiator
  | responder
  deriving DecidableEq

namespace Role

def other : Role → Role
  | initiator => responder
  | responder => initiator

/-- The index of the first chunk that an end expects: the initiator starts behind the SYN-ACK, which has number 0 like the
    first chunk of the responder. -/
def first : Role → Nat
  | initiator => 1
  | responder => 0

theorem other_other (r : Role) : r.other.other = r := by cases r <;> rfl

theorem other_ne (r : Role) : r.other ≠ r := by cases r <;> decide

theorem eq_other {r q : Role} (h : q ≠ r) : q = r.other := by
  cases r <;> cases q <;> first | rfl | exact absurd rfl h

theorem first_le (r : Role) : r.first ≤ 1 := by cases r <;> decide

instance {p : Role → Prop} [DecidablePred p] : Decidable (∀ r, p r) :=
  decidable_of_iff (p .initiator ∧ p .responder) ⟨fun h r => by cases r with
    | initiator => exact h.1
    | responder => exact h.2, fun h => ⟨h _, h _⟩⟩

end Role

structure Endpoint where
  conn : ConstrainedConnection
  /-- The engine still has the connection. -/
  live : Bool
  sent : List Bytes
  received : List Bytes
  /-- How many chunks had been accepted when the connection was closed. -/
  finAt : Option Nat
  /-- The end of the connection was reported because of the peer's FIN. -/
  closedReported : Bool

namespace Endpoint

def new (conn : ConstrainedConnection) : Endpoint := ⟨conn, true, [], [], none, false⟩

/-- What the receive window has accepted in order: the payloads returned, and those that wait to be. -/
def accepted (self : Endpoint) : List Bytes := self.received ++ self.conn.inbound

def newChunks (before after : ConstrainedConnection) : List Bytes :=
  (after.sendWindow.unacked.drop before.sendWindow.unacked.length).map (·.data)

end Endpoint

/-- A packet that was sent, and the number of chunks each end had accepted by then. -/
structure Flight where
  packet : ConstrainedPacket
  target : Role
  marks : Role → Nat

structure Link where
  ends : Role → Endpoint
  net : List Flight

namespace Link

inductive Event where
  | send (role : Role) (data : Bytes) (elapsed : Elapsed)
  | recv (role : Role)
  | close (role : Role)
  | reset (role : Role)
  | poll (role : Role) (elapsed : Elapsed)
  /-- The packet at `index` arrives, once more perhaps. -/
  | deliver (index : Nat) (elapsed : Elapsed)

def setEnd (self : Link) (role : Role) (value : Endpoint) : Link :=
  { self with ends := Function.update self.ends role value }

def transmit (self : Link) (role : Role) (packets : List ConstrainedPacket) : Link :=
  { self with net := self.net ++ packets.map fun packet => ⟨packet, role.other, fun r => (self.ends r).sent.length⟩ }

def send (self : Link) (role : Role) (data : Bytes) (elapsed : Elapsed) : Option Link :=
  let value := self.ends role
  (value.conn.sendNow data elapsed).map fun
    | (result, conn) =>
      (self.setEnd role { value with conn, sent := value.sent ++ Endpoint.newChunks value.conn conn }).transmit role
        (match result with
          | .ok packets => packets
          | .error _ => [])

def recv (self : Link) (role : Role) : Link :=
  let value := self.ends role
  self.setEnd role { value with conn := value.conn.recv.2, received := value.received ++ value.conn.recv.1.toList }

def close (self : Link) (role : Role) : Link :=
  let value := self.ends role
  match value.conn.close with
  | .error _ => self
  | .ok (fin, conn) => (self.setEnd role { value with conn, finAt := some value.sent.length }).transmit role [fin]

/-- `ConstrainedEngine::reset`, which forgets the connection. -/
def reset (self : Link) (role : Role) : Link :=
  let value := self.ends role
  (self.setEnd role { value with conn := value.conn.reset.2, live := false }).transmit role [value.conn.reset.1]

/-- `ConstrainedEngine::poll` forgets a connection that is closed or has failed. -/
def poll (self : Link) (role : Role) (elapsed : Elapsed) : Link :=
  let value := self.ends role
  let (packets, conn) := value.conn.poll elapsed
  let ended := conn.events.any ConstrainedEngine.ends || conn.state.isClosed
  (self.setEnd role { value with conn := { conn with events := [] }, live := value.live && !ended }).transmit role packets

def deliver (self : Link) (role : Role) (packet : ConstrainedPacket) (elapsed : Elapsed) : Link :=
  let value := self.ends role
  match value.conn.incoming packet elapsed with
  | (.error _, conn) => self.setEnd role { value with conn }
  | (.ok (events, packets), conn) =>
    (self.setEnd role { value with
      conn, closedReported := value.closedReported || events.contains .closed }).transmit role packets

/-- One call at one of the engines. A connection that its engine has forgotten does nothing any more; `none` is a
    panic. -/
def step (self : Link) : Event → Option Link
  | .send role data elapsed => if (self.ends role).live then self.send role data elapsed else some self
  | .recv role => some (if (self.ends role).live then self.recv role else self)
  | .close role => some (if (self.ends role).live then self.close role else self)
  | .reset role => some (if (self.ends role).live then self.reset role else self)
  | .poll role elapsed => some (if (self.ends role).live then self.poll role elapsed else self)
  | .deliver index elapsed =>
    some (match self.net[index]? with
      | none => self
      | some flight =>
        if (self.ends flight.target).live then self.deliver flight.target flight.packet elapsed else self)

/-- After the exchange of SYN packets: the initiator has sent its SYN, the responder has accepted it and sent its SYN-ACK,
    and both may still arrive. The windows are smaller than 64. -/
inductive Opened : Link → Prop
  | intro {id : ConnectionId} {addrs : Role → SocketAddr} {configs : Role → ConnectionConfig}
    {syn synAck : ConstrainedPacket} {initiator responder : ConstrainedConnection} :
    (∀ r, (configs r).arq.windowSize < 64) →
    (ConstrainedConnection.new id (addrs .responder) (configs .initiator) true).initiate = .ok (syn, initiator) →
    (ConstrainedConnection.new id (addrs .initiator) (configs .responder) false).accept syn.header.seq =
      .ok (synAck, responder) →
    Opened {
      ends := fun
        | .initiator => .new initiator
        | .responder => .new responder
      net := [⟨syn, .responder, fun _ => 0⟩, ⟨synAck, .initiator, fun _ => 0⟩] }

/-- No packet arrives after more than 64 sequence numbers were used since it was sent, in either direction. -/
def Timely (self : Link) : Event → Prop
  | .deliver index _ => ∀ flight ∈ self.net[index]?, ∀ r, (self.ends r).sent.length ≤ flight.marks r + 64
  | _ => True

instance (l : Link) : (event : Event) → Decidable (l.Timely event) := fun event => by
  unfold Timely
  split <;> infer_instance

end Link
end SaorsaTransport.Constrained
