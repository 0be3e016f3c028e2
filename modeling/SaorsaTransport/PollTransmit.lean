import SaorsaTransport.NatTraversal
import SaorsaTransport.Path

/-! How a connection turns what it has to send into datagrams: `poll_transmit` of `src/connection/mod.rs`, with
    `src/connection/packet_builder.rs` and the path responses of `src/connection/paths.rs`. -/

namespace SaorsaTransport
open Library

structure PathResponse where
  packet : Nat
  token : Nat
  remote : SocketAddr
  deriving DecidableEq

structure PathResponses where
  pending : List PathResponse
  deriving DecidableEq

namespace PathResponses

def maxPathResponses : Nat := 16

def push (self : PathResponses) (packet token : Nat) (remote : SocketAddr) : PathResponses :=
  let response : PathResponse := ⟨packet, token, remote⟩
  match self.pending.find? fun existing => existing.remote = remote with
  | some existing =>
    if existing.packet ≤ packet then
      ⟨self.pending.map fun queued => if queued.remote = remote then response else queued⟩
    else self
  | none => if self.pending.length < maxPathResponses then ⟨self.pending ++ [response]⟩ else self

def popOffPath (self : PathResponses) (remote : SocketAddr) : Option (PathResponse × PathResponses) :=
  (self.pending.getLast?.filter fun response => response.remote ≠ remote).map fun response =>
    (response, ⟨self.pending.dropLast⟩)

def popOnPath (self : PathResponses) (remote : SocketAddr) : Option (PathResponse × PathResponses) :=
  (self.pending.getLast?.filter fun response => response.remote = remote).map fun response =>
    (response, ⟨self.pending.dropLast⟩)

end PathResponses

inductive FrameType where
  | handshakeDone
  | ping
  | immediateAck
  | ack
  | ackFrequency
  | pathChallenge
  | pathResponse
  | crypto
  | streamControl
  | newConnectionId
  | retireConnectionId
  | datagram
  | newToken
  | addAddress
  | punchMeNow
  | removeAddress
  | observedAddress
  | stream
  | connectionClose
  deriving DecidableEq

/-- What is handed out to be sent, with what is in the buffer: the lengths of the datagrams, and the frames of the
    packets other than padding. -/
structure Transmit where
  destination : SocketAddr
  size : Nat
  segmentSize : Option Nat
  datagrams : List Nat
  packets : List (List FrameType)
  deriving DecidableEq

structure PacketBuilder where
  datagramStart : Nat
  minSize : Nat
  maxSize : Nat
  tagLen : Nat
  shortHeader : Bool
  deriving DecidableEq

namespace PacketBuilder

def padTo (self : PacketBuilder) (size : Nat) : PacketBuilder :=
  { self with minSize := max self.minSize (self.datagramStart + size - self.tagLen) }

/-- The end of the packet once it is padded and sealed, given the end of its frames. -/
def finish (self : PacketBuilder) (bufLen : Nat) : Nat := max bufLen self.minSize + self.tagLen

end PacketBuilder

/-- How far the packets sealed so far are from the confidentiality limit. -/
inductive SealLimit where
  | below
  | last
  | exceeded
  deriving DecidableEq

structure Opening where
  limit : SealLimit
  encodes : Bool
  tagLen : Nat
  headerLen : Nat
  samplePadding : Nat
  dstCidLen : Nat
  deriving DecidableEq

def initialMtu : Nat := 1200

/-- Minimal remaining size to allow packet coalescing, excluding the tag. -/
def minPacketSpace : Nat := (1 + 4 + 1 + 20 + 1 + 20 + 4 + 4) + 32

/-- `frame::ConnectionClose::SIZE_BOUND`. -/
def connectionCloseSizeBound : Nat := 25

def pathFrameLen : Nat := 9

namespace Transmission

structure Connection where
  side : Side
  migration : Bool
  state : State
  close : Bool
  hasKeys : SpaceId → Bool
  hasZeroRttKeys : Bool
  highestSpace : SpaceId
  path : PathData
  prevPath : Option PathData
  pathValidation : Bool
  pathResponses : PathResponses
  natTraversal : Option NatTraversalState
  pendingAcks : SpaceId → Bool

/-- The local variables of `poll_transmit`, with the lengths of the datagrams before the current one and the frames of
    the packets so far. -/
structure Batch where
  spaces : List SpaceId
  numDatagrams : Nat
  datagramStart : Nat
  segmentSize : Nat
  bufLen : Nat
  bufCapacity : Nat
  coalesce : Bool
  padDatagram : Bool
  padDatagramToMtu : Bool
  builder : Option PacketBuilder
  datagrams : List Nat
  packets : List (List FrameType)

/-- What the rest of the connection says in one turn of the loop. -/
structure Turn where
  canSend : Bool
  ackEliciting : Bool
  lossProbe : Bool
  congested : Bool
  paced : Bool
  /-- There is still something to send if the segments are as short as the first datagram. -/
  canSendSegment : Bool
  minInitialSize : Nat
  opening : Opening
  adjustCoalescing : Bool
  acksLen : Nat
  acksEncode : Bool
  closeLen : Nat
  closeEncodes : Bool
  /-- There is room for a PATH_CHALLENGE, and after it for a PATH_RESPONSE. -/
  challengeRoom : Bool
  responseRoom : Bool
  frames : List FrameType
  framesLen : Nat
  framesEncode : Bool

structure NatTurn where
  /-- The round has timed out: whether the network is fit for another try, and when that would begin. -/
  timeout : Option (Bool × Nat)
  expired : List SocketAddr
  transmissionTime : Nat
  preferred : Nat
  token : Nat
  punchOpening : Opening
  challengeOpening : Opening
  minInitialSize : Nat

structure Supply where
  now : Nat
  maxDatagrams : Nat
  padToMtu : Bool
  nat : NatTurn
  prevOpening : Opening
  prevMinInitialSize : Nat
  turns : List Turn
  /-- The least size of an Initial packet when the last packet is finished. -/
  minInitialSize : Nat
  /-- The number of an MTU probe, and whether the peer knows IMMEDIATE_ACK. -/
  probeNumber : Nat
  probeOpening : Opening
  immediateAck : Bool

namespace Connection

def closeInner (self : Connection) (reason : Close) : Connection :=
  if self.state.isClosed then self
  else { self with close := true, state := .closed reason, pathValidation := false }

def kill (self : Connection) : Connection := { self with state := .drained, pathValidation := false }

def handleEncodeError (self : Connection) : Connection :=
  self.closeInner (.connection ⟨.other 1, "varint overflow during encoding"⟩)

/-- Begin a packet; it fails if the keys are worn out or the header cannot be encoded, and panics without keys. -/
def newPacket (self : Connection) (space : SpaceId) (opening : Opening) (bufLen bufCapacity datagramStart : Nat) :
    Option (Connection × Option PacketBuilder) :=
  if !self.hasKeys space && !(space = .data && self.hasZeroRttKeys) then none
  else if space ≠ .data ∧ opening.limit = .exceeded then some (self.kill, none)
  else
    let self := if space ≠ .data ∧ opening.limit = .last then
        self.closeInner (.connection ⟨.aeadLimitReached, "confidentiality limit reached"⟩)
      else self
    if !opening.encodes then some (self.handleEncodeError, none)
    else some (self, some {
      datagramStart
      minSize := max (bufLen + opening.headerLen + opening.samplePadding) (bufLen + opening.dstCidLen + 6)
      maxSize := bufCapacity - opening.tagLen
      tagLen := opening.tagLen
      shortHeader := space = .data && self.hasKeys .data })

def accountUdpTransmit (self : Connection) (bytes : Nat) : Connection :=
  { self with path := { self.path with totalSent := self.path.totalSent + bytes } }

def sendChallenge (self : Connection) (opening : Opening) (minSize : Nat) (destination : SocketAddr) :
    Option (Connection × Option Transmit) := do
  let (self, builder) ← self.newPacket .data opening 0 minSize 0
  match builder with
  | none => some (self, none)
  | some builder =>
    let size := (builder.padTo minSize).finish (opening.headerLen + pathFrameLen)
    some (self.accountUdpTransmit size, some ⟨destination, size, none, [size], [[.pathChallenge]]⟩)

def unlessSent (sent : Option (Connection × Option Transmit))
    (next : Connection → Option (Connection × Option Transmit)) : Option (Connection × Option Transmit) :=
  sent.bind fun
    | (self, some transmit) => some (self, some transmit)
    | (self, none) => next self

theorem unlessSent_eq_some {sent : Option (Connection × Option Transmit)}
    {next : Connection → Option (Connection × Option Transmit)} {c : Connection} {transmit : Option Transmit}
    (h : unlessSent sent next = some (c, transmit)) :
    (∃ t, transmit = some t ∧ sent = some (c, some t)) ∨
      ∃ middle, sent = some (middle, none) ∧ next middle = some (c, transmit) := by
  obtain ⟨⟨middle, t | t⟩, hsent, hnext⟩ := Option.bind_eq_some_iff.mp h
  · exact .inr ⟨middle, hsent, hnext⟩
  · cases hnext
    exact .inl ⟨t, rfl, hsent⟩

def checkNatTimeouts (self : Connection) (now : Nat) (turn : NatTurn) : Connection :=
  { self with natTraversal := self.natTraversal.map fun nat =>
      (turn.timeout.elim nat fun (suitable, punchStart) =>
        nat.handleCoordinationFailure now suitable punchStart).checkValidationTimeouts turn.expired }

/-- The requests themselves are only queued. -/
def sendCoordinationRequest (self : Connection) : Connection :=
  { self with natTraversal := self.natTraversal.map fun nat =>
      if nat.shouldSendPunchRequest && nat.coordination.any fun coord => coord.punchTargets ≠ [] then
        nat.markPunchRequestSent
      else nat }

/-- Send a PATH_CHALLENGE to the first target of the round, once its time has come. -/
def sendCoordinatedPathChallenge (self : Connection) (now : Nat) (turn : NatTurn) :
    Option (Connection × Option Transmit) :=
  match self.natTraversal with
  | none => some (self, none)
  | some nat =>
    let nat := if nat.shouldStartPunching now then nat.startPunchingPhase turn.transmissionTime now else nat
    let self := { self with natTraversal := some nat }
    match nat.punchTarget with
    | none => some (self, none)
    | some target => do
      let (self, transmit) ← self.sendChallenge turn.punchOpening (min turn.minInitialSize self.path.currentMtu) target
      if transmit.isNone then some (self, none)
      else some ({ self with natTraversal := some nat.markCoordinationValidating }, transmit)

def sendCandidateChallenge (self : Connection) (now : Nat) (turn : NatTurn) : Option (Connection × Option Transmit) :=
  match self.natTraversal with
  | none => some (self, none)
  | some nat => match nat.validationCandidate turn.preferred with
    | none => some (self, none)
    | some (sequence, candidate) => match nat.startValidation sequence turn.token now with
      | .error _ => some (self, none)
      | .ok nat =>
        { self with natTraversal := some nat }.sendChallenge turn.challengeOpening
          (min turn.minInitialSize self.path.currentMtu) candidate.address

def sendNatTraversalChallenge (self : Connection) (now : Nat) (turn : NatTurn) :
    Option (Connection × Option Transmit) :=
  unlessSent (self.sendCoordinationRequest.sendCoordinatedPathChallenge now turn) fun self =>
    self.sendCandidateChallenge now turn

def sendPathChallenge (self : Connection) (opening : Opening) (minInitialSize : Nat) :
    Option (Connection × Option Transmit) :=
  match self.prevPath with
  | none => some (self, none)
  | some prev =>
    if !prev.challengePending then some (self, none)
    -- The challenge is pending, so there must be a token.
    else if prev.challenge.isNone then none
    else { self with prevPath := some { prev with challengePending := false } }.sendChallenge opening
      (min minInitialSize prev.currentMtu) prev.remote

inductive Flow where
  | next (self : Connection) (batch : Batch)
  | stop (self : Connection) (batch : Batch)
  | done (self : Connection) (transmit : Option Transmit)
  | panic

/-- Whether there is room for one more datagram: the loop goes to the next space, or ends, if there is none. -/
inductive Allocation where
  | ready (batch : Batch)
  | skip (batch : Batch)
  | stop (batch : Batch)

end Connection

namespace Batch

def start (segmentSize : Nat) : Batch where
  spaces := [.initial, .handshake, .data]
  numDatagrams := 0
  datagramStart := 0
  segmentSize := segmentSize
  bufLen := 0
  bufCapacity := 0
  coalesce := true
  padDatagram := false
  padDatagramToMtu := false
  builder := none
  datagrams := []
  packets := []

def bufEnd (self : Batch) : Nat := self.builder.elim self.bufLen fun builder => builder.finish self.bufLen

def finishPacket (self : Batch) : Batch := { self with bufLen := self.bufEnd, builder := none }

def lengths (self : Batch) : List Nat :=
  if self.numDatagrams = 0 then [] else self.datagrams ++ [self.bufLen - self.datagramStart]

/-- Loss probes are at most as large as the minimum MTU. -/
def allocate (self : Batch) (lossProbe : Bool) : Batch :=
  { self with
    bufCapacity := self.bufCapacity + if lossProbe then min self.segmentSize initialMtu else self.segmentSize
    numDatagrams := self.numDatagrams + 1
    coalesce := true
    padDatagram := false
    datagramStart := self.bufLen
    datagrams := self.lengths }

def beginPacket (self : Batch) (space : SpaceId) (side : Side) (turn : Turn) (builder : PacketBuilder) : Batch :=
  { self with
    builder := some builder
    bufLen := self.bufLen + turn.opening.headerLen
    coalesce := self.coalesce && !builder.shortHeader && !turn.adjustCoalescing
    padDatagram := self.padDatagram || (space = .initial && (side = .client || turn.ackEliciting)) }

def write (self : Batch) (len : Nat) (frames : List FrameType) : Batch :=
  { self with bufLen := self.bufLen + len, packets := self.packets ++ [frames] }

def padded (self : Batch) (minInitialSize mtu : Nat) (builder : PacketBuilder) : PacketBuilder :=
  if self.padDatagram then builder.padTo (min minInitialSize mtu) else builder

/-- Whether datagrams are padded to the MTU is known with the first packet of the data space. -/
def padsToMtu (self : Batch) (space : SpaceId) (padToMtu : Bool) : Batch :=
  { self with padDatagramToMtu := self.padDatagramToMtu || (space = .data && padToMtu) }

def fillsSegment (self : Batch) : Bool := decide (1 < self.numDatagrams) || self.padDatagramToMtu

/-- A datagram that would need too much padding to continue the batch, or a loss probe, ends it. -/
def truncates (self : Batch) (builder : PacketBuilder) : Bool :=
  (builder.finish self.bufLen - self.datagramStart + 16 < self.segmentSize && !self.padDatagramToMtu) ||
    decide (self.bufCapacity < self.datagramStart + self.segmentSize)

def setSegment (self : Batch) : Batch :=
  if self.numDatagrams = 1 then { self with segmentSize := self.bufLen, bufCapacity := self.bufLen } else self

/-- Finish the current datagram; with `false` the batch ends with it instead. -/
def endDatagram (self : Batch) (minInitialSize mtu : Nat) : Batch × Bool :=
  match self.builder.map (self.padded minInitialSize mtu) with
  | none => (self, true)
  | some builder =>
    if self.fillsSegment && self.truncates builder then ({ self with builder := some builder }, false)
    else
      let builder := if self.fillsSegment then builder.padTo self.segmentSize else builder
      ({ self with builder := some builder }.finishPacket.setSegment, true)

end Batch

namespace Connection

def nextDatagram (self : Connection) (maxDatagrams : Nat) (space : SpaceId) (turn : Turn) (batch : Batch) :
    Allocation :=
  if maxDatagrams ≤ batch.numDatagrams then .stop batch
  -- The datagrams of this batch are not part of `totalSent` yet. If any budget is left, a full datagram may be sent.
  else if self.path.antiAmplificationBlocked (batch.segmentSize * batch.numDatagrams + 1) then .stop batch
  else if turn.ackEliciting && !turn.lossProbe && turn.congested then .skip batch
  else if turn.ackEliciting && !turn.lossProbe && turn.paced then .stop batch
  else
    let ended := batch.endDatagram turn.minInitialSize self.path.currentMtu
    -- What was to be sent may not fit into segments as short as the first datagram.
    if !ended.2 || (batch.numDatagrams = 1 && space = .data && !turn.canSendSegment) then .stop ended.1
    else .ready (ended.1.allocate turn.lossProbe)

def acksLen (self : Connection) (space : SpaceId) (turn : Turn) : Nat := if self.pendingAcks space then turn.acksLen else 0

def closeFits (self : Connection) (space : SpaceId) (turn : Turn) (builder : PacketBuilder) (batch : Batch) : Bool :=
  batch.bufLen + self.acksLen space turn + connectionCloseSizeBound < builder.maxSize

def closeFrames (acks fits : Bool) : List FrameType :=
  (if acks then [.ack] else []) ++ if fits then [.connectionClose] else []

def writeClose (self : Connection) (space : SpaceId) (later : List SpaceId) (turn : Turn) (builder : PacketBuilder)
    (batch : Batch) : Flow :=
  let fits := self.closeFits space turn builder batch
  if self.pendingAcks space && !turn.acksEncode then .done self.handleEncodeError none
  else if fits && !turn.closeEncodes then .done self.handleEncodeError none
  else
    let batch := batch.write (self.acksLen space turn + if fits then turn.closeLen else 0)
      (closeFrames (self.pendingAcks space) fits)
    -- The close frame goes out in every space up to the highest.
    if space = self.highestSpace then .stop { self with close := false } batch
    else .next self { batch with spaces := later }

/-- The frames of a packet, with whether the datagram needs to be padded for them. -/
def populatePacket (self : Connection) (space : SpaceId) (turn : Turn) : Connection × List FrameType × Bool :=
  let challenge := space = .data && turn.challengeRoom && self.path.challenge.isSome
  let self := if challenge then { self with path := { self.path with challengePending := false } } else self
  let response := if space = .data && turn.responseRoom then self.pathResponses.popOnPath self.path.remote else none
  let self := response.elim self fun popped => { self with pathResponses := popped.2 }
  let self := if turn.framesEncode then self else self.handleEncodeError
  (self, (if challenge then [.pathChallenge] else []) ++ (if response.isSome then [.pathResponse] else []) ++ turn.frames,
    challenge || response.isSome)

/-- Fill a packet that was begun. An answer to a challenge from another address goes out at once, alone. -/
def fillPacket (self : Connection) (space : SpaceId) (turn : Turn) (builder : PacketBuilder) (batch : Batch) : Flow :=
  let response := if space = .data ∧ batch.numDatagrams = 1 then self.pathResponses.popOffPath self.path.remote else none
  match response with
  | some (response, pathResponses) =>
    let size := (builder.padTo (min turn.minInitialSize self.path.currentMtu)).finish (batch.bufLen + pathFrameLen)
    .done ({ self with pathResponses }.accountUdpTransmit size)
      (some ⟨response.remote, size, none, [size], batch.packets ++ [[.pathResponse]]⟩)
  | none =>
    let (self, frames, padding) := self.populatePacket space turn
    .next self { batch.write turn.framesLen frames with padDatagram := batch.padDatagram || padding }

/-- A client stops using Initial packets when it sends its first Handshake packet. -/
def stopInitial (self : Connection) (space : SpaceId) : Connection :=
  if space = .handshake ∧ self.side = .client then
    { self with hasKeys := Function.update self.hasKeys .initial false }
  else self

def buildPacket (self : Connection) (close : Bool) (space : SpaceId) (later : List SpaceId) (turn : Turn)
    (batch : Batch) : Flow :=
  match (self.stopInitial space).newPacket space turn.opening batch.bufLen batch.bufCapacity batch.datagramStart with
  | none => .panic
  | some (self, none) => .done self none
  | some (self, some builder) =>
    let batch := batch.beginPacket space self.side turn builder
    if close then self.writeClose space later turn builder batch else self.fillPacket space turn builder batch

def turn (self : Connection) (supply : Supply) (close : Bool) (turn : Turn) (batch : Batch) : Flow :=
  match batch.spaces with
  | [] => .stop self batch
  | space :: later =>
    let canSend := (self.hasKeys space || (space = .data && self.hasZeroRttKeys && self.side = .client)) && turn.canSend
    if !canSend && (!close || !self.hasKeys space) then .next self { batch with spaces := later }
    else
      let batch := batch.padsToMtu space supply.padToMtu
      if !batch.coalesce || batch.bufCapacity - batch.bufEnd < minPacketSpace + turn.opening.tagLen then
        match self.nextDatagram supply.maxDatagrams space turn batch with
        | .stop batch => .stop self batch
        | .skip batch => .next self { batch with spaces := later }
        | .ready batch => self.buildPacket close space later turn batch
      else self.buildPacket close space later turn batch.finishPacket

def loop (supply : Supply) (close : Bool) : Connection → Batch → List Turn → Flow
  | self, batch, [] => .stop self batch
  | self, batch, turn :: turns => match self.turn supply close turn batch with
    | .next self batch => loop supply close self batch turns
    | .stop self batch => .stop self batch
    | .done self transmit => .done self transmit
    | .panic => .panic

def finishLast (self : Connection) (supply : Supply) (batch : Batch) : Batch :=
  match batch.builder with
  | none => batch
  | some builder =>
    let builder := batch.padded supply.minInitialSize self.path.currentMtu builder
    let builder := if batch.padDatagramToMtu ∧ batch.datagramStart + batch.segmentSize ≤ batch.bufCapacity then
        builder.padTo batch.segmentSize
      else builder
    { batch with builder := some builder }.finishPacket

/-- MTU probes are ping packets padded up to the probe size. -/
def sendMtuProbe (self : Connection) (supply : Supply) : Option (Connection × Option Transmit) :=
  match self.path.mtud.pollTransmit supply.now supply.probeNumber with
  | (mtud, none) => some ({ self with path := { self.path with mtud } }, none)
  | (mtud, some probeSize) => do
    let (self, builder) ← { self with path := { self.path with mtud } }.newPacket .data supply.probeOpening 0 probeSize 0
    match builder with
    | none => some (self, none)
    | some builder =>
      let size := (builder.padTo probeSize).finish
        (supply.probeOpening.headerLen + 1 + if supply.immediateAck then 2 else 0)
      some (self.accountUdpTransmit size, some ⟨self.path.remote, size, none, [size],
        [.ping :: if supply.immediateAck then [.immediateAck] else []]⟩)

/-- After the loop: send what was written, or a probe if nothing was. -/
def handOut (self : Connection) (supply : Supply) (batch : Batch) : Option (Connection × Option Transmit) :=
  let batch := self.finishLast supply batch
  if batch.bufLen = 0 then if self.state.isEstablished then self.sendMtuProbe supply else some (self, none)
  else some (self.accountUdpTransmit batch.bufLen, some ⟨self.path.remote, batch.bufLen,
    if batch.numDatagrams = 1 then none else some batch.segmentSize, batch.lengths, batch.packets⟩)

/-- Whether a close message is to be sent; no answer if nothing is to be sent at all. -/
def closing (self : Connection) : Option Bool :=
  match self.state with
  | .drained => none
  | .draining | .closed _ => if self.close then some true else none
  | _ => some false

/-- The part that looks at the state of the connection. -/
def sendSpaces (self : Connection) (supply : Supply) : Option (Connection × Option Transmit) :=
  match self.closing with
  | none => some (self, none)
  | some close => match loop supply close self (.start self.path.currentMtu) supply.turns with
    | .next self batch | .stop self batch => self.handOut supply batch
    | .done self transmit => some (self, transmit)
    | .panic => none

/-- The next datagrams to be sent, if any; without a result the program stops. -/
def pollTransmit (self : Connection) (supply : Supply) : Option (Connection × Option Transmit) :=
  if supply.maxDatagrams = 0 then none
  else
    unlessSent ((self.checkNatTimeouts supply.now supply.nat).sendNatTraversalChallenge supply.now supply.nat) fun self =>
      unlessSent (self.sendPathChallenge supply.prevOpening supply.prevMinInitialSize) fun self =>
        self.sendSpaces supply

end Connection
end Transmission
end SaorsaTransport
