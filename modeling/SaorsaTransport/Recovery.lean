import SaorsaTransport.Path
import SaorsaTransport.Pending

/-! Which packets are outstanding, on which path they count, and what becomes of them: `PacketSpace` of
    `src/connection/spaces.rs`, `PathData` of `src/connection/paths.rs`, and acknowledgements, losses, discarded spaces and
    migrations in `src/connection/mod.rs`. The time after which a packet is lost comes with the event. -/

namespace SaorsaTransport.Recovery
open Library

structure SentPacket where
  timeSent : Nat
  /-- The number of bytes of the packet; zero if it is not counted towards congestion control. -/
  size : Nat
  ackEliciting : Bool
  retransmits : Pending
  streamFrames : List StreamMeta

/-- How the program stops: a path counts less than nothing in flight, or something that must be there is not. -/
inductive Panic where
  | inFlight
  | unwrap
  deriving DecidableEq

def orPanic {α : Type} (panic : Panic) : Option α → Except Panic α
  | some a => .ok a
  | none => .error panic

structure PacketSpace where
  pending : Pending
  nextPacketNumber : Nat
  largestAckedPacket : Option Nat
  largestAckElicitingSent : Nat
  /-- Number of packets in `sentPackets` with numbers above `largestAckElicitingSent`. -/
  unackedNonAckElicitingTail : Nat
  sentPackets : BTreeMap Nat SentPacket
  lossTime : Option Nat
  inFlight : Nat

namespace PacketSpace

def new : PacketSpace := ⟨.empty, 0, none, 0, 0, .empty, none, 0⟩

def take (self : PacketSpace) (number : Nat) : Except Panic (PacketSpace × Option SentPacket) :=
  match self.sentPackets.get number with
  | none => .ok (self, none)
  | some packet =>
    (orPanic .unwrap (checkedSub self.inFlight packet.size)).map fun inFlight =>
      ({ self with
          sentPackets := self.sentPackets.remove number
          inFlight
          unackedNonAckElicitingTail :=
            if !packet.ackEliciting ∧ self.largestAckElicitingSent < number then self.unackedNonAckElicitingTail - 1
            else self.unackedNonAckElicitingTail }, some packet)

def maxUnackedNonAckElicitingTail : Nat := 1000

def forget (self : PacketSpace) : Except Panic (PacketSpace × Nat) :=
  match self.sentPackets.firstGT self.largestAckElicitingSent with
  | none => .error .unwrap
  | some (number, packet) =>
    (orPanic .unwrap (checkedSub self.inFlight packet.size)).map fun inFlight =>
      ({ self with sentPackets := self.sentPackets.remove number, inFlight }, packet.size)

def track (self : PacketSpace) (number : Nat) (packet : SentPacket) : PacketSpace :=
  { self with inFlight := self.inFlight + packet.size, sentPackets := self.sentPackets.insert number packet }

/-- Returns the number of bytes to remove from the connection's in-flight count. -/
def sent (self : PacketSpace) (number : Nat) (packet : SentPacket) : Except Panic (PacketSpace × Nat) :=
  if packet.ackEliciting then
    .ok ({ self with unackedNonAckElicitingTail := 0, largestAckElicitingSent := number }.track number packet, 0)
  else if maxUnackedNonAckElicitingTail < self.unackedNonAckElicitingTail then
    self.forget.map fun (self, forgotten) => (self.track number packet, forgotten)
  else
    .ok ({ self with unackedNonAckElicitingTail := self.unackedNonAckElicitingTail + 1 }.track number packet, 0)

end PacketSpace

/-- Account for transmission of a packet: `PathData::sent`. -/
def sentOnPath (path : PathData) (pn : Nat) (packet : SentPacket) (space : PacketSpace) :
    Except Panic (PathData × PacketSpace) := do
  let inFlight := path.inFlight.insert packet.size packet.ackEliciting
  let (space, forgotten) ← space.sent pn packet
  let bytes ← orPanic .inFlight (checkedSub inFlight.bytes forgotten)
  .ok ({ path with firstPacket := path.firstPacket.or (some pn), inFlight := { inFlight with bytes } }, space)

def precedes (path : PathData) (pn : Nat) : Bool := path.firstPacket.all fun first => pn < first

/-- Remove a packet from the counters of a path: `PathData::remove_in_flight`. -/
def removeFromPath (path : PathData) (packet : SentPacket) : Except Panic PathData :=
  (orPanic .inFlight (path.inFlight.remove packet.size packet.ackEliciting)).map fun inFlight => { path with inFlight }

structure Connection where
  spaces : SpaceId → PacketSpace
  path : PathData
  prevPath : Option PathData
  pathValidation : Bool
  established : Bool
  prevSkippedPacketNumber : Option Nat
  /-- STREAM frames that the streams were asked to send again. -/
  retransmitted : List StreamMeta

namespace Connection

def setSpace (self : Connection) (space : SpaceId) (value : PacketSpace) : Connection :=
  { self with spaces := Function.update self.spaces space value }

def setMtud (self : Connection) (mtud : MtuDiscovery) : Connection := { self with path := { self.path with mtud } }

/-- Account for a packet becoming acknowledged, lost, or abandoned, on the newest path it may have been sent on. -/
def removeInFlight (self : Connection) (pn : Nat) (packet : SentPacket) : Except Panic Connection :=
  if !precedes self.path pn then (removeFromPath self.path packet).map fun path => { self with path }
  else
    match self.prevPath with
    | none => .ok self
    | some prev =>
      if !precedes prev pn then (removeFromPath prev packet).map fun prev => { self with prevPath := some prev }
      else .ok self

/-- The number of the next packet of a space; in the data space one may be skipped. -/
def txNumber (self : Connection) (space : SpaceId) (skip : Bool) : Nat :=
  (self.spaces space).nextPacketNumber + (skip && space = .data).toNat

def allocate (self : Connection) (space : SpaceId) (skip : Bool) : Connection :=
  let skipped := if skip && space = .data then some (self.spaces space).nextPacketNumber else self.prevSkippedPacketNumber
  { self.setSpace space { self.spaces space with nextPacketNumber := self.txNumber space skip + 1 } with
    prevSkippedPacketNumber := skipped }

def finishAndTrack (self : Connection) (space : SpaceId) (skip : Bool) (packet : SentPacket) : Except Panic Connection := do
  let number := self.txNumber space skip
  let self := self.allocate space skip
  let (path, value) ← sentOnPath self.path number packet (self.spaces space)
  .ok { self.setSpace space value with path }

def probes (self : Connection) (now : Nat) (skip : Bool) : Bool :=
  self.established && (self.path.mtud.pollTransmit now (self.txNumber .data skip)).2.isSome

def sendMtuProbe (self : Connection) (now : Nat) (skip : Bool) : Except Panic Connection :=
  if self.established then
    match self.path.mtud.pollTransmit now (self.txNumber .data skip) with
    | (mtud, none) => .ok (self.setMtud mtud)
    | (mtud, some size) => (self.setMtud mtud).finishAndTrack .data skip ⟨now, size, true, .empty, []⟩
  else .ok self

/-- Queue the data of the oldest packet in flight for a tail loss probe. -/
def maybeQueueProbe (self : Connection) (streams : StreamsState) (space : SpaceId) : Connection :=
  let value := self.spaces space
  if !value.pending.isEmpty streams then self
  else
    match value.sentPackets.entries.find? fun entry => !entry.2.retransmits.isEmpty streams with
    | none => self
    | some (number, packet) =>
      self.setSpace space { value with
        pending := value.pending.merge packet.retransmits
        sentPackets := value.sentPackets.insert number { packet with retransmits := .empty } }

def deemedLost (config : PathConfig) (lostSendTime largestAcked : Nat) (entry : Nat × SentPacket) : Bool :=
  entry.2.timeSent ≤ lostSendTime || entry.1 + config.packetThreshold ≤ largestAcked

def losePacket (space : SpaceId) (self : Connection) (pn : Nat) : Except Panic Connection := do
  let (value, info) ← (self.spaces space).take pn
  let info ← orPanic .unwrap info
  let self ← (self.setSpace space value).removeInFlight pn info
  let value := self.spaces space
  let self := self.setSpace space { value with pending := value.pending.merge info.retransmits }
  .ok { self.setMtud (self.path.mtud.onNonProbeLost pn info.size) with
    retransmitted := self.retransmitted ++ info.streamFrames }

def loseProbe (self : Connection) (pn : Nat) : Except Panic Connection := do
  let (value, info) ← (self.spaces .data).take pn
  let info ← orPanic .unwrap info
  let self ← (self.setSpace .data value).removeInFlight pn info
  .ok (self.setMtud self.path.mtud.onProbeLost)

def overdue (self : Connection) (config : PathConfig) (space : SpaceId) (lostSendTime largestAcked : Nat) :
    List (Nat × SentPacket) :=
  (self.spaces space).sentPackets.entries.filter fun entry =>
    entry.1 < largestAcked && deemedLost config lostSendTime largestAcked entry

/-- When the next packet below the largest acknowledged one will be lost. -/
def nextLossTime (self : Connection) (config : PathConfig) (space : SpaceId) (lostSendTime largestAcked lossDelay : Nat) :
    Option Nat :=
  (((self.spaces space).sentPackets.entries.filter fun entry =>
    entry.1 < largestAcked && !deemedLost config lostSendTime largestAcked entry).map
      fun entry => entry.2.timeSent + lossDelay).min?

def detectLostPackets (self : Connection) (config : PathConfig) (space : SpaceId) (now lossDelay : Nat) :
    Except Panic Connection := do
  let inFlightMtuProbe := self.path.mtud.inFlightMtuProbe
  let lostSendTime ← orPanic .unwrap (checkedSub now lossDelay)
  let largestAcked ← orPanic .unwrap (self.spaces space).largestAckedPacket
  let overdue := (self.overdue config space lostSendTime largestAcked).map Prod.fst
  let lossTime := self.nextLossTime config space lostSendTime largestAcked lossDelay
  -- Lost MTU probes should not trigger a congestion control response.
  let lostPackets := overdue.filter fun pn => some pn != inFlightMtuProbe
  let lostMtuProbe := overdue.find? fun pn => some pn == inFlightMtuProbe
  let self := self.setSpace space { self.spaces space with lossTime }
  let self ← forEach (losePacket space) self lostPackets
  let self := if lostPackets.isEmpty then self else self.setMtud (self.path.mtud.blackHoleDetected now)
  match lostMtuProbe with
  | some pn => self.loseProbe pn
  | none => .ok self

def lossTimeAndSpace (self : Connection) : Option (Nat × SpaceId) :=
  ([SpaceId.initial, .handshake, .data].filterMap fun space =>
    (self.spaces space).lossTime.map fun time => (time, space)).foldl (fun best x =>
      match best with
      | none => some x
      | some b => if x.1 < b.1 then some x else some b) none

/-- The loss detection timer: time threshold loss detection in the space whose packets are due first. -/
def onLossDetectionTimeout (self : Connection) (config : PathConfig) (now lossDelay : Nat) : Except Panic Connection :=
  match self.lossTimeAndSpace with
  | some (_, space) => self.detectLostPackets config space now lossDelay
  | none => .ok self

structure Ack where
  largest : Nat
  ranges : List (Nat × Nat)
  deriving DecidableEq

def Ack.covers (ack : Ack) (pn : Nat) : Bool := ack.ranges.any fun range => range.1 ≤ pn && pn ≤ range.2

def recordLargest (self : Connection) (space : SpaceId) (largest : Nat) : Connection :=
  let value := self.spaces space
  if value.largestAckedPacket.all fun pn => pn < largest then
    self.setSpace space { value with largestAckedPacket := some largest }
  else self

/-- Whether a number that was skipped on purpose is acknowledged: `PacketNumberFilter::check_ack`. -/
def acksSkipped (self : Connection) (space : SpaceId) (ack : Ack) : Bool :=
  space = .data && self.prevSkippedPacketNumber.any ack.covers

def newlyAcked (self : Connection) (space : SpaceId) (ack : Ack) : List Nat :=
  ((self.spaces space).sentPackets.entries.filter fun entry => ack.covers entry.1).map Prod.fst

def ackPacket (space : SpaceId) (self : Connection) (pn : Nat) : Except Panic Connection := do
  let (value, info) ← (self.spaces space).take pn
  let self := self.setSpace space value
  match info with
  | none => .ok self
  | some info =>
    (self.setMtud (self.path.mtud.onAcked space pn info.size)).removeInFlight pn info

def onAckReceived (self : Connection) (config : PathConfig) (space : SpaceId) (ack : Ack) (now lossDelay : Nat) :
    Except Panic (Connection × Option TransportError) :=
  if (self.spaces space).nextPacketNumber ≤ ack.largest then
    .ok (self, some ⟨.protocolViolation, "unsent packet acked"⟩)
  else
    let self := self.recordLargest space ack.largest
    if self.acksSkipped space ack then .ok (self, some ⟨.protocolViolation, "unsent packet acked"⟩)
    else
      let newlyAcked := self.newlyAcked space ack
      if newlyAcked.isEmpty then .ok (self, none)
      else do
        let self ← forEach (ackPacket space) self newlyAcked
        let self ← self.detectLostPackets config space now lossDelay
        .ok (self, none)

def abandon (self : Connection) (entry : Nat × SentPacket) : Except Panic Connection := self.removeInFlight entry.1 entry.2

def discardSpace (self : Connection) (space : SpaceId) : Except Panic Connection :=
  let value := self.spaces space
  forEach abandon (self.setSpace space { value with lossTime := none, inFlight := 0, sentPackets := .empty })
    value.sentPackets.entries

def requeue (self : Connection) (entry : Nat × SentPacket) : Except Panic Connection := do
  let self ← self.removeInFlight entry.1 entry.2
  let value := self.spaces .data
  .ok (self.setSpace .data { value with pending := value.pending.merge entry.2.retransmits })

def inferAck (self : Connection) (space : SpaceId) (pn : Nat) : Except Panic Connection := do
  let (value, info) ← (self.spaces space).take pn
  match info with
  | none => .ok (self.setSpace space value)
  | some info => (self.setSpace space value).removeInFlight pn info

def restartInitial (self : Connection) (clientHello : Bytes) : Connection :=
  self.setSpace .initial { PacketSpace.new with
    nextPacketNumber := (self.spaces .initial).nextPacketNumber
    pending := { Pending.empty with crypto := [⟨0, clientHello⟩] } }

def requeueZeroRtt (self : Connection) : Except Panic Connection :=
  forEach requeue (self.setSpace .data { self.spaces .data with sentPackets := .empty }) (self.spaces .data).sentPackets.entries

/-- A client follows a Retry packet: it starts over with Initial packets and sends 0-RTT data again. -/
def onRetry (self : Connection) (clientHello : Bytes) : Except Panic Connection := do
  let self ← self.inferAck .initial 0
  -- Make sure we clean up after any retransmitted Initials.
  let self ← self.discardSpace .initial
  (self.restartInitial clientHello).requeueZeroRtt

def rejectZeroRtt (self : Connection) : Except Panic Connection :=
  let sentPackets := (self.spaces .data).sentPackets.entries
  forEach abandon (self.setSpace .data { self.spaces .data with pending := .empty, sentPackets := .empty }) sentPackets

/-- The peer moved to another address. The tokens are random. -/
def migrate (self : Connection) (config : PathConfig) (allowMtud : Bool) (peerMaxUdpPayloadSize : Nat)
    (remote : SocketAddr) (token prevToken : Nat) : Connection :=
  let newPath := if remote.ipv4 ∧ remote.ip = self.path.remote.ip then PathData.fromPrevious remote self.path
    else PathData.new remote allowMtud (some peerMaxUdpPayloadSize) config
  let newPath := { newPath with challenge := some token, challengePending := true }
  { self with
    path := newPath
    -- Don't clobber the original path if the previous one hasn't been validated yet.
    prevPath := if self.path.challenge.isNone then
        some { self.path with challenge := some prevToken, challengePending := true }
      else self.prevPath
    pathValidation := true }

def onPathResponse (self : Connection) (token : Nat) (remote : SocketAddr) : Connection :=
  if self.path.challenge = some token ∧ remote = self.path.remote then
    { self with
      pathValidation := false
      path := { self.path with challenge := none, validated := true }
      prevPath := self.prevPath.map fun prev => { prev with challenge := none, challengePending := false } }
  else self

def onPathValidationTimeout (self : Connection) : Connection :=
  if self.pathValidation then
    let self := match self.prevPath with
      | some prev => { self with path := prev, prevPath := none }
      | none => self
    { self with pathValidation := false, path := { self.path with challenge := none, challengePending := false } }
  else self

end Connection

inductive Event where
  /-- A packet is sent; in the data space a packet number may be skipped before it. -/
  | send (space : SpaceId) (skip : Bool) (packet : SentPacket)
  | sendUntracked (skip : Bool)
  | mtuProbe (now : Nat) (skip : Bool)
  | queueProbe (streams : StreamsState) (space : SpaceId)
  | ack (space : SpaceId) (ack : Connection.Ack) (now lossDelay : Nat)
  | lossDetection (now lossDelay : Nat)
  | discardSpace (space : SpaceId)
  | retry (clientHello : Bytes)
  | rejectZeroRtt
  | establish
  | migrate (allowMtud : Bool) (peerMaxUdpPayloadSize : Nat) (remote : SocketAddr) (token prevToken : Nat)
  | pathResponse (token : Nat) (remote : SocketAddr)
  | pathValidation
  | pathChanged

/-- One event. Those that are out of place have no effect: the data space is never discarded, and a Retry packet or the
    verdict on 0-RTT data come before the handshake is complete. -/
def Connection.step (config : PathConfig) (self : Connection) : Event → Except Panic Connection
  | .send space skip packet => self.finishAndTrack space skip packet
  | .sendUntracked skip => .ok (self.allocate .data skip)
  | .mtuProbe now skip => self.sendMtuProbe now skip
  | .queueProbe streams space => .ok (self.maybeQueueProbe streams space)
  | .ack space ack now lossDelay => (self.onAckReceived config space ack now lossDelay).map Prod.fst
  | .lossDetection now lossDelay => self.onLossDetectionTimeout config now lossDelay
  | .discardSpace space => if space = .data then .ok self else self.discardSpace space
  | .retry clientHello => if self.established then .ok self else self.onRetry clientHello
  | .rejectZeroRtt => if self.established then .ok self else self.rejectZeroRtt
  | .establish => .ok { self with established := true }
  | .migrate allowMtud peerMaxUdpPayloadSize remote token prevToken =>
    .ok (self.migrate config allowMtud peerMaxUdpPayloadSize remote token prevToken)
  | .pathResponse token remote => .ok (self.onPathResponse token remote)
  | .pathValidation => .ok self.onPathValidationTimeout
  | .pathChanged => .ok { self with path := self.path.reset config }

def Connection.new (remote : SocketAddr) (allowMtud : Bool) (config : PathConfig) : Connection where
  spaces := fun _ => .new
  path := .new remote allowMtud none config
  prevPath := none
  pathValidation := false
  established := false
  prevSkippedPacketNumber := none
  retransmitted := []

end SaorsaTransport.Recovery
