import Mathlib.Algebra.Order.Ring.Unbundled.Rat
import SaorsaTransport.Pending

/-! Observed addresses: what a connection tells its peer about its address and learns about its own, after
    `AddressDiscoveryState` in `src/connection/mod.rs`, on one path with address discovery negotiated. The tokens that the
    rate limiter gains by the time of a check are an argument. -/

namespace SaorsaTransport

structure PathAddressInfo where
  observedAddress : Option SocketAddr
  notified : Bool
  deriving DecidableEq

structure AddressDiscoveryState where
  tokens : ℚ
  maxTokens : ℚ
  sentObservation : Option PathAddressInfo
  receivedObservation : Option PathAddressInfo
  nextSequenceNumber : Nat
  lastReceivedSequence : Option Nat

/-- An IPv4 address that is mapped into IPv6 is taken as what it is. -/
def normalizeSocketAddr (addr : SocketAddr) : SocketAddr :=
  if addr.ipv4 = false ∧ addr.ip / 2 ^ 32 = 65535 then ⟨true, addr.ip % 2 ^ 32, addr.port⟩ else addr

namespace AddressDiscoveryState

/-- Ten observations a second. -/
def new : AddressDiscoveryState := ⟨10, 10, none, none, 0, none⟩

def available (self : AddressDiscoveryState) (gain : ℚ) : ℚ := min (self.tokens + gain) self.maxTokens

def tryConsume (self : AddressDiscoveryState) (gain : ℚ) : AddressDiscoveryState × Bool :=
  if 1 ≤ self.available gain then ({ self with tokens := self.available gain - 1 }, true)
  else ({ self with tokens := self.available gain }, false)

def shouldSendObservation (self : AddressDiscoveryState) (gain : ℚ) : AddressDiscoveryState × Bool :=
  if self.sentObservation.all fun info => info.observedAddress.isNone || !info.notified then self.tryConsume gain
  else (self, false)

def number (self : AddressDiscoveryState) (address : SocketAddr) : AddressDiscoveryState × ObservedAddress :=
  ({ self with nextSequenceNumber := self.nextSequenceNumber + 1 }, ⟨self.nextSequenceNumber, address⟩)

def queueObservedAddressFrame (self : AddressDiscoveryState) (address : SocketAddr) :
    AddressDiscoveryState × Option ObservedAddress :=
  if self.sentObservation.any (·.notified) then (self, none)
  else if self.tokens < 1 then (self, none)
  else
    let (self, frame) := { self with
      tokens := self.tokens - 1
      sentObservation := some ⟨some address, true⟩ }.number address
    (self, some frame)

def handleObservedAddress (self : AddressDiscoveryState) (address : SocketAddr) : AddressDiscoveryState :=
  { self with receivedObservation := some (match self.receivedObservation with
      | some info => if info.observedAddress = some address then info else ⟨some address, false⟩
      | none => ⟨some address, false⟩) }

def handleObservedAddressFrame (self : AddressDiscoveryState) (frame : ObservedAddress) : AddressDiscoveryState :=
  if self.lastReceivedSequence.any fun last => frame.sequenceNumber ≤ last then self
  else { self with lastReceivedSequence := some frame.sequenceNumber }.handleObservedAddress
    (normalizeSocketAddr frame.address)

end AddressDiscoveryState

/-- A connection and its peer at an address, with the frames that wait, those of the packets that are in flight, and all
    that were ever queued, sent and received, the newest first. -/
structure Observation where
  state : AddressDiscoveryState
  remote : SocketAddr
  outboundObservations : List ObservedAddress
  inFlight : List (List ObservedAddress)
  queued : List ObservedAddress
  sent : List ObservedAddress
  peer : AddressDiscoveryState
  received : List ObservedAddress

namespace Observation

def new (remote : SocketAddr) : Observation := ⟨.new, remote, [], [], [], [], .new, []⟩

def push (self : Observation) (frame : ObservedAddress) : Observation :=
  { self with outboundObservations := self.outboundObservations ++ [frame], queued := frame :: self.queued }

def checkForAddressObservations (self : Observation) (gain : ℚ) : Observation :=
  match self.state.shouldSendObservation gain with
  | (state, false) => { self with state }
  | (state, true) => match state.queueObservedAddressFrame self.remote with
    | (state, some frame) => push { self with state } frame
    | (state, none) => { self with state }

/-- A packet with room for so many frames, which are taken from the back. -/
def transmit (self : Observation) (count : Nat) : Observation :=
  let kept := self.outboundObservations.length - count
  let frames := self.outboundObservations.drop kept
  { self with
    outboundObservations := self.outboundObservations.take kept
    inFlight := self.inFlight ++ [frames.reverse]
    sent := frames ++ self.sent }

inductive Event where
  | migrate (remote : SocketAddr)
  | check (gain : ℚ)
  | build
  | queue (address : SocketAddr)
  | transmit (count : Nat)
  | acked (packet : Nat)
  /-- A packet is lost, or its frames go out again with a probe. -/
  | lost (packet : Nat)
  /-- One of the frames arrives, perhaps again or late. -/
  | arrive (frame : ObservedAddress)

def step (self : Observation) : Event → Option Observation
  | .migrate remote => some { self with remote }
  | .check gain => some (self.checkForAddressObservations gain)
  | .build => match self.state.queueObservedAddressFrame self.remote with
    | (state, some frame) => some (push { self with state } frame)
    | (state, none) => some { self with state }
  | .queue address =>
    let (state, frame) := self.state.number address
    some (push { self with state } frame)
  | .transmit count => some (self.transmit count)
  | .acked packet => some { self with inFlight := self.inFlight.eraseIdx packet }
  | .lost packet => some { self with
      outboundObservations := self.outboundObservations ++ self.inFlight.getD packet []
      inFlight := self.inFlight.eraseIdx packet }
  | .arrive frame => if frame ∈ self.sent then
      some { self with peer := self.peer.handleObservedAddressFrame frame, received := frame :: self.received }
    else none

end Observation

/-! What an endpoint keeps about the peers of its connections, to relay `PUNCH_ME_NOW` frames: `src/endpoint.rs`. A
    connection takes whichever slot of the slab is vacant. -/

open Library

structure ConnectionMeta where
  remote : SocketAddr
  peerId : Option Bytes
  deriving DecidableEq

structure Endpoint where
  connections : BTreeMap Nat ConnectionMeta
  peerConnections : Bytes → Option Nat
  pendingRelayEvents : List (Nat × PunchMeNow)

def beBytes (n : Nat) : Nat → Bytes
  | 0 => []
  | len + 1 => UInt8.ofNat (n / 256 ^ len) :: beBytes n len

def wireIdFromAddr (addr : SocketAddr) : Bytes :=
  let addr := normalizeSocketAddr addr
  let id := (if addr.ipv4 then 4 :: beBytes addr.ip 4 else 6 :: beBytes addr.ip 16) ++ beBytes addr.port 2
  id ++ List.replicate (32 - id.length) 0

namespace Endpoint

def new : Endpoint := ⟨.empty, fun _ => none, []⟩

def addConnection (self : Endpoint) (ch : Nat) (remote : SocketAddr) : Option Endpoint :=
  if (self.connections.get ch).isSome then none
  else some { self with connections := self.connections.insert ch ⟨remote, none⟩ }

def registerPeer (self : Endpoint) (peerId : Bytes) (ch : Nat) : Endpoint :=
  { self with peerConnections := fun p => if p = peerId then some ch else self.peerConnections p }

def setConnectionPeerId (self : Endpoint) (ch : Nat) (peerId : Bytes) : Endpoint :=
  match self.connections.get ch with
  | some connection =>
    { self with connections := self.connections.insert ch { connection with peerId := some peerId } }.registerPeer peerId ch
  | none => self

def relayFrameToConnection (self : Endpoint) (ch : Nat) (frame : PunchMeNow) : Endpoint :=
  if (self.connections.get ch).isSome then
    { self with pendingRelayEvents := self.pendingRelayEvents ++ [(ch, { frame with targetPeerId := none })] }
  else self

/-- By peer, or else by an identifier that is made of the address of the target. -/
def relayTarget (self : Endpoint) (target : Bytes) : Option Nat :=
  (self.peerConnections target).or
    ((self.connections.entries.find? fun entry => wireIdFromAddr entry.2.remote = target).map Prod.fst)

def relayPunchMeNow (self : Endpoint) (target : Bytes) (frame : PunchMeNow) : Endpoint :=
  match self.relayTarget target with
  | some ch => self.relayFrameToConnection ch frame
  | none => self

def drained (self : Endpoint) (ch : Nat) : Endpoint :=
  match self.connections.get ch with
  | some connection => { self with
      connections := self.connections.remove ch
      peerConnections := fun p => if connection.peerId = some p then none else self.peerConnections p }
  | none => self

inductive Event where
  | connected (ch : Nat) (remote : SocketAddr)
  | setConnectionPeerId (ch : Nat) (peerId : Bytes)
  | relayPunchMeNow (target : Bytes) (frame : PunchMeNow)
  | drainRelayEvents
  | drained (ch : Nat)

def step (self : Endpoint) : Event → Option Endpoint
  | .connected ch remote => self.addConnection ch remote
  | .setConnectionPeerId ch peerId => some (self.setConnectionPeerId ch peerId)
  | .relayPunchMeNow target frame => some (self.relayPunchMeNow target frame)
  | .drainRelayEvents => some { self with pendingRelayEvents := [] }
  | .drained ch => some (self.drained ch)

end Endpoint
end SaorsaTransport
