import SaorsaTransport.Packet
import SaorsaTransport.RangeSet

/-! Discovery of the path MTU, after `src/connection/mtud.rs`. Sizes are those of UDP payloads. -/

namespace SaorsaTransport

structure MtuDiscoveryConfig where
  interval : Nat
  upperBound : Nat
  minimumChange : Nat
  blackHoleCooldown : Nat
  deriving DecidableEq

def maxUdpPayload : Nat := 65527

structure CurrentLossBurst where
  smallestPacketSize : Nat
  latestNonProbe : Nat
  deriving DecidableEq

/-- Judges whether packet loss might indicate a drop in MTU. -/
structure BlackHoleDetector where
  /-- For each loss burst currently considered suspicious, the size of its smallest packet. -/
  suspiciousLossBursts : List Nat
  currentLossBurst : Option CurrentLossBurst
  largestPostLossPacket : Nat
  ackedMtu : Nat
  minMtu : Nat
  deriving DecidableEq

namespace BlackHoleDetector

/-- Maximum number of suspicious loss bursts that will not trigger black hole detection. -/
def blackHoleThreshold : Nat := 3

def new (minMtu : Nat) : BlackHoleDetector := ⟨[], none, 0, minMtu, minMtu⟩

def onProbeAcked (self : BlackHoleDetector) (pn len : Nat) : BlackHoleDetector :=
  { self with suspiciousLossBursts := [], ackedMtu := len, largestPostLossPacket := pn }

def onNonProbeAcked (self : BlackHoleDetector) (pn len : Nat) : BlackHoleDetector :=
  if len ≤ self.ackedMtu then self
  else
    -- Loss bursts of packets smaller than this are retroactively deemed not suspicious.
    { self with
      ackedMtu := len
      largestPostLossPacket := pn
      suspiciousLossBursts := self.suspiciousLossBursts.filter fun smallest => len < smallest }

/-- Only the most suspicious loss bursts are tracked: replace the first of the smallest, if it is below `burst`. -/
def replaceSmallest (bursts : List Nat) (burst : Nat) : List Nat :=
  match bursts.min? with
  | some smallest => if smallest < burst then bursts.replace smallest burst else bursts
  | none => bursts

/-- Marks the end of the current loss burst, checking whether it was suspicious. -/
def finishLossBurst (self : BlackHoleDetector) : BlackHoleDetector :=
  match self.currentLossBurst with
  | none => self
  | some burst =>
    let self := { self with currentLossBurst := none }
    if burst.smallestPacketSize < self.minMtu ∨
        (burst.latestNonProbe < self.largestPostLossPacket ∧ burst.smallestPacketSize < self.ackedMtu) then self
    else
      let self := if self.largestPostLossPacket < burst.latestNonProbe then { self with ackedMtu := self.minMtu } else self
      { self with suspiciousLossBursts :=
          if self.suspiciousLossBursts.length ≤ blackHoleThreshold then
            self.suspiciousLossBursts ++ [burst.smallestPacketSize]
          else replaceSmallest self.suspiciousLossBursts burst.smallestPacketSize }

/-- Losses are reported in increasing order of their numbers, so a distance other than one is the end of a burst. -/
def onNonProbeLost (self : BlackHoleDetector) (pn len : Nat) : BlackHoleDetector :=
  let self := if self.currentLossBurst.any fun current => pn - current.latestNonProbe != 1 then self.finishLossBurst
    else self
  let smallestPacketSize := self.currentLossBurst.elim len fun prev => min prev.smallestPacketSize len
  { self with currentLossBurst := some { smallestPacketSize, latestNonProbe := pn } }

def blackHoleDetected (self : BlackHoleDetector) : BlackHoleDetector × Bool :=
  let self := self.finishLossBurst
  if self.suspiciousLossBursts.length ≤ blackHoleThreshold then (self, false)
  else ({ self with suspiciousLossBursts := [] }, true)

end BlackHoleDetector

structure SearchState where
  lowerBound : Nat
  upperBound : Nat
  minimumChange : Nat
  lastProbedMtu : Nat
  inFlightProbe : Option Nat
  lostProbeCount : Nat
  deriving DecidableEq

namespace SearchState

def new (lowerBound peerMaxUdpPayloadSize : Nat) (config : MtuDiscoveryConfig) : SearchState :=
  let lowerBound := min lowerBound peerMaxUdpPayloadSize
  { lowerBound
    upperBound := max lowerBound (min config.upperBound peerMaxUdpPayloadSize)
    minimumChange := config.minimumChange
    lastProbedMtu := lowerBound
    inFlightProbe := none
    lostProbeCount := 0 }

/-- The MTU to probe for between the bounds, if it is worth a probe. -/
def middle (self : SearchState) : Option Nat :=
  let nextMtu := (self.lowerBound + self.upperBound) / 2
  if (nextMtu - self.lastProbedMtu) + (self.lastProbedMtu - nextMtu) < self.minimumChange then
    -- If the upper bound is far enough, we want to probe it as a last step.
    if self.minimumChange ≤ self.upperBound - self.lastProbedMtu then some self.upperBound else none
  else some nextMtu

/-- Determines the next MTU to probe using binary search. A size that was probed is not zero. -/
def nextMtuToProbe (self : SearchState) (lastProbeSucceeded : Bool) : SearchState × Option Nat :=
  let self := if lastProbeSucceeded then { self with lowerBound := self.lastProbedMtu }
    else { self with upperBound := self.lastProbedMtu - 1 }
  (self, self.middle)

end SearchState

inductive MtuPhase where
  | initial
  | searching (state : SearchState)
  | complete (nextActivation : Nat)
  deriving DecidableEq

structure EnabledMtuDiscovery where
  phase : MtuPhase
  peerMaxUdpPayloadSize : Nat
  config : MtuDiscoveryConfig
  deriving DecidableEq

namespace EnabledMtuDiscovery

def maxProbeRetransmits : Nat := 3

def new (config : MtuDiscoveryConfig) : EnabledMtuDiscovery := ⟨.initial, maxUdpPayload, config⟩

def activate (self : EnabledMtuDiscovery) (now currentMtu : Nat) : EnabledMtuDiscovery :=
  let search := { self with phase := .searching (SearchState.new currentMtu self.peerMaxUdpPayloadSize self.config) }
  match self.phase with
  | .initial => search
  | .complete nextActivation => if now < nextActivation then self else search
  | .searching _ => self

/-- Go on with the search: a probe of the same size again, or one of the next size. -/
def search (self : EnabledMtuDiscovery) (state : SearchState) (now nextPn : Nat) : EnabledMtuDiscovery × Option Nat :=
  if state.inFlightProbe.isSome then (self, none)
  else if 0 < state.lostProbeCount ∧ state.lostProbeCount < maxProbeRetransmits then
    ({ self with phase := .searching { state with inFlightProbe := some nextPn } }, some state.lastProbedMtu)
  else
    let lastProbeSucceeded := state.lostProbeCount == 0
    let (state, next) := { state with lostProbeCount := 0 }.nextMtuToProbe lastProbeSucceeded
    match next with
    | some size =>
      ({ self with phase := .searching { state with inFlightProbe := some nextPn, lastProbedMtu := size } }, some size)
    | none => ({ self with phase := .complete (now + self.config.interval) }, none)

def pollTransmit (self : EnabledMtuDiscovery) (now currentMtu nextPn : Nat) : EnabledMtuDiscovery × Option Nat :=
  let self := self.activate now currentMtu
  match self.phase with
  | .searching state => self.search state now nextPn
  | _ => (self, none)

def onProbeAcked (self : EnabledMtuDiscovery) (pn : Nat) : EnabledMtuDiscovery × Option Nat :=
  match self.phase with
  | .searching state =>
    if state.inFlightProbe = some pn then
      ({ self with phase := .searching { state with inFlightProbe := none, lostProbeCount := 0 } },
        some state.lastProbedMtu)
    else (self, none)
  | _ => (self, none)

/-- We might no longer be searching, e.g. if a black hole was detected. -/
def onProbeLost (self : EnabledMtuDiscovery) : EnabledMtuDiscovery :=
  match self.phase with
  | .searching state =>
    { self with phase := .searching { state with inFlightProbe := none, lostProbeCount := state.lostProbeCount + 1 } }
  | _ => self

def onBlackHoleDetected (self : EnabledMtuDiscovery) (now : Nat) : EnabledMtuDiscovery :=
  { self with phase := .complete (now + self.config.blackHoleCooldown) }

def inFlightProbe (self : EnabledMtuDiscovery) : Option Nat :=
  match self.phase with
  | .searching state => state.inFlightProbe
  | _ => none

end EnabledMtuDiscovery

structure MtuDiscovery where
  currentMtu : Nat
  state : Option EnabledMtuDiscovery
  blackHoleDetector : BlackHoleDetector
  deriving DecidableEq

namespace MtuDiscovery

def onPeerMaxUdpPayloadSizeReceived (self : MtuDiscovery) (size : Nat) : MtuDiscovery :=
  { self with
    currentMtu := min self.currentMtu size
    state := self.state.map fun state => { state with peerMaxUdpPayloadSize := size } }

def disabled (plpmtu minMtu : Nat) : MtuDiscovery := ⟨plpmtu, none, .new minMtu⟩

def new (initialPlpmtu minMtu : Nat) (peerMaxUdpPayloadSize : Option Nat) (config : MtuDiscoveryConfig) : MtuDiscovery :=
  let self : MtuDiscovery := ⟨initialPlpmtu, some (.new config), .new minMtu⟩
  peerMaxUdpPayloadSize.elim self self.onPeerMaxUdpPayloadSizeReceived

def reset (self : MtuDiscovery) (currentMtu minMtu : Nat) : MtuDiscovery :=
  let fresh : MtuDiscovery := { self with currentMtu, state := self.state.map fun state => .new state.config }
  let fresh := self.state.elim fresh fun state => fresh.onPeerMaxUdpPayloadSizeReceived state.peerMaxUdpPayloadSize
  { fresh with blackHoleDetector := .new minMtu }

def pollTransmit (self : MtuDiscovery) (now nextPn : Nat) : MtuDiscovery × Option Nat :=
  match self.state with
  | none => (self, none)
  | some state =>
    let (state, size) := state.pollTransmit now self.currentMtu nextPn
    ({ self with state := some state }, size)

/-- Notifies the discovery that a packet has been acknowledged. Probes are only sent in the data space. -/
def onAcked (self : MtuDiscovery) (space : SpaceId) (pn len : Nat) : MtuDiscovery :=
  if space ≠ .data then self
  else
    let (state, newMtu) := match self.state with
      | none => (none, none)
      | some state => let (state, newMtu) := state.onProbeAcked pn; (some state, newMtu)
    match newMtu with
    | some currentMtu =>
      { self with state, currentMtu, blackHoleDetector := self.blackHoleDetector.onProbeAcked pn len }
    | none => { self with state, blackHoleDetector := self.blackHoleDetector.onNonProbeAcked pn len }

def inFlightMtuProbe (self : MtuDiscovery) : Option Nat := self.state.bind (·.inFlightProbe)

def onProbeLost (self : MtuDiscovery) : MtuDiscovery := { self with state := self.state.map (·.onProbeLost) }

def onNonProbeLost (self : MtuDiscovery) (pn len : Nat) : MtuDiscovery :=
  { self with blackHoleDetector := self.blackHoleDetector.onNonProbeLost pn len }

/-- Close the loss burst; at a black hole the current MTU falls back to the smallest. -/
def blackHoleDetected (self : MtuDiscovery) (now : Nat) : MtuDiscovery :=
  let (blackHoleDetector, detected) := self.blackHoleDetector.blackHoleDetected
  if detected then
    { currentMtu := blackHoleDetector.minMtu, state := self.state.map (·.onBlackHoleDetected now), blackHoleDetector }
  else { self with blackHoleDetector }

end MtuDiscovery

/-! Network paths, after `src/connection/paths.rs`. Round-trip times, congestion control and pacing are left out. -/

open Library

/-- The parts of `TransportConfig` that paths and loss detection read. -/
structure PathConfig where
  initialMtu : Nat
  minMtu : Nat
  mtuDiscoveryConfig : Option MtuDiscoveryConfig
  packetThreshold : Nat

structure InFlight where
  bytes : Nat
  ackEliciting : Nat
  deriving DecidableEq

namespace InFlight

def new : InFlight := ⟨0, 0⟩

def insert (self : InFlight) (size : Nat) (ackEliciting : Bool) : InFlight :=
  ⟨self.bytes + size, self.ackEliciting + ackEliciting.toNat⟩

/-- Account for a packet becoming acknowledged, lost, or abandoned; nothing if a counter would go below zero. -/
def remove (self : InFlight) (size : Nat) (ackEliciting : Bool) : Option InFlight := do
  let bytes ← checkedSub self.bytes size
  let ackEliciting ← checkedSub self.ackEliciting ackEliciting.toNat
  some ⟨bytes, ackEliciting⟩

end InFlight

structure PathData where
  remote : SocketAddr
  challenge : Option Nat
  challengePending : Bool
  validated : Bool
  totalSent : Nat
  totalRecvd : Nat
  mtud : MtuDiscovery
  inFlight : InFlight
  firstPacket : Option Nat
  deriving DecidableEq

namespace PathData

def new (remote : SocketAddr) (allowMtud : Bool) (peerMaxUdpPayloadSize : Option Nat) (config : PathConfig) : PathData where
  remote := remote
  challenge := none
  challengePending := false
  validated := false
  totalSent := 0
  totalRecvd := 0
  mtud := (config.mtuDiscoveryConfig.filter fun _ => allowMtud).elim (.disabled config.initialMtu config.minMtu)
    fun mtudConfig => .new config.initialMtu config.minMtu peerMaxUdpPayloadSize mtudConfig
  inFlight := .new
  firstPacket := none

def fromPrevious (remote : SocketAddr) (prev : PathData) : PathData where
  remote := remote
  challenge := none
  challengePending := false
  validated := false
  totalSent := 0
  totalRecvd := 0
  mtud := prev.mtud
  inFlight := .new
  firstPacket := none

def reset (self : PathData) (config : PathConfig) : PathData :=
  { self with mtud := self.mtud.reset config.initialMtu config.minMtu }

/-- Whether we haven't received enough data from an address that is not validated to send more. -/
def antiAmplificationBlocked (self : PathData) (bytesToSend : Nat) : Bool :=
  !self.validated && decide (self.totalRecvd * 3 < self.totalSent + bytesToSend)

def currentMtu (self : PathData) : Nat := self.mtud.currentMtu

end PathData

/-! Validation of explicit congestion notification: `PacketSpace::detect_ecn` of `src/connection/spaces.rs`, and
    `on_ack_received` and `process_ecn` in `src/connection/mod.rs`, on one path with every packet marked ECT(0). Counters
    are below 2^62, so their sums do not overflow. -/

structure EcnCounts where
  ect0 : Nat
  ect1 : Nat
  ce : Nat
  deriving DecidableEq

namespace EcnCounts

def zero : EcnCounts := ⟨0, 0, 0⟩

def total (self : EcnCounts) : Nat := self.ect0 + self.ect1 + self.ce

end EcnCounts

structure EcnAck where
  largest : Nat
  ranges : List (Nat × Nat)
  ecn : Option EcnCounts
  deriving DecidableEq

def EcnAck.covers (ack : EcnAck) (pn : Nat) : Bool := ack.ranges.any fun range => range.1 ≤ pn && pn ≤ range.2

structure EcnSpace where
  nextPacketNumber : Nat
  largestAckedPacket : Option Nat
  sentPackets : List Nat
  ecnFeedback : EcnCounts
  deriving DecidableEq

namespace EcnSpace

def new : EcnSpace := ⟨0, none, [], .zero⟩

/-- Verifies sanity of an ECN block and returns whether congestion was encountered. -/
def detectEcn (self : EcnSpace) (newlyAcked : Nat) (ecn : EcnCounts) : Except String (Bool × EcnSpace) :=
  if ecn.ect0 < self.ecnFeedback.ect0 then .error "peer ECT(0) count regression"
  else if ecn.ect1 < self.ecnFeedback.ect1 then .error "peer ECT(1) count regression"
  else if ecn.ce < self.ecnFeedback.ce then .error "peer CE count regression"
  else
    let ect0Increase := ecn.ect0 - self.ecnFeedback.ect0
    let ect1Increase := ecn.ect1 - self.ecnFeedback.ect1
    let ceIncrease := ecn.ce - self.ecnFeedback.ce
    if ect0Increase + ect1Increase + ceIncrease < newlyAcked then .error "ECN bleaching"
    else if ect0Increase + ceIncrease < newlyAcked ∨ ect1Increase ≠ 0 then .error "ECN corruption"
    else .ok (ceIncrease ≠ 0, { self with ecnFeedback := ecn })

def newLargest (self : EcnSpace) (ack : EcnAck) : Bool := self.largestAckedPacket.all fun pn => pn < ack.largest

def acked (self : EcnSpace) (ack : EcnAck) : List Nat := self.sentPackets.filter ack.covers

/-- The range set into which they are put, one range of the frame after the other. -/
def newlyAcked (self : EcnSpace) (ack : EcnAck) : ArrayRangeSet :=
  ack.ranges.foldl (fun set range =>
    (self.sentPackets.filter fun pn => range.1 ≤ pn && pn ≤ range.2).foldl (fun set pn => (set.insertOne pn).1) set) .new

end EcnSpace

/-- A path on which packets are sent with the ECT(0) mark, as long as that works. -/
structure EcnPath where
  spaces : SpaceId → EcnSpace
  sendingEcn : Bool
  prevSkippedPacketNumber : Option Nat

namespace EcnPath

def new : EcnPath := ⟨fun _ => .new, true, none⟩

def setSpace (self : EcnPath) (space : SpaceId) (value : EcnSpace) : EcnPath :=
  { self with spaces := Function.update self.spaces space value }

def txNumber (self : EcnPath) (space : SpaceId) (skip : Bool) : Nat :=
  (self.spaces space).nextPacketNumber + (skip && space = .data).toNat

/-- Send a packet; numbers from 2^62 on do not exist. -/
def send (self : EcnPath) (space : SpaceId) (skip : Bool) : Option EcnPath :=
  let value := self.spaces space
  let number := self.txNumber space skip
  if number < 2 ^ 62 then
    some { self.setSpace space { value with
        nextPacketNumber := number + 1, sentPackets := value.sentPackets ++ [number] } with
      prevSkippedPacketNumber :=
        if skip && space = .data then some value.nextPacketNumber else self.prevSkippedPacketNumber }
  else none

def processEcn (self : EcnPath) (space : SpaceId) (newlyAcked : Nat) (ecn : EcnCounts) : EcnPath :=
  match (self.spaces space).detectEcn newlyAcked ecn with
  | .error _ =>
    -- Wipe out the existing value because it might be garbage.
    { self.setSpace space { self.spaces space with ecnFeedback := .zero } with sendingEcn := false }
  | .ok (_, value) => self.setSpace space value

/-- Explicit congestion notification, at the end of `on_ack_received`. -/
def onAckEcn (self : EcnPath) (space : SpaceId) (newLargest : Bool) (newlyAcked : Nat) (ecn : Option EcnCounts) : EcnPath :=
  if self.sendingEcn then
    match ecn with
    | some ecn => if newLargest then self.processEcn space newlyAcked ecn else self
    | none => { self with sendingEcn := false }
  else self

def onAckReceived (self : EcnPath) (space : SpaceId) (ack : EcnAck) : Except TransportError EcnPath :=
  let value := self.spaces space
  if value.nextPacketNumber ≤ ack.largest then .error ⟨.protocolViolation, "unsent packet acked"⟩
  else if space = .data ∧ self.prevSkippedPacketNumber.any ack.covers then
    .error ⟨.protocolViolation, "unsent packet acked"⟩
  else
    let newLargest := value.newLargest ack
    let largestAckedPacket := if newLargest then some ack.largest else value.largestAckedPacket
    let newlyAcked := value.newlyAcked ack
    if newlyAcked.isEmpty then .ok (self.setSpace space { value with largestAckedPacket })
    else
      let sentPackets := value.sentPackets.filter fun pn => !newlyAcked.contains pn
      .ok ((self.setSpace space { value with largestAckedPacket, sentPackets }).onAckEcn space newLargest newlyAcked.len
        ack.ecn)

def lose (self : EcnPath) (space : SpaceId) (pn : Nat) : EcnPath :=
  self.setSpace space { self.spaces space with sentPackets := (self.spaces space).sentPackets.filter (· ≠ pn) }

inductive Event where
  | send (space : SpaceId) (skip : Bool)
  | ack (space : SpaceId) (ack : EcnAck)
  | lose (space : SpaceId) (pn : Nat)
  deriving DecidableEq

def step (self : EcnPath) : Event → Option EcnPath
  | .send space skip => self.send space skip
  | .ack space ack => (self.onAckReceived space ack).toOption
  | .lose space pn => some (self.lose space pn)

end EcnPath

/-! A token bucket that spreads packets over time: `src/connection/pacing.rs`. Times are in nanoseconds. -/

structure Pacer where
  capacity : Nat
  lastWindow : Nat
  lastMtu : Nat
  lastRate : Option Nat
  tokens : Nat
  prev : Nat
  deriving DecidableEq

namespace Pacer

def nanosPerSecond : Nat := 1000000000

def burstIntervalNanos : Nat := 2000000

def minBurstSize : Nat := 10

def maxBurstSize : Nat := 256

def u128Max : Nat := 2 ^ 128 - 1

def computeCapacity (smoothedRtt window mtu : Nat) (rate : Option Nat) : Nat :=
  let unclamped := match rate with
    | some rate => min (min (rate * burstIntervalNanos) u128Max / nanosPerSecond) u64Max
    | none => min (window * burstIntervalNanos / max smoothedRtt 1) u64Max
  max (minBurstSize * mtu) (min unclamped (maxBurstSize * mtu))

def new (smoothedRtt window mtu : Nat) (pacingRate : Option Nat) (now : Nat) : Pacer :=
  let rate := pacingRate.filter (0 < ·)
  let capacity := computeCapacity smoothedRtt window mtu rate
  ⟨capacity, window, mtu, rate, capacity, now⟩

def onTransmit (self : Pacer) (packetLength : Nat) : Pacer := { self with tokens := self.tokens - packetLength }

/-- Tokens are clamped down to a smaller capacity, and left alone when it grows. -/
def resize (self : Pacer) (smoothedRtt mtu window : Nat) (rate : Option Nat) : Pacer :=
  if window ≠ self.lastWindow ∨ mtu ≠ self.lastMtu ∨ rate ≠ self.lastRate then
    let capacity := computeCapacity smoothedRtt window mtu rate
    { self with
      capacity, tokens := min capacity self.tokens, lastWindow := window, lastMtu := mtu, lastRate := rate }
  else self

/-- The tokens of a while at a rate, and the time until the bucket is full after them. -/
def refill (self : Pacer) (rate bytesToSend timeElapsed : Nat) : Nat × Nat :=
  let refilled := min (rate * timeElapsed) u128Max / nanosPerSecond
  let projected := min (min (self.tokens + refilled) u64Max) self.capacity
  let deficit := max bytesToSend self.capacity - projected
  (min refilled u64Max, min (deficit * nanosPerSecond / rate) u64Max)

/-- What the source computes in floating point when there is no rate: the new tokens and the delay, from the round-trip
    time, the bytes to send, the window and the time elapsed. It gives nothing if there is no pacing. -/
abbrev CwndRefill := Pacer → Nat → Nat → Nat → Nat → Option (Nat × Nat)

/-- When to try again, if `bytesToSend` cannot be sent right away. -/
def delay (cwndRefill : CwndRefill) (self : Pacer)
    (smoothedRtt bytesToSend mtu window : Nat) (pacingRate : Option Nat) (now : Nat) : Pacer × Option Nat :=
  let rate := pacingRate.filter (0 < ·)
  let self := self.resize smoothedRtt mtu window rate
  if bytesToSend ≤ self.tokens then (self, none)
  else
    let timeElapsed := now - self.prev
    let refilled := match rate with
      | some rate => some (self.refill rate bytesToSend timeElapsed)
      | none => cwndRefill self smoothedRtt bytesToSend window timeElapsed
    match refilled with
    | none => (self, none)
    | some (newTokens, delay) =>
      let self := { self with tokens := min (saturatingAdd self.tokens newTokens) self.capacity, prev := now }
      (self, if bytesToSend ≤ self.tokens then none else some (now + delay))

end Pacer

/-- A sender at a fixed rate. What a call of `delay` permitted may be sent until it is used up. -/
structure PacedSender where
  pacer : Pacer
  now : Nat
  permitted : Nat
  sent : Nat
  deriving DecidableEq

namespace PacedSender

inductive Event where
  | elapse (nanos : Nat)
  | delay (smoothedRtt bytesToSend window : Nat)
  | transmit (packetLength : Nat)

def step (cwndRefill : Pacer.CwndRefill) (mtu rate : Nat) (self : PacedSender) :
    Event → Option PacedSender
  | .elapse nanos => some { self with now := self.now + nanos }
  | .delay smoothedRtt bytesToSend window =>
    let (pacer, until_) := self.pacer.delay cwndRefill smoothedRtt bytesToSend mtu window (some rate) self.now
    some { self with pacer, permitted := if until_ = none then bytesToSend else self.permitted }
  | .transmit packetLength =>
    if packetLength ≤ self.permitted then some { self with
      pacer := self.pacer.onTransmit packetLength
      permitted := self.permitted - packetLength
      sent := self.sent + packetLength }
    else none

end PacedSender
end SaorsaTransport
