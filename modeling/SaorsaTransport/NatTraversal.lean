import SaorsaTransport.Basic
import SaorsaTransport.Library.Maps

/-! Candidate addresses of the peer and rounds of coordinated hole punching, after `src/connection/nat_traversal.rs`.
    Address checks, adaptive timeouts, the port predictor and what the rate limiters say are arguments; candidate pairs,
    which only decide which address comes next, are left out. -/

namespace SaorsaTransport
open Library

inductive NatTraversalError where
  | resourceLimitExceeded
  | rateLimitExceeded
  | invalidAddress
  | securityValidationFailed
  | tooManyCandidates
  | duplicateAddress
  | unknownCandidate
  | invalidCandidateState
  | noActiveValidation
  | challengeMismatch
  | suspiciousCoordination
  deriving DecidableEq

inductive AddressValidationResult where
  | valid
  | invalid
  | suspicious
  deriving DecidableEq

inductive CandidateState where
  | new
  | validating
  | valid
  | failed
  | removed
  deriving DecidableEq

structure AddressCandidate where
  address : SocketAddr
  priority : Nat
  state : CandidateState
  attemptCount : Nat
  lastAttempt : Option Nat
  deriving DecidableEq

inductive CoordinationPhase where
  | requesting
  | coordinating
  | preparing
  | punching
  | validating
  | succeeded
  | failed
  deriving DecidableEq

structure PunchTarget where
  remoteAddr : SocketAddr
  remoteSequence : Nat
  challenge : Nat
  deriving DecidableEq

structure CoordinationState where
  round : Nat
  punchTargets : List PunchTarget
  roundStart : Nat
  punchStart : Nat
  state : CoordinationPhase
  punchRequestSent : Bool
  peerPunchReceived : Bool
  retryCount : Nat
  /-- What the adaptive timeout was told, the latest first: the time of a success, or nothing for a timeout. -/
  timeoutState : List (Option Nat)
  lastRetryAt : Option Nat
  deriving DecidableEq

namespace CoordinationState

def maxRetries : Nat := 3

def new (round : Nat) (targets : List PunchTarget) (now delay : Nat) (state : CoordinationPhase) (received : Bool) :
    CoordinationState :=
  ⟨round, targets, now, now + delay, state, false, received, 0, [], none⟩

def consecutiveTimeouts (self : CoordinationState) : Nat := (self.timeoutState.takeWhile (·.isNone)).length

end CoordinationState

structure NatTraversalState where
  maxCandidates : Nat
  /-- Candidates that the peer advertised or that were predicted, by sequence number. -/
  remoteCandidates : BTreeMap Nat AddressCandidate
  /-- The challenge last chosen for each address under validation. -/
  activeValidations : List (SocketAddr × Nat)
  coordination : Option CoordinationState
  nextSequence : Nat

structure CandidateChecks where
  rejectNewResources : Bool
  rateLimited : Bool
  address : AddressValidationResult
  predictedPorts : List Nat
  deriving DecidableEq

namespace NatTraversalState

def new (maxCandidates : Nat) : NatTraversalState := ⟨maxCandidates, .empty, [], none, 1⟩

def insertCandidate (self : NatTraversalState) (sequence : Nat) (address : SocketAddr) (priority : Nat) :
    NatTraversalState :=
  { self with remoteCandidates := self.remoteCandidates.insert sequence ⟨address, priority, .new, 0, none⟩ }

/-- Add the addresses that the predictor expects, until there are too many. -/
def generatePredictedCandidates (self : NatTraversalState) (address : SocketAddr) : List Nat → NatTraversalState
  | [] => self
  | port :: ports =>
    let predicted := { address with port }
    if self.remoteCandidates.entries.any fun entry => entry.2.address = predicted then
      self.generatePredictedCandidates address ports
    else if self.maxCandidates ≤ self.remoteCandidates.len then self
    else (self.insertCandidate (1000000000 + port) predicted 1).generatePredictedCandidates address ports

def addRemoteCandidate (self : NatTraversalState) (sequence : Nat) (address : SocketAddr) (priority : Nat)
    (checks : CandidateChecks) : Except NatTraversalError NatTraversalState :=
  if checks.rejectNewResources then .error .resourceLimitExceeded
  else if checks.rateLimited then .error .rateLimitExceeded
  else if checks.address = .invalid then .error .invalidAddress
  else if checks.address = .suspicious then .error .securityValidationFailed
  else if self.maxCandidates ≤ self.remoteCandidates.len then .error .tooManyCandidates
  else if self.remoteCandidates.entries.any fun entry => entry.2.address = address ∧ entry.2.state ≠ .removed then
    .error .duplicateAddress
  else .ok ((self.insertCandidate sequence address (priority % 2 ^ 32)).generatePredictedCandidates address
    checks.predictedPorts)

def removeCandidate (self : NatTraversalState) (sequence : Nat) : NatTraversalState :=
  match self.remoteCandidates.get sequence with
  | some candidate => { self with
      remoteCandidates := self.remoteCandidates.insert sequence { candidate with state := .removed }
      -- Cancel any active validation for this address.
      activeValidations := self.activeValidations.filter fun validation => validation.1 ≠ candidate.address }
  | none => self

def insertValidation (self : NatTraversalState) (address : SocketAddr) (challenge : Nat) : NatTraversalState :=
  { self with activeValidations := (address, challenge) ::
      self.activeValidations.filter fun validation => validation.1 ≠ address }

/-- Unless a validation of the address runs already, one is begun. -/
def triggerCandidateValidation (self : NatTraversalState) (address : SocketAddr) (challenge : Nat) : NatTraversalState :=
  if (self.activeValidations.lookup address).isSome then self else self.insertValidation address challenge

/-- An address that is taken is validated at once; the state of the candidate says nothing of it. -/
def handleAddAddress (self : NatTraversalState) (sequence : Nat) (address : SocketAddr) (priority : Nat)
    (checks : CandidateChecks) (challenge : Nat) : Except NatTraversalError NatTraversalState :=
  (self.addRemoteCandidate sequence address priority checks).map (·.triggerCandidateValidation address challenge)

/-- The candidate to validate next, one of the highest priority. The candidates come out of a hash map, so among equals
    any can be the first. -/
def validationCandidate (self : NatTraversalState) (preferred : Nat) : Option (Nat × AddressCandidate) :=
  let fresh := self.remoteCandidates.entries.filter fun entry => entry.2.state = .new
  let first := fresh.filter fun entry => fresh.all fun other => other.2.priority ≤ entry.2.priority
  (first.find? fun entry => entry.1 = preferred).or first.head?

def isValidationSuspicious (candidate : AddressCandidate) (now : Nat) : Bool :=
  decide (10 < candidate.attemptCount) || candidate.lastAttempt.any fun last => now - last < 100

def startValidation (self : NatTraversalState) (sequence challenge now : Nat) :
    Except NatTraversalError NatTraversalState :=
  match self.remoteCandidates.get sequence with
  | none => .error .unknownCandidate
  | some candidate =>
    if candidate.state ≠ .new then .error .invalidCandidateState
    else if isValidationSuspicious candidate now then .error .securityValidationFailed
    else if 10 ≤ self.activeValidations.length then .error .securityValidationFailed
    else
      let candidate := { candidate with
        state := .validating, attemptCount := candidate.attemptCount + 1, lastAttempt := some now }
      .ok (insertValidation { self with remoteCandidates := self.remoteCandidates.insert sequence candidate }
        candidate.address challenge)

/-- Handle the response to a challenge. Of several candidates with the address any can be the one that is found. -/
def handleValidationSuccess (self : NatTraversalState) (sequence : Nat) (remote : SocketAddr) (challenge : Nat) :
    Except NatTraversalError NatTraversalState :=
  match self.remoteCandidates.get sequence with
  | none => .error .unknownCandidate
  | some candidate =>
    if candidate.address ≠ remote then .error .unknownCandidate
    else match self.activeValidations.lookup remote with
      | none => .error .noActiveValidation
      | some expected =>
        if expected ≠ challenge then .error .challengeMismatch
        else .ok { self with
          remoteCandidates := self.remoteCandidates.insert sequence { candidate with state := .valid }
          activeValidations := self.activeValidations.filter fun validation => validation.1 ≠ remote }

def checkValidationTimeouts (self : NatTraversalState) (expired : List SocketAddr) : NatTraversalState :=
  { self with activeValidations := self.activeValidations.filter fun validation => validation.1 ∉ expired }

def updateCoordination (self : NatTraversalState) (f : CoordinationState → CoordinationState) : NatTraversalState :=
  { self with coordination := self.coordination.map f }

/-- Start a new round, once the targets have passed the checks. -/
def startCoordinationRound (self : NatTraversalState) (targets : List PunchTarget) (now : Nat) (accepted : Bool) :
    Except NatTraversalError NatTraversalState :=
  if !accepted then .error .suspiciousCoordination
  else .ok { self with
    nextSequence := self.nextSequence + 1
    coordination := some (.new self.nextSequence targets now 500 .requesting false) }

def shouldSendPunchRequest (self : NatTraversalState) : Bool :=
  self.coordination.any fun coord => coord.state = .requesting ∧ !coord.punchRequestSent

def markPunchRequestSent (self : NatTraversalState) : NatTraversalState :=
  self.updateCoordination fun coord => { coord with punchRequestSent := true, state := .coordinating }

/-- A round with the given targets takes the place of one that has its request to send. -/
def initiateCoordination (self : NatTraversalState) (targets : List PunchTarget) (now : Nat) (accepted : Bool) :
    NatTraversalState :=
  if self.shouldSendPunchRequest ∧ targets ≠ [] then
    match self.startCoordinationRound targets now accepted with
    | .ok nat => nat.markPunchRequestSent
    | .error _ => self
  else self

def isPeerCoordinationSuspicious (self : NatTraversalState) (peerRound : Nat) : Bool :=
  decide (peerRound = 0) || self.coordination.any fun coord => coord.round + 100 < peerRound ∨ peerRound + 100 < coord.round

def handlePeerPunchRequest (self : NatTraversalState) (peerRound now grace : Nat) :
    Except NatTraversalError NatTraversalState :=
  if self.isPeerCoordinationSuspicious peerRound then .error .suspiciousCoordination
  else
    match self.coordination.filter fun coord =>
      (coord.state = .coordinating ∨ coord.state = .requesting) ∧ coord.round = peerRound with
    | some coord => .ok { self with coordination := some { coord with
        peerPunchReceived := true, state := .preparing, punchStart := now + grace } }
    -- Without a round, or with one that is stale: the frame was relayed, and nothing is known of the targets.
    | none => .ok { self with coordination := some (.new peerRound [] now 150 .preparing true) }

def shouldStartPunching (self : NatTraversalState) (now : Nat) : Bool :=
  self.coordination.any fun coord => match coord.state with
    | .preparing => coord.punchStart ≤ now
    | .coordinating => coord.peerPunchReceived && coord.punchStart ≤ now
    | _ => false

def startPunchingPhase (self : NatTraversalState) (transmissionTime now : Nat) : NatTraversalState :=
  self.updateCoordination fun coord => { coord with state := .punching, punchStart := max transmissionTime now }

def punchTarget (self : NatTraversalState) : Option SocketAddr :=
  (self.coordination.filter fun coord => coord.state = .punching).bind fun coord =>
    coord.punchTargets.head?.map (·.remoteAddr)

def markCoordinationValidating (self : NatTraversalState) : NatTraversalState :=
  self.updateCoordination fun coord => if coord.state = .punching then { coord with state := .validating } else coord

def handleCoordinationSuccess (self : NatTraversalState) (remote : SocketAddr) (now : Nat) : NatTraversalState × Bool :=
  if self.coordination.any fun coord =>
      coord.state = .validating ∧ coord.punchTargets.any fun target => target.remoteAddr = remote then
    (self.updateCoordination fun coord => { coord with
      timeoutState := some (now - coord.roundStart) :: coord.timeoutState, state := .succeeded }, true)
  else (self, false)

/-- The round has timed out. It is tried again at the given time, if the network is fit for it, or given up. -/
def handleCoordinationFailure (self : NatTraversalState) (now : Nat) (suitable : Bool) (punchStart : Nat) :
    NatTraversalState :=
  self.updateCoordination fun coord =>
    let coord := { coord with retryCount := coord.retryCount + 1, timeoutState := none :: coord.timeoutState }
    if coord.consecutiveTimeouts < CoordinationState.maxRetries ∧ suitable then { coord with
      state := .requesting, punchRequestSent := false, peerPunchReceived := false, roundStart := now,
      lastRetryAt := some now, punchStart }
    else { coord with state := .failed }

inductive TimeoutAction where
  | startValidation
  | failed
  deriving DecidableEq

/-- The time of a round is over: it goes on as given, or has failed. -/
def retryRound (self : NatTraversalState) (coord next : CoordinationState) (actions : List TimeoutAction) :
    NatTraversalState × List TimeoutAction :=
  let retryCount := coord.retryCount + 1
  if CoordinationState.maxRetries ≤ retryCount then
    ({ self with coordination := some { coord with retryCount, state := .failed } }, [.failed])
  else ({ self with coordination := some { next with retryCount } }, actions)

/-- What the `NatTraversal` timer does to the round, and whether its time is over. -/
def timeoutRound (self : NatTraversalState) (now : Nat) (due : Bool) : NatTraversalState × List TimeoutAction :=
  match self.coordination with
  | none => (self, [])
  | some coord => match coord.state with
    | .requesting | .coordinating =>
      if due then self.retryRound coord { coord with state := .requesting, roundStart := now } [] else (self, [])
    | .preparing =>
      if coord.punchStart ≤ now then
        ({ self with coordination := some { coord with state := .punching } }, [.startValidation])
      else (self, [])
    | .punching | .validating =>
      if due then self.retryRound coord { coord with state := .punching } [.startValidation] else (self, [])
    | .succeeded => (self, [])
    | .failed => (self, [.failed])

/-- The `NatTraversal` timer fires. Some validations have expired, and of the others some may be tried again. -/
def handleTimeout (self : NatTraversalState) (now : Nat) (due : Bool) (expired : List SocketAddr)
    (revalidate : Bool) : NatTraversalState × List TimeoutAction :=
  let (self, actions) := self.timeoutRound now due
  (self.checkValidationTimeouts expired, actions ++ if revalidate then [.startValidation] else [])

end NatTraversalState

/-- Of the security state what its two rate limiters use; times are nanoseconds of one clock. -/
structure SecurityValidationState where
  candidateRateTracker : List Nat
  maxCandidatesPerWindow : Nat
  rateWindow : Nat
  coordinationRequests : List Nat
  maxCoordinationPerWindow : Nat

/-- What either limiter does with its tracker: what is older than the window goes, and the request is recorded if there is
    room. `now - window` panics when it is before the clock's origin. -/
def rateLimited (window maximum now : Nat) (tracker : List Nat) : Option (Bool × List Nat) :=
  (checkedSub now window).map fun cutoff =>
    let tracker := tracker.dropWhile (· < cutoff)
    if maximum ≤ tracker.length then (true, tracker) else (false, tracker ++ [now])

namespace SecurityValidationState

def isCandidateRateLimited (self : SecurityValidationState) (now : Nat) : Option (Bool × SecurityValidationState) :=
  (rateLimited self.rateWindow self.maxCandidatesPerWindow now self.candidateRateTracker).map fun (limited, tracker) =>
    (limited, { self with candidateRateTracker := tracker })

def isCoordinationRateLimited (self : SecurityValidationState) (now : Nat) : Option (Bool × SecurityValidationState) :=
  (rateLimited self.rateWindow self.maxCoordinationPerWindow now self.coordinationRequests).map fun (limited, tracker) =>
    (limited, { self with coordinationRequests := tracker })

end SecurityValidationState

/-! Rounds of hole punching as a connection drives them, after `src/connection/mod.rs`: the frames of the peer, polls and
    timers. How often the round was tried again stands beside it; whether a timeout has passed and the network is fit for
    another try are arguments. -/

inductive PairState where
  | waiting
  | succeeded
  | failed
  | frozen
  deriving DecidableEq

structure CandidatePair where
  remoteAddr : SocketAddr
  priority : Nat
  pairType : Nat
  state : PairState
  deriving DecidableEq

structure Puncher where
  nat : NatTraversalState
  candidatePairs : List CandidatePair
  retries : Nat

namespace Puncher

def new (maxCandidates : Nat) : Puncher := ⟨.new maxCandidates, [], 0⟩

def sendCoordinationRequest (self : Puncher) : Puncher :=
  if self.nat.shouldSendPunchRequest ∧ self.nat.coordination.any (·.punchTargets ≠ []) then
    { self with nat := self.nat.markPunchRequestSent }
  else self

def sendCoordinatedPathChallenge (self : Puncher) (now transmissionTime : Nat) : Puncher × Option PunchTarget :=
  let nat := if self.nat.shouldStartPunching now then self.nat.startPunchingPhase transmissionTime now else self.nat
  match (nat.coordination.filter (·.state = .punching)).bind (·.punchTargets.head?) with
  | some target => ({ self with nat := nat.markCoordinationValidating }, some target)
  | none => ({ self with nat }, none)

/-- Pairs are added, or made anew. They are kept in order of priority. -/
def addPairs (self : Puncher) (keep : Bool) (pairs : List CandidatePair) : Puncher :=
  let kept := if keep then self.candidatePairs else []
  let fresh := pairs.map fun pair => { pair with state := .waiting }
  { self with candidatePairs := (kept ++ fresh).mergeSort (fun a b => decide (b.priority ≤ a.priority)) }

/-- Lower pairs of the type that still wait are frozen. -/
def markPairSucceeded (self : Puncher) (remote : SocketAddr) : Puncher :=
  match self.candidatePairs.find? fun pair => pair.remoteAddr = remote with
  | none => self
  | some found => { self with candidatePairs := self.candidatePairs.map fun pair =>
      if pair = found then { pair with state := .succeeded }
      else if pair.pairType = found.pairType ∧ pair.priority < found.priority ∧ pair.state = .waiting then
        { pair with state := .frozen }
      else pair }

/-- A PATH_RESPONSE frame that is not for the current path; `sequence` is the candidate that is found. -/
def handlePathResponse (self : Puncher) (sequence : Nat) (remote : SocketAddr) (token now : Nat) : Puncher :=
  match self.nat.handleValidationSuccess sequence remote token with
  | .error _ => self
  | .ok nat => match nat.handleCoordinationSuccess remote now with
    | (nat, true) => { self with nat }
    | (nat, false) => markPairSucceeded { self with nat } remote

/-- Pairs are made anew and targets chosen from them, if there is a request to be sent. -/
def initiateCoordination (self : Puncher) (pairs : List CandidatePair) (targets : List PunchTarget) (now : Nat)
    (accepted : Bool) : Puncher :=
  if self.nat.shouldSendPunchRequest then
    { self.addPairs false pairs with nat := self.nat.initiateCoordination targets now accepted }
  else self

inductive Event where
  | start (pairs : List CandidatePair) (targets : List PunchTarget) (now : Nat) (accepted : Bool)
  | punchMeNow (round now grace : Nat)
  | request
  | timeout (due suitable : Bool) (now punchStart : Nat)
  | challenge (now transmissionTime : Nat)
  | response (sequence : Nat) (remote : SocketAddr) (token now : Nat)
  | timer (now : Nat) (due : Bool)
  | addCandidate (sequence : Nat) (address : SocketAddr) (priority : Nat) (checks : CandidateChecks) (challenge : Nat)
  | removeCandidate (sequence : Nat)
  | startValidation (sequence challenge now : Nat)
  | expire (expired : List SocketAddr)
  | pairs (keep : Bool) (pairs : List CandidatePair)

def handle (self : Puncher) : Event → Puncher
  | .start pairs targets now accepted => self.initiateCoordination pairs targets now accepted
  | .punchMeNow round now grace =>
    { self with nat := (self.nat.handlePeerPunchRequest round now grace).toOption.getD self.nat }
  | .request => self.sendCoordinationRequest
  | .timeout due suitable now punchStart =>
    if due then { self with nat := self.nat.handleCoordinationFailure now suitable punchStart } else self
  | .challenge now transmissionTime => (self.sendCoordinatedPathChallenge now transmissionTime).1
  | .response sequence remote token now => self.handlePathResponse sequence remote token now
  | .timer now due => { self with nat := (self.nat.timeoutRound now due).1 }
  | .addCandidate sequence address priority checks challenge =>
    { self with nat := (self.nat.handleAddAddress sequence address priority checks challenge).toOption.getD self.nat }
  | .removeCandidate sequence => { self with nat := self.nat.removeCandidate sequence }
  | .startValidation sequence challenge now =>
    { self with nat := (self.nat.startValidation sequence challenge now).toOption.getD self.nat }
  | .expire expired => { self with nat := self.nat.checkValidationTimeouts expired }
  | .pairs keep pairs => self.addPairs keep pairs

/-- A round is tried again if its count has gone up and it has not failed; a new one has not been tried again yet. -/
def step (self : Puncher) (event : Event) : Option Puncher :=
  let next := self.handle event
  let again := next.nat.coordination.any fun coord =>
    coord.state ≠ .failed ∧ self.nat.coordination.any fun before => before.retryCount < coord.retryCount
  some { next with retries := if next.nat.coordination.any fun coord => coord.retryCount = 0 then 0
    else if again then self.retries + 1 else self.retries }

end Puncher
end SaorsaTransport
