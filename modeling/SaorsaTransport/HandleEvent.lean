import SaorsaTransport.PollTransmit

/-! What a connection does with the datagrams it receives, as far as its state, its paths and its NAT traversal are
    concerned: `handle_event`, `handle_packet`, `process_payload` and `handle_timeout` of `src/connection/mod.rs`. -/

namespace SaorsaTransport.Transmission
open Library

inductive Frame where
  | pathChallenge (token : Nat)
  /-- With the candidate that has the address, and whether the best pair so far is one with that address. -/
  | pathResponse (token sequence : Nat) (best : Bool)
  | close (reason : Close)
  | addAddress (sequence : Nat) (address : SocketAddr) (priority : Nat) (checks : CandidateChecks) (token : Nat)
  | removeAddress (sequence : Nat)
  | punchMeNow (round grace : Nat)
  | newConnectionId
  | padding
  | other
  /-- A frame that cannot be decoded or that is in error. -/
  | invalid (error : TransportError)
  deriving DecidableEq

inductive EarlyFrame where
  | close (reason : Close)
  | other
  | invalid (error : TransportError)
  deriving DecidableEq

inductive Packet where
  | dropped
  /-- A stateless reset, or a packet that cannot be processed. -/
  | failed (error : ConnectionError)
  | initial (frames : List EarlyFrame)
  | handshake (frames : List EarlyFrame) (complete : Bool)
  /-- A packet of the data space, and whether it has the highest number so far. -/
  | data (zeroRtt : Bool) (number : Nat) (newest : Bool) (frames : List Frame)
  deriving DecidableEq

structure Datagram where
  remote : SocketAddr
  first : Packet
  firstLen : Nat
  remaining : Option (Nat × List Packet)

structure MigrationContext where
  config : PathConfig
  allowMtud : Bool
  peerMaxUdpPayloadSize : Nat
  /-- The challenges for the new and for the previous path. -/
  token : Nat
  prevToken : Nat
  now : Nat

namespace Frame

def isProbing : Frame → Bool
  | .padding | .pathChallenge _ | .pathResponse _ _ _ | .newConnectionId => true
  | _ => false

end Frame

namespace Connection
variable (context : MigrationContext)

def onPathValidated (self : Connection) : Connection := { self with path := { self.path with validated := true } }

def migrate (self : Connection) (remote : SocketAddr) : Connection :=
  let newPath := if remote.ipv4 ∧ remote.ip = self.path.remote.ip then PathData.fromPrevious remote self.path
    else PathData.new remote context.allowMtud (some context.peerMaxUdpPayloadSize) context.config
  { self with
    path := { newPath with challenge := some context.token, challengePending := true }
    -- Don't clobber the original path if the previous one hasn't been validated yet.
    prevPath := if self.path.challenge.isNone then
        some { self.path with challenge := some context.prevToken, challengePending := true }
      else self.prevPath
    pathValidation := true }

/-- A response that is not for the current path may be one for a candidate. -/
def onCandidateResponse (self : Connection) (remote : SocketAddr) (token sequence : Nat) (best : Bool) : Connection :=
  match self.natTraversal with
  | none => self
  | some nat => match nat.handleValidationSuccess sequence remote token with
    | .error _ => self
    | .ok nat =>
      let (nat, succeeded) := nat.handleCoordinationSuccess remote context.now
      let self := { self with natTraversal := some nat }
      if succeeded ∧ (self.side = .client ∨ self.migration) ∧ best ∧ remote ≠ self.path.remote then
        self.migrate context remote
      else self

def onPathResponse (self : Connection) (remote : SocketAddr) (token sequence : Nat) (best : Bool) : Connection :=
  if self.path.challenge = some token ∧ remote = self.path.remote then
    { self with
      pathValidation := false
      path := { self.path with challenge := none, validated := true }
      prevPath := self.prevPath.map fun prev => { prev with challenge := none, challengePending := false } }
  else self.onCandidateResponse context remote token sequence best

def negotiationError (frame : String) : TransportError :=
  ⟨.protocolViolation, frame ++ " frame without NAT traversal negotiation"⟩

def handleAddAddress (self : Connection) (sequence : Nat) (address : SocketAddr) (priority : Nat)
    (checks : CandidateChecks) (token : Nat) : Except TransportError Connection :=
  match self.natTraversal with
  | none => .error (negotiationError "AddAddress")
  | some nat =>
    -- The peer's own address needs no validation.
    if address.ipv4 = self.path.remote.ipv4 ∧ address.ip = self.path.remote.ip then .ok self
    else match nat.handleAddAddress sequence address priority checks token with
      | .error .tooManyCandidates => .error ⟨.protocolViolation, "too many NAT traversal candidates"⟩
      | .error _ => .ok self
      | .ok nat => .ok { self with natTraversal := some nat }

def handleRemoveAddress (self : Connection) (sequence : Nat) : Except TransportError Connection :=
  match self.natTraversal with
  | none => .error (negotiationError "RemoveAddress")
  | some nat => .ok { self with natTraversal := some (nat.removeCandidate sequence) }

def handlePunchMeNow (self : Connection) (round grace : Nat) : Except TransportError Connection :=
  match self.natTraversal with
  | none => .error (negotiationError "PunchMeNow")
  | some nat => match nat.handlePeerPunchRequest round context.now grace with
    | .error _ => .error ⟨.protocolViolation, "Failed to handle peer punch request"⟩
    | .ok nat => .ok { self with natTraversal := some nat }

def processFrame (remote : SocketAddr) (number : Nat) (self : Connection) :
    Frame → Except TransportError Connection
  | .pathChallenge token => .ok { self with pathResponses := self.pathResponses.push number token remote }
  | .pathResponse token sequence best => .ok (self.onPathResponse context remote token sequence best)
  | .addAddress sequence address priority checks token => self.handleAddAddress sequence address priority checks token
  | .removeAddress sequence => self.handleRemoveAddress sequence
  | .punchMeNow round grace => self.handlePunchMeNow context round grace
  | .invalid error => .error error
  | .close _ | .newConnectionId | .padding | .other => .ok self

/-- The frames one after another; what an error leaves behind stays. -/
def processFrames (remote : SocketAddr) (number : Nat) : Connection → List Frame → Connection × Option TransportError
  | self, [] => (self, none)
  | self, frame :: frames => match self.processFrame context remote number frame with
    | .error e => (self, some e)
    | .ok self => processFrames remote number self frames

def hasClose (frames : List Frame) : Bool :=
  frames.any fun frame => match frame with | .close _ => true | _ => false

def emptyPayload : TransportError := ⟨.protocolViolation, "packet payload is empty"⟩

def processPayload (self : Connection) (remote : SocketAddr) (number : Nat) (newest : Bool) (frames : List Frame) :
    Connection × Option TransportError :=
  if frames = [] then (self, some emptyPayload)
  else match self.processFrames context remote number frames with
    | (self, some e) => (self, some e)
    | (self, none) =>
      let self := if hasClose frames then { self with state := .draining, close := true } else self
      if remote ≠ self.path.remote ∧ !frames.all (·.isProbing) ∧ newest then
        if self.side = .client then
          (self, some ⟨.protocolViolation, "packets from unknown remote should be dropped by clients"⟩)
        else (self.migrate context remote, none)
      else (self, none)

def processEarlyFrames : Connection → List EarlyFrame → Connection × Option TransportError
  | self, [] => (self, none)
  | self, .other :: frames => processEarlyFrames self frames
  | self, .close _ :: _ => ({ self with state := .draining }, none)
  | self, .invalid error :: _ => (self, some error)

def processEarlyPayload (self : Connection) (frames : List EarlyFrame) : Connection × Option TransportError :=
  if frames = [] then (self, some emptyPayload) else self.processEarlyFrames frames

/-- A Handshake packet proves that the peer receives what is sent to its address. -/
def processHandshake (self : Connection) (frames : List EarlyFrame) (complete : Bool) :
    Connection × Option TransportError :=
  match self.onPathValidated.processEarlyPayload frames with
  | (self, some e) => (self, some e)
  | (self, none) =>
    if !self.state.isClosed ∧ complete then ({ self with state := .established }, none) else (self, none)

def drainAtClose (self : Connection) (empty close : Bool) : Connection × Option TransportError :=
  if empty then (self, some emptyPayload) else (if close then { self with state := .draining } else self, none)

def hasEarlyClose (frames : List EarlyFrame) : Bool :=
  frames.any fun frame => match frame with | .close _ => true | _ => false

def processDecryptedPacket (self : Connection) (remote : SocketAddr) : Packet → Connection × Option ConnectionError
  | .dropped => (self, none)
  | .failed error => (self, some error)
  | .initial frames => asError (match self.state with
    | .handshake _ | .established => self.processEarlyPayload frames
    | .closed _ => self.drainAtClose frames.isEmpty (hasEarlyClose frames)
    | .draining | .drained => (self, none))
  | .handshake frames complete => asError (match self.state with
    | .handshake _ => self.processHandshake frames complete
    | .established => self.processEarlyPayload frames
    | .closed _ => self.drainAtClose frames.isEmpty (hasEarlyClose frames)
    | .draining | .drained => (self, none))
  | .data zeroRtt number newest frames => asError (match self.state with
    -- 1-RTT packets are not processed before the handshake is complete.
    | .handshake _ => if zeroRtt then self.processPayload context remote number newest frames else (self, none)
    | .established => self.processPayload context remote number newest frames
    | .closed _ => self.drainAtClose frames.isEmpty (hasClose frames)
    | .draining | .drained => (self, none))
where
  asError : Connection × Option TransportError → Connection × Option ConnectionError
  | (self, error) => (self, error.map .transportError)

def settle (wasClosed : Bool) (remote : SocketAddr) (self : Connection) (error : Option ConnectionError) : Connection :=
  let self := { self with state := (error.bind (·.toState)).getD self.state }
  let self := if !wasClosed && self.state.isClosed then { self with pathValidation := false } else self
  match self.state with
  -- Transmit CONNECTION_CLOSE if necessary.
  | .closed _ => { self with close := remote = self.path.remote }
  | _ => self

def handlePacket (self : Connection) (remote : SocketAddr) (packet : Packet) : Connection :=
  if packet = .dropped then self
  else
    let (processed, error) := self.processDecryptedPacket context remote packet
    processed.settle self.state.isClosed remote error

def remoteMayMigrate (self : Connection) : Bool := self.side = .server && self.migration

def credit (self : Connection) (len : Nat) : Connection :=
  { self with path := { self.path with totalRecvd := self.path.totalRecvd + len } }

def handleCoalesced (self : Connection) (remote : SocketAddr) (len : Nat) (packets : List Packet) : Connection :=
  packets.foldl (fun self packet => self.handlePacket context remote packet) (self.credit len)

/-- The data is accounted for after the first packet is processed, which could have triggered a migration. -/
def handleEvent (self : Connection) (datagram : Datagram) : Connection :=
  if datagram.remote ≠ self.path.remote ∧ !self.remoteMayMigrate then self
  else
    let self := (self.handlePacket context datagram.remote datagram.first).credit datagram.firstLen
    datagram.remaining.elim self fun remaining =>
      self.handleCoalesced context datagram.remote remaining.1 remaining.2

def onPathValidationTimeout (self : Connection) : Connection :=
  if self.pathValidation then
    let self := match self.prevPath with
      | some prev => { self with path := prev, prevPath := none }
      | none => self
    { self with pathValidation := false, path := { self.path with challenge := none, challengePending := false } }
  else self

/-- A challenge for each pair to be validated; the last one stays. -/
def startNatTraversalValidation (self : Connection) (tokens : List Nat) : Connection :=
  let path := tokens.foldl (fun path token => { path with challenge := some token, challengePending := true }) self.path
  { self with path, pathValidation := true }

def onNatTimeoutAction (tokens : List Nat) (self : Connection) : NatTraversalState.TimeoutAction → Connection
  | .startValidation => if self.natTraversal.isNone then self else self.startNatTraversalValidation tokens
  | .failed => { self with natTraversal := none }

def handleNatTraversalTimeout (self : Connection) (now : Nat) (due : Bool) (expired : List SocketAddr)
    (revalidate : Bool) (tokens : List Nat) : Connection :=
  match self.natTraversal with
  | none => self
  | some nat =>
    let (nat, actions) := nat.handleTimeout now due expired revalidate
    actions.foldl (onNatTimeoutAction tokens) { self with natTraversal := some nat }

/-- Start a round with the given targets, if there is a request to be sent. -/
def initiateCoordination (self : Connection) (targets : List PunchTarget) (now : Nat) (accepted : Bool) : Connection :=
  { self with natTraversal := self.natTraversal.map (·.initiateCoordination targets now accepted) }

def validateNatCandidates (self : Connection) (chosen : List (Nat × Nat)) (now : Nat) : Connection :=
  { self with natTraversal := self.natTraversal.map fun nat => chosen.foldl (fun nat candidate =>
      match nat.startValidation candidate.1 candidate.2 now with
      | .ok nat => nat
      | .error _ => nat) nat }

end Connection

inductive Event where
  | datagram (context : MigrationContext) (datagram : Datagram)
  | poll (supply : Supply)
  | close (reason : Close)
  | closeTimer
  | idleTimer
  | pathTimer
  | natTimer (now : Nat) (due : Bool) (expired : List SocketAddr) (revalidate : Bool) (tokens : List Nat)
  | coordinate (targets : List PunchTarget) (now : Nat) (accepted : Bool)
  | validateCandidates (chosen : List (Nat × Nat)) (now : Nat)
  /-- The peer's transport parameters allow NAT traversal. -/
  | negotiate (maxCandidates : Nat)
  | keys (hasKeys : SpaceId → Bool) (hasZeroRttKeys : Bool) (highestSpace : SpaceId)
  | acks (pendingAcks : SpaceId → Bool)
  /-- The discovery of the path MTU learns from acknowledgements and losses. -/
  | mtu (mtud : MtuDiscovery)

def Connection.step (self : Connection) : Event → Option (Connection × Option Transmit)
  | .datagram context datagram => some (self.handleEvent context datagram, none)
  | .poll supply => self.pollTransmit supply
  | .close reason => some (self.closeInner reason, none)
  | .closeTimer => some (if self.state.isClosed then { self with state := .drained } else self, none)
  | .idleTimer => some (if self.state.isClosed then self else self.kill, none)
  | .pathTimer => some (self.onPathValidationTimeout, none)
  | .natTimer now due expired revalidate tokens =>
    some (if self.state.isClosed then self
      else self.handleNatTraversalTimeout now due expired revalidate tokens, none)
  | .coordinate targets now accepted => some (self.initiateCoordination targets now accepted, none)
  | .validateCandidates chosen now => some (self.validateNatCandidates chosen now, none)
  | .negotiate maxCandidates => some ({ self with natTraversal := some (.new maxCandidates) }, none)
  | .keys hasKeys hasZeroRttKeys highestSpace => some ({ self with hasKeys, hasZeroRttKeys, highestSpace }, none)
  | .acks pendingAcks => some ({ self with pendingAcks }, none)
  | .mtu mtud => some ({ self with path := { self.path with mtud } }, none)

def Connection.new (side : Side) (migration : Bool) (remote : SocketAddr) (allowMtud : Bool) (config : PathConfig) :
    Connection where
  side := side
  migration := migration
  state := .handshake ⟨side = .server, [], none⟩
  close := false
  hasKeys := fun space => space = .initial
  hasZeroRttKeys := false
  highestSpace := .initial
  path := .new remote allowMtud none config
  prevPath := none
  pathValidation := false
  pathResponses := ⟨[]⟩
  natTraversal := none
  pendingAcks := fun _ => false

end SaorsaTransport.Transmission
