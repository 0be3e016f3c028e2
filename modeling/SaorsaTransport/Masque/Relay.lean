import SaorsaTransport.Basic
import SaorsaTransport.Library.Maps

/-! Datagrams that go through a relay: `src/masque/context.rs`, `src/masque/relay_session.rs`,
    `handle_target_datagram` of `src/masque/relay_server.rs`, and `src/masque/relay_client.rs`, without times and
    statistics. -/

namespace SaorsaTransport.Masque
open Library

inductive ContextState where
  | pending
  | active
  | closing
  | closed
  deriving DecidableEq

structure ContextInfo where
  /-- None for the uncompressed context. -/
  target : Option SocketAddr
  state : ContextState
  deriving DecidableEq

inductive ContextError where
  | idSpaceExhausted
  | duplicateUncompressed
  | duplicateTarget (target : SocketAddr)
  | unknownContext
  | invalidState
  deriving DecidableEq

structure ContextManager where
  localContexts : BTreeMap Nat ContextInfo
  remoteContexts : BTreeMap Nat ContextInfo
  targetIndex : SocketAddr → Option Nat
  uncompressedContext : Option Nat
  nextLocalId : Nat

namespace ContextManager

def new (isClient : Bool) : ContextManager := ⟨.empty, .empty, fun _ => none, none, if isClient then 2 else 1⟩

/-- Clients allocate even identifiers, servers odd ones. -/
def allocateLocal (self : ContextManager) : Except ContextError (ContextManager × Nat) :=
  if VarInt.max < self.nextLocalId then .error .idSpaceExhausted
  else .ok ({ self with nextLocalId := self.nextLocalId + 2 }, self.nextLocalId)

def index (self : ContextManager) (target : SocketAddr) (id : Nat) : SocketAddr → Option Nat :=
  fun t => if t = target then some id else self.targetIndex t

def registerCompressed (self : ContextManager) (id : Nat) (target : SocketAddr) : Except ContextError ContextManager :=
  if (self.targetIndex target).isSome then .error (.duplicateTarget target)
  else .ok { self with
    localContexts := self.localContexts.insert id ⟨some target, .pending⟩
    targetIndex := self.index target id }

def registerRemote (self : ContextManager) (id : Nat) : Option SocketAddr → Except ContextError ContextManager
  | none =>
    if self.uncompressedContext.isSome then .error .duplicateUncompressed
    else .ok { self with
      remoteContexts := self.remoteContexts.insert id ⟨none, .active⟩
      uncompressedContext := some id }
  | some target =>
    if (self.targetIndex target).isSome then .error (.duplicateTarget target)
    else .ok { self with
      remoteContexts := self.remoteContexts.insert id ⟨some target, .active⟩
      targetIndex := self.index target id }

def handleAck (self : ContextManager) (id : Nat) : Except ContextError ContextManager :=
  match self.localContexts.get id with
  | none => .error .unknownContext
  | some info =>
    if info.state ≠ .pending then .error .invalidState
    else .ok { self with localContexts := self.localContexts.insert id { info with state := .active } }

def unindex (self : ContextManager) (id : Nat) (target : Option SocketAddr) : ContextManager :=
  { self with
    targetIndex := fun t => if target = some t ∧ self.targetIndex t = some id then none else self.targetIndex t
    uncompressedContext := if self.uncompressedContext = some id then none else self.uncompressedContext }

def close (self : ContextManager) (id : Nat) : Except ContextError ContextManager :=
  match self.localContexts.get id, self.remoteContexts.get id with
  | some info, _ => .ok (unindex { self with
      localContexts := self.localContexts.insert id { info with state := .closed } } id info.target)
  | none, some info => .ok (unindex { self with
      remoteContexts := self.remoteContexts.insert id { info with state := .closed } } id info.target)
  | none, none => .error .unknownContext

def getContext (self : ContextManager) (id : Nat) : Option ContextInfo :=
  (self.localContexts.get id).or (self.remoteContexts.get id)

def getTarget (self : ContextManager) (id : Nat) : Option SocketAddr := (self.getContext id).bind (·.target)

def activeCount (self : ContextManager) : Nat :=
  ((self.localContexts.entries ++ self.remoteContexts.entries).filter fun entry => entry.2.state = .active).length

end ContextManager

inductive Capsule where
  | compressionAssign (contextId : Nat) (target : Option SocketAddr)
  | compressionAck (contextId : Nat)
  | compressionClose (contextId : Nat)
  | unknown
  deriving DecidableEq

structure CompressedDatagram where
  contextId : Nat
  payload : Bytes
  deriving DecidableEq

def bigEndian (bytes : Bytes) : Nat := bytes.foldl (fun n byte => 256 * n + byte.toNat) 0

/-- What follows the context identifier, with the target in front of the payload. -/
def decodeUncompressed : Bytes → Option (SocketAddr × Bytes)
  | [] => none
  | version :: rest =>
    if version ≠ 4 ∧ version ≠ 6 then none
    else
      let len := if version = 4 then 4 else 16
      if rest.length < len + 2 then none
      else some (⟨version = 4, bigEndian (rest.take len), bigEndian ((rest.drop len).take 2)⟩, rest.drop (len + 2))

structure Contexts where
  contextManager : ContextManager
  targetToContext : SocketAddr → Option Nat

namespace Contexts

def new (isClient : Bool) : Contexts := ⟨.new isClient, fun _ => none⟩

def setContext (self : Contexts) (target : SocketAddr) (id : Option Nat) : SocketAddr → Option Nat :=
  fun t => if t = target then id else self.targetToContext t

def register (self : Contexts) (id : Nat) (target : Option SocketAddr) : Except ContextError Contexts :=
  (self.contextManager.registerRemote id target).map fun contextManager =>
    ⟨contextManager, target.elim self.targetToContext fun t => self.setContext t (some id)⟩

/-- Allocate a context for a target. The identifier is used up even if the target has a context. -/
def allocate (self : Contexts) (target : SocketAddr) : Contexts × Option Nat :=
  match self.contextManager.allocateLocal with
  | .error _ => (self, none)
  | .ok (contextManager, id) => match contextManager.registerCompressed id target with
    | .error _ => ({ self with contextManager }, none)
    | .ok contextManager => (⟨contextManager, self.setContext target (some id)⟩, some id)

def handleAck (self : Contexts) (id : Nat) : Contexts :=
  match self.contextManager.handleAck id with
  | .ok contextManager => { self with contextManager }
  | .error _ => self

def handleClose (self : Contexts) (id : Nat) : Contexts :=
  let targetToContext := (self.contextManager.getTarget id).elim self.targetToContext fun t => self.setContext t none
  match self.contextManager.close id with
  | .ok contextManager => ⟨contextManager, targetToContext⟩
  | .error _ => { self with targetToContext }

/-- Where a datagram goes to, or comes from: by its context, or else as one that carries the address. -/
def resolve (self : Contexts) (data : CompressedDatagram) : Option (SocketAddr × Bytes) :=
  match self.contextManager.getTarget data.contextId with
  | some target => some (target, data.payload)
  | none => decodeUncompressed data.payload

end Contexts

structure RelaySession extends Contexts where
  maxContexts : Nat

namespace RelaySession

def new (maxContexts : Nat) : RelaySession := ⟨.new false, maxContexts⟩

def handleCompressionAssign (self : RelaySession) (id : Nat) (target : Option SocketAddr) : RelaySession × Option Capsule :=
  if self.maxContexts ≤ self.contextManager.activeCount ∨ target.any fun t => (self.targetToContext t).isSome then
    (self, some (.compressionClose id))
  else match self.register id target with
    | .ok toContexts => ({ self with toContexts }, some (.compressionAck id))
    | .error _ => (self, some (.compressionClose id))

def handleCapsule (self : RelaySession) : Capsule → RelaySession × Option Capsule
  | .compressionAssign id target => self.handleCompressionAssign id target
  | .compressionAck id => ({ self with toContexts := self.handleAck id }, none)
  | .compressionClose id => ({ self with toContexts := self.handleClose id }, none)
  | .unknown => (self, none)

def resolveRawDatagram (self : RelaySession) (data : CompressedDatagram) : Option (SocketAddr × Bytes) := self.resolve data

def contextForTarget (self : RelaySession) (target : SocketAddr) : RelaySession × Option Nat :=
  match self.targetToContext target with
  | some id => (self, some id)
  | none =>
    let (toContexts, id) := self.allocate target
    ({ self with toContexts }, id)

def handleTargetDatagram (self : RelaySession) (source : SocketAddr) (payload : Bytes) :
    RelaySession × Option CompressedDatagram :=
  let (self, id) := self.contextForTarget source
  (self, id.map (⟨·, payload⟩))

end RelaySession

structure MasqueRelayClient extends Contexts

namespace MasqueRelayClient

def new : MasqueRelayClient := ⟨.new true⟩

def handleCapsule (self : MasqueRelayClient) : Capsule → MasqueRelayClient × Option Capsule
  | .compressionAssign id target => match self.register id target with
    | .ok toContexts => (⟨toContexts⟩, some (.compressionAck id))
    | .error _ => (self, some (.compressionClose id))
  | .compressionAck id => (⟨self.handleAck id⟩, none)
  | .compressionClose id => (⟨self.handleClose id⟩, none)
  | .unknown => (self, none)

/-- A datagram for a target, after the capsule that announces its context if that one is new. -/
def createDatagram (self : MasqueRelayClient) (target : SocketAddr) (payload : Bytes) :
    MasqueRelayClient × Option (CompressedDatagram × Option Capsule) :=
  match (self.targetToContext target).filter fun id =>
    (self.contextManager.getContext id).any fun info => info.state = .active with
  | some id => (self, some (⟨id, payload⟩, none))
  | none =>
    let (toContexts, id) := self.allocate target
    (⟨toContexts⟩, id.map fun id => (⟨id, payload⟩, some (.compressionAssign id (some target))))

def decodeDatagram (self : MasqueRelayClient) (data : CompressedDatagram) : Option (SocketAddr × Bytes) := self.resolve data

end MasqueRelayClient

structure PendingDatagram where
  target : SocketAddr
  payload : Bytes
  createdAt : Nat
  deriving DecidableEq

/-- In milliseconds, as all times here. -/
def pendingDatagramMaxAge : Nat := 10000

/-- The client with the datagrams that wait for their context. -/
structure PendingClient extends MasqueRelayClient where
  pendingDatagrams : List PendingDatagram

namespace PendingClient

def new : PendingClient := ⟨.new, []⟩

/-- The datagram is queued, beside being returned, if its context is new. -/
def createDatagram (self : PendingClient) (target : SocketAddr) (payload : Bytes) (now : Nat) :
    PendingClient × Option (CompressedDatagram × Option Capsule) :=
  let (client, made) := self.toMasqueRelayClient.createDatagram target payload
  (⟨client, if (made.bind Prod.snd).isSome then self.pendingDatagrams ++ [⟨target, payload, now⟩]
    else self.pendingDatagrams⟩, made)

def flushPendingForContext (self : PendingClient) (id now : Nat) : PendingClient × List Bytes :=
  match self.contextManager.getTarget id with
  | none => (self, [])
  | some target =>
    ({ self with pendingDatagrams := self.pendingDatagrams.filter (·.target ≠ target) },
      (self.pendingDatagrams.filter fun d => d.target = target ∧ now - d.createdAt < pendingDatagramMaxAge).map (·.payload))

/-- What is flushed at an acknowledgement is counted in the log, and goes no further. -/
def handleCapsule (self : PendingClient) (capsule : Capsule) (now : Nat) : PendingClient × Option Capsule :=
  let (client, reply) := self.toMasqueRelayClient.handleCapsule capsule
  let self' := { self with toMasqueRelayClient := client }
  match capsule with
  | .compressionAck id => (if (self.contextManager.handleAck id).isOk then (self'.flushPendingForContext id now).1 else self', reply)
  | _ => (self', reply)

end PendingClient

inductive SessionEvent where
  | capsule (capsule : Capsule)
  | target (target : SocketAddr)

def RelaySession.step (self : RelaySession) : SessionEvent → Option RelaySession
  | .capsule capsule => some (self.handleCapsule capsule).1
  | .target target => some (self.contextForTarget target).1

/-- A client and its session, the capsules that were ever sent, and the datagrams with the target or source they were
    made for. A capsule may arrive late, or never. -/
structure Relayed where
  client : MasqueRelayClient
  session : RelaySession
  toRelay : List Capsule
  toClient : List Capsule
  outgoing : List (SocketAddr × CompressedDatagram)
  incoming : List (SocketAddr × CompressedDatagram)

namespace Relayed

def new (maxContexts : Nat) : Relayed := ⟨.new, .new maxContexts, [], [], [], []⟩

inductive Event where
  | create (target : SocketAddr) (payload : Bytes)
  /-- A datagram comes back; the relay may announce its context. -/
  | returned (source : SocketAddr) (payload : Bytes) (announce : Bool)
  | relayCapsule (capsule : Capsule)
  | clientCapsule (capsule : Capsule)

def step (self : Relayed) : Event → Option Relayed
  | .create target payload =>
    let (client, made) := self.client.createDatagram target payload
    some { self with
      client
      toRelay := (made.bind Prod.snd).toList ++ self.toRelay
      outgoing := (made.map fun datagram => (target, datagram.1)).toList ++ self.outgoing }
  | .returned source payload announce =>
    let (session, made) := self.session.handleTargetDatagram source payload
    let capsule := (made.filter fun _ => announce).map fun datagram => .compressionAssign datagram.contextId (some source)
    some { self with
      session
      toClient := capsule.toList ++ self.toClient
      incoming := (made.map fun datagram => (source, datagram)).toList ++ self.incoming }
  | .relayCapsule capsule =>
    if capsule ∈ self.toRelay then
      let (session, reply) := self.session.handleCapsule capsule
      some { self with session, toClient := reply.toList ++ self.toClient }
    else none
  | .clientCapsule capsule =>
    if capsule ∈ self.toClient then
      let (client, reply) := self.client.handleCapsule capsule
      some { self with client, toRelay := reply.toList ++ self.toRelay }
    else none

end Relayed

/-! The limits of a relay session and the ways a datagram takes through it: `check_rate_limit` and `handle_capsule` of
    `src/masque/relay_session.rs`, and of `src/masque/relay_server.rs` the forwarding functions and
    `cleanup_expired_sessions`. Times are in milliseconds. -/

structure RelaySessionConfig where
  /-- In bytes a second; zero is no limit. -/
  bandwidthLimit : Nat
  sessionTimeout : Nat
  deriving DecidableEq

structure Traffic where
  lastActivity : Nat
  windowStartMs : Nat
  bytesInWindow : Nat
  /-- What the limiter admitted, with the times. -/
  admitted : List (Nat × Nat)
  deriving DecidableEq

namespace Traffic

def admits (self : Traffic) (now bytes : Nat) : Traffic × Bool :=
  ({ self with admitted := (now, bytes) :: self.admitted }, true)

def checkRateLimit (self : Traffic) (config : RelaySessionConfig) (now bytes : Nat) : Traffic × Bool :=
  if config.bandwidthLimit = 0 then self.admits now bytes
  else if 1000 ≤ now - self.windowStartMs then
    let self := { self with windowStartMs := now, bytesInWindow := bytes }
    if bytes ≤ config.bandwidthLimit then self.admits now bytes else (self, false)
  else if config.bandwidthLimit < self.bytesInWindow + bytes then (self, false)
  else { self with bytesInWindow := self.bytesInWindow + bytes }.admits now bytes

def isTimedOut (self : Traffic) (config : RelaySessionConfig) (now : Nat) : Bool :=
  config.sessionTimeout < now - self.lastActivity

end Traffic

/-- Who takes a datagram through the relay. -/
inductive Carrier where
  | forwardDatagram
  | handleClientDatagram
  | handleTargetDatagram
  /-- The stream forwarding loop, in both directions. -/
  | streamToTarget
  | streamToClient
  deriving DecidableEq

/-- A session over time, until the sweep closes it. -/
structure Forwarding where
  now : Nat
  traffic : Traffic
  /-- The datagrams that were forwarded, with their times. -/
  forwarded : List (Nat × Nat)
  /-- A sweep has found the session timed out and is about to close it. -/
  expired : Bool
  swept : Option Nat
  deriving DecidableEq

namespace Forwarding

def new (now : Nat) : Forwarding := ⟨now, ⟨now, now, 0, []⟩, [], false, none⟩

/-- Only `forward_datagram` asks the limiter. -/
def forward (self : Forwarding) (config : RelaySessionConfig) (bytes : Nat) : Carrier → Forwarding
  | .forwardDatagram =>
    let (traffic, ok) := self.traffic.checkRateLimit config self.now bytes
    if ok then { self with traffic, forwarded := (self.now, bytes) :: self.forwarded } else { self with traffic }
  | .handleClientDatagram | .handleTargetDatagram | .streamToTarget | .streamToClient =>
    { self with forwarded := (self.now, bytes) :: self.forwarded }

def handleCapsule (self : Forwarding) : Forwarding :=
  { self with traffic := { self.traffic with lastActivity := self.now } }

/-- The sweep first collects the sessions that timed out, and then closes one after the other. -/
def findExpired (self : Forwarding) (config : RelaySessionConfig) : Forwarding :=
  { self with expired := self.expired || self.traffic.isTimedOut config self.now }

def closeExpired (self : Forwarding) : Forwarding := if self.expired then { self with swept := some self.now } else self

inductive Event where
  | elapse (ms : Nat)
  | capsule
  | forward (bytes : Nat) (carrier : Carrier)
  | find
  | close

def step (config : RelaySessionConfig) (self : Forwarding) (e : Event) : Option Forwarding :=
  if self.swept.isSome then none
  else some (match e with
    | .elapse ms => { self with now := self.now + ms }
    | .capsule => self.handleCapsule
    | .forward bytes carrier => self.forward config bytes carrier
    | .find => self.findExpired config
    | .close => self.closeExpired)

end Forwarding

/-! Sessions of a relay server, the loops that forward their datagrams and the ports it keeps for clients that come back:
    `src/masque/relay_server.rs`. Each request, close and loop is a task, and a step of it goes up to the next point where
    it may have to wait. Sockets and peers are numbered; the other checks of a request come with the step. -/

structure Session where
  clientAddress : SocketAddr
  peerId : Option Nat
  udpSocket : Nat
  deriving DecidableEq

structure Reservation where
  udpSocket : Nat
  releasedAt : Nat
  leasedTo : Nat
  deriving DecidableEq

structure Request where
  client : SocketAddr
  peer : Option Nat
  deriving DecidableEq

/-- Where a task is. A close that is part of a request goes on with the request. -/
inductive Task where
  | lock (request : Request) (peer : Nat)
  | handover (request : Request) (peer : Nat)
  | capacity (request : Request)
  | duplicate (request : Request)
  | reclaim (request : Request)
  | bindSocket (request : Request)
  /-- With the identity that the socket was leased to, if it was reserved. -/
  | insertSession (request : Request) (id : Nat) (socket : Nat) (leasedTo : Option Nat)
  | insertClient (request : Request) (id : Nat)
  | remove (id : Nat) (next : Option Request)
  | readForwarding (id : Nat) (session : Session) (next : Option Request)
  | awaitLoop (session : Session) (loop : Nat) (next : Option Request)
  | removeClient (session : Session) (next : Option Request)
  | lease (session : Session) (next : Option Request)
  | recordTerminated (next : Option Request)
  | claim (id : Nat)
  | readSession (id : Nat)
  | running (id : Nat) (socket : Nat)
  | finishing (id : Nat) (close : Bool)
  deriving DecidableEq

structure RelayServer where
  maxSessions : UInt64
  maxReservations : Nat
  sessions : BTreeMap Nat Session
  clientToSession : SocketAddr → Option Nat
  /-- A counter apart from the sessions. -/
  activeSessions : UInt64
  nextSessionId : Nat
  forwarding : Nat → Option Nat
  cancelled : Nat → Bool
  done : Nat → Bool
  peerLocks : Nat → Bool
  reservations : BTreeMap Nat Reservation
  tasks : Nat → Option Task
  nextTask : Nat
  nextSocket : Nat
  now : Nat

namespace RelayServer

def new (maxSessions : UInt64) (maxReservations : Nat) : RelayServer where
  maxSessions
  maxReservations
  sessions := .empty
  clientToSession _ := none
  activeSessions := 0
  nextSessionId := 1
  forwarding _ := none
  cancelled _ := false
  done _ := false
  peerLocks _ := false
  reservations := .empty
  tasks _ := none
  nextTask := 0
  nextSocket := 0
  now := 0

def setTask (self : RelayServer) (task : Nat) (value : Option Task) : RelayServer :=
  { self with tasks := fun t => if t = task then value else self.tasks t }

def setClient (self : RelayServer) (client : SocketAddr) (id : Option Nat) : RelayServer :=
  { self with clientToSession := fun c => if c = client then id else self.clientToSession c }

def setForwarding (self : RelayServer) (id : Nat) (loop : Option Nat) : RelayServer :=
  { self with forwarding := fun i => if i = id then loop else self.forwarding i }

def setLock (self : RelayServer) (peer : Option Nat) (held : Bool) : RelayServer :=
  { self with peerLocks := fun p => if some p = peer then held else self.peerLocks p }

def answer (self : RelayServer) (task : Nat) (request : Request) : RelayServer :=
  (self.setLock request.peer false).setTask task none

def closed (self : RelayServer) (task : Nat) (next : Option Request) : RelayServer :=
  match next with
  | some request => self.setTask task (some (.capacity request))
  | none => self.setTask task none

/-- Keep the socket of a session for its identity; the least recently released reservation makes room. -/
def leaseReservation (self : RelayServer) (session : Session) : RelayServer where
  __ := self
  reservations := match session.peerId with
    | none => self.reservations
    | some peer =>
      let lru := (self.reservations.entries.argmin (·.2.releasedAt)).map Prod.fst
      let rest :=
        if self.maxReservations ≤ self.reservations.len ∧ (self.reservations.get peer).isNone then
          lru.elim self.reservations self.reservations.remove
        else self.reservations
      rest.insert peer ⟨session.udpSocket, self.now, peer⟩
  now := self.now + 1

/-- The reservation of an identity, if it is usable. -/
def reclaimReservation (self : RelayServer) (peer : Nat) (usable : Bool) : Option Reservation :=
  (self.reservations.get peer).filter fun _ => usable

/-- Number a session for which a socket was found. -/
def createSession (self : RelayServer) (task : Nat) (request : Request) (socket : Nat) (leasedTo : Option Nat) : RelayServer :=
  { self with nextSessionId := self.nextSessionId + 1 }.setTask task
    (some (.insertSession request self.nextSessionId socket leasedTo))

def advance (self : RelayServer) (task : Nat) (choice : Bool) : Task → Option RelayServer
  | .lock request peer =>
    if self.peerLocks peer then none else some ((self.setLock (some peer) true).setTask task (some (.handover request peer)))
  | .handover request peer =>
    match self.sessions.entries.find? fun entry => entry.2.peerId = some peer with
    | some (id, _) => some (self.setTask task (some (.remove id (some request))))
    | none => some (self.setTask task (some (.capacity request)))
  | .capacity request =>
    if self.maxSessions ≤ self.activeSessions then some (self.answer task request)
    else some (self.setTask task (some (.duplicate request)))
  | .duplicate request =>
    if (self.clientToSession request.client).isSome || !choice then some (self.answer task request)
    else some (self.setTask task (some (.reclaim request)))
  | .reclaim request =>
    match request.peer with
    | none => some (self.setTask task (some (.bindSocket request)))
    | some peer =>
      -- It is taken out of the map in any case.
      let rest := { self with reservations := self.reservations.remove peer }
      match self.reclaimReservation peer choice with
      | some reservation => some (rest.createSession task request reservation.udpSocket (some reservation.leasedTo))
      | none => some (rest.setTask task (some (.bindSocket request)))
  -- `UdpSocket::bind` may fail.
  | .bindSocket request =>
    if choice then some ({ self with nextSocket := self.nextSocket + 1 }.createSession task request self.nextSocket none)
    else some (self.answer task request)
  | .insertSession request id socket _ =>
    some ({ self with sessions := self.sessions.insert id ⟨request.client, request.peer, socket⟩ }.setTask task
      (some (.insertClient request id)))
  | .insertClient request id =>
    some ({ self with activeSessions := self.activeSessions + 1 }.setClient request.client (some id) |>.answer task request)
  | .remove id next =>
    match self.sessions.get id with
    | some session => some ({ self with sessions := self.sessions.remove id }.setTask task
        (some (.readForwarding id session next)))
    | none => some (self.closed task next)
  | .readForwarding id session next =>
    match self.forwarding id with
    | some loop => some ({ self with cancelled := fun l => l = loop || self.cancelled l }.setTask task
        (some (.awaitLoop session loop next)))
    | none => some (self.setTask task (some (.removeClient session next)))
  | .awaitLoop session loop next =>
    if self.done loop then some (self.setTask task (some (.removeClient session next))) else none
  | .removeClient session next =>
    some ((self.setClient session.clientAddress none).setTask task (some (.lease session next)))
  | .lease session next => some ((self.leaseReservation session).setTask task (some (.recordTerminated next)))
  | .recordTerminated next => some ({ self with activeSessions := self.activeSessions - 1 }.closed task next)
  | .claim id =>
    if (self.forwarding id).isSome then some (self.setTask task none)
    else some ((self.setForwarding id (some task)).setTask task (some (.readSession id)))
  | .readSession id =>
    match self.sessions.get id with
    | some session => some (self.setTask task (some (.running id session.udpSocket)))
    | none => some (self.setTask task (some (.finishing id false)))
  | .running id _ => if choice || self.cancelled task then some (self.setTask task (some (.finishing id true))) else none
  -- On a handover the close that cancelled the loop goes on.
  | .finishing id close =>
    let rest := { self with done := fun l => l = task || self.done l }.setForwarding id none
    if close && !self.cancelled task then some (rest.setTask task (some (.remove id none))) else some (rest.setTask task none)

inductive Event where
  | connect (request : Request)
  | close (id : Nat)
  | forward (id : Nat)
  | advance (task : Nat) (choice : Bool)
  /-- Reservations that were kept for too long are dropped. -/
  | expire (stale : List Nat)

def spawn (self : RelayServer) (task : Task) : RelayServer :=
  { self with nextTask := self.nextTask + 1 }.setTask self.nextTask (some task)

def step (self : RelayServer) : Event → Option RelayServer
  | .connect request => some (self.spawn (request.peer.elim (.capacity request) (.lock request)))
  | .close id => some (self.spawn (.remove id none))
  | .forward id => some (self.spawn (.claim id))
  | .advance task choice => (self.tasks task).bind (self.advance task choice)
  | .expire stale => some { self with reservations := stale.foldl BTreeMap.remove self.reservations }

end RelayServer
end SaorsaTransport.Masque
