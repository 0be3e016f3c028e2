import SaorsaTransport.Packet

/-! The keys of a connection, key updates and the limits of the cipher, after `src/connection/packet_crypto.rs`,
    `src/connection/packet_builder.rs` and `src/connection/mod.rs`. The cipher is ideal: a packet opens under the key and
    the number it was sealed with only. A timer that is armed may fire at any moment. -/

namespace SaorsaTransport
open Library

inductive KeyId where
  /-- The keys derived from the identifier of the server that was in use at the `attempt`-th try. -/
  | initial (attempt : Nat)
  | handshake
  | zeroRtt
  | oneRtt (generation : Nat)
  deriving DecidableEq

/-- How many packets may be sealed under a key, and how many forgeries it stands. The keys of all generations
    belong to one cipher suite, and a suite allows for as many packets as the first phase may last. -/
structure AeadLimits where
  confidentialityLimit : KeyId → Nat
  integrityLimit : KeyId → Nat
  oneRtt_eq : ∀ g, confidentialityLimit (.oneRtt g) = confidentialityLimit (.oneRtt 0)
  oneRtt_large : 1000 ≤ confidentialityLimit (.oneRtt 0)
  zeroRtt_large : 1000 ≤ confidentialityLimit .zeroRtt

structure Packet where
  header : Header
  /-- The key and the number the packet was sealed with; nothing if it is forged or not protected. -/
  sealedWith : Option (KeyId × Nat)
  reservedBitsValid : Bool
  deriving DecidableEq

def Packet.decrypt (packet : Packet) (key : KeyId) (number : Nat) : Bool := packet.sealedWith == some (key, number)

structure KeySpace where
  crypto : Option KeyId
  rxPacket : Nat
  dedup : Dedup
  nextPacketNumber : Nat
  largestAckedPacket : Option Nat
  sentWithKeys : Nat

namespace KeySpace

def new : KeySpace := ⟨none, 0, Dedup.new, 0, none, 0⟩

def getTxNumber (self : KeySpace) : Option (Nat × KeySpace) :=
  if self.nextPacketNumber < 2 ^ 62 then
    some (self.nextPacketNumber,
      { self with nextPacketNumber := self.nextPacketNumber + 1, sentWithKeys := self.sentWithKeys + 1 })
  else none

end KeySpace

/-- Skips packet numbers, so that a peer which acknowledges what it has not seen is found out. -/
structure PacketNumberFilter where
  nextSkippedPacketNumber : Nat
  prevSkippedPacketNumber : Option Nat
  /-- The next number to skip is randomly selected from `2^n..2^(n+1)`. -/
  exponent : Nat

namespace PacketNumberFilter

/-- The first number that is skipped is one of `0..64`. -/
def new (draw : Nat) : PacketNumberFilter := ⟨draw % 64, none, 6⟩

def peek (self : PacketNumberFilter) (space : KeySpace) : Nat :=
  if space.nextPacketNumber ≠ self.nextSkippedPacketNumber then space.nextPacketNumber else space.nextPacketNumber + 1

/-- The number of the next packet; `draw` is the random choice, if one is made. -/
def allocate (self : PacketNumberFilter) (draw : Nat) (space : KeySpace) :
    Option (Nat × KeySpace × PacketNumberFilter) := do
  let (n, space) ← space.getTxNumber
  if n ≠ self.nextSkippedPacketNumber then some (n, space, self)
  else
    space.getTxNumber.map fun (n, space) =>
      (n, space, ⟨2 ^ self.exponent + draw % 2 ^ self.exponent, some self.nextSkippedPacketNumber, self.exponent + 1⟩)

def checkAck (self : PacketNumberFilter) (spaceId : SpaceId) (range : Nat × Nat) : Except TransportError Unit :=
  if spaceId = .data ∧ (self.prevSkippedPacketNumber.any fun x => range.1 ≤ x && x ≤ range.2) then
    .error ⟨.protocolViolation, "unsent packet acked"⟩
  else .ok ()

end PacketNumberFilter

structure PrevCrypto where
  crypto : KeyId
  /-- The incoming packet that ends the interval for which these keys are applicable. -/
  endPacket : Option Nat
  /-- Whether the following key phase is from a remotely initiated update that we haven't acked. -/
  updateUnacked : Bool
  deriving DecidableEq

def PrevCrypto.acked (prev : PrevCrypto) : PrevCrypto := { prev with updateUnacked := false }

/-- A connection as far as its keys and its state are concerned. -/
structure KeyedConnection where
  side : Side
  state : State
  error : Option ConnectionError
  close : Bool
  remote : SocketAddr
  handshakeCid : ConnectionId
  remHandshakeCid : ConnectionId
  version : Nat
  token : Bytes
  spaces : SpaceId → KeySpace
  highestSpace : SpaceId
  zeroRttCrypto : Bool
  keyPhase : Bool
  keyPhaseSize : Nat
  prevCrypto : Option PrevCrypto
  nextCrypto : Option KeyId
  /-- The generation of 1-RTT keys that the cryptographic session hands out next. -/
  session : Nat
  keyDiscard : Bool
  packetNumberFilter : PacketNumberFilter
  authenticationFailures : Nat
  totalAuthedPackets : Nat

namespace KeyedConnection

def setSpace (self : KeyedConnection) (space : SpaceId) (value : KeySpace) : KeyedConnection :=
  { self with spaces := Function.update self.spaces space value }

def closeCommon (self : KeyedConnection) : KeyedConnection := { self with keyDiscard := false }

def closeInner (self : KeyedConnection) (reason : Close) : KeyedConnection :=
  if self.state.isClosed then self else { self.closeCommon with close := true, state := .closed reason }

def kill (self : KeyedConnection) (reason : ConnectionError) : KeyedConnection :=
  { self.closeCommon with error := some reason, state := .drained }

def restartInitial (self : KeyedConnection) (token : Bytes) : Option KeyedConnection :=
  match (self.spaces .initial).crypto with
  | some (.initial attempt) =>
    some { self.setSpace .initial { KeySpace.new with
        crypto := some (.initial (attempt + 1)), nextPacketNumber := (self.spaces .initial).nextPacketNumber } with
      token, totalAuthedPackets := self.totalAuthedPackets + 1, state := .handshake ⟨false, [], none⟩ }
  | _ => none

def discardSpace (self : KeyedConnection) (space : SpaceId) : KeyedConnection :=
  { self.setSpace space { self.spaces space with crypto := none } with
    token := if space = .initial ∧ self.side = .client then [] else self.token }

/-- Give up Initial packets at the first Handshake packet, if this is the given side. -/
def stopInitial (self : KeyedConnection) (side : Side) (space : SpaceId) : KeyedConnection :=
  if (self.spaces .initial).crypto.isSome ∧ space = .handshake ∧ self.side = side then self.discardSpace .initial
  else self

def upgradeCrypto (self : KeyedConnection) (space : SpaceId) (crypto : KeyId) : KeyedConnection :=
  let self := if space = .data then { self with nextCrypto := some (.oneRtt self.session), session := self.session + 1 }
    else self
  { self.setSpace space { self.spaces space with crypto := some crypto } with
    highestSpace := space
    zeroRttCrypto := self.zeroRttCrypto && !(space = .data && self.side = .client) }

section
variable (limits : AeadLimits)

/-- Perform key updates this many packets before the confidentiality limit. -/
def keyUpdateMargin : Nat := 10000

def updateKeys (self : KeyedConnection) (endPacket : Option Nat) (remote : Bool) : Option KeyedConnection := do
  let new : KeyId := .oneRtt self.session
  let next ← self.nextCrypto
  let old ← (self.spaces .data).crypto
  some { self.setSpace .data { self.spaces .data with crypto := some next, sentWithKeys := 0 } with
    session := self.session + 1
    keyPhaseSize := limits.confidentialityLimit new - keyUpdateMargin
    nextCrypto := some new
    prevCrypto := some ⟨old, endPacket, remote⟩
    keyPhase := !self.keyPhase }

def forceKeyUpdate (self : KeyedConnection) : Option KeyedConnection :=
  if !self.state.isEstablished then some self
  else if self.prevCrypto.isSome then some self
  else self.updateKeys limits none false

/-- The key that packets of the space are sealed with; without one the program stops. -/
def sealingKey (self : KeyedConnection) (space : SpaceId) : Option KeyId :=
  match (self.spaces space).crypto with
  | some key => some key
  | none => if space = .data ∧ self.zeroRttCrypto then some .zeroRtt else none

/-- What has to be done about the limit of the keys of an early space, and whether a packet may be built. The count
    stays below 2^62, as packet numbers do, so the addition of the source does not saturate. -/
def checkLimit (self : KeyedConnection) (space : SpaceId) (key : KeyId) : KeyedConnection × Bool :=
  if (self.spaces space).sentWithKeys + 1 = limits.confidentialityLimit key then
    -- We still have time to attempt a graceful close.
    (self.closeInner (.connection ⟨.aeadLimitReached, "confidentiality limit reached"⟩), true)
  else if limits.confidentialityLimit key < (self.spaces space).sentWithKeys then
    (self.kill (.transportError ⟨.aeadLimitReached, "confidentiality limit reached"⟩), false)
  else (self, true)

def prepareKeys (self : KeyedConnection) (space : SpaceId) : Option (KeyedConnection × Bool) :=
  if space = .data then
    if self.keyPhaseSize ≤ (self.spaces .data).sentWithKeys then (self.forceKeyUpdate limits).map fun self => (self, true)
    else some (self, true)
  else
    ((self.spaces space).crypto.or (if self.zeroRttCrypto then some .zeroRtt else none)).map fun key =>
      self.checkLimit limits space key

def allocateNumber (self : KeyedConnection) (space : SpaceId) (draw : Nat) : Option (Nat × KeyedConnection) :=
  if space = .data then
    (self.packetNumberFilter.allocate draw (self.spaces .data)).map fun (n, value, packetNumberFilter) =>
      (n, { self.setSpace .data value with packetNumberFilter })
  else (self.spaces space).getTxNumber.map fun (n, value) => (n, self.setSpace space value)

def header (self : KeyedConnection) (space : SpaceId) (number : PacketNumber) : Header :=
  match space with
  | .data => if (self.spaces .data).crypto.isSome then .short self.keyPhase number else .long .zeroRtt self.handshakeCid number
  | .handshake => .long .handshake self.handshakeCid number
  | .initial => .initial (if self.side = .client then self.token else []) self.handshakeCid number

def sealPacket (self : KeyedConnection) (space : SpaceId) (draw : Nat) : Option (KeyedConnection × Option Packet) := do
  let (n, self) ← self.allocateNumber space draw
  let number ← PacketNumber.new n ((self.spaces space).largestAckedPacket.getD 0)
  let key ← self.sealingKey space
  some (self, some ⟨self.header space number.onWire, some (key, n), true⟩)

/-- Build a packet: `PacketBuilder::new` and `PacketBuilder::finish`. -/
def buildPacket (self : KeyedConnection) (space : SpaceId) (draw : Nat) : Option (KeyedConnection × Option Packet) := do
  let (self, proceed) ← self.prepareKeys limits space
  if proceed then self.sealPacket space draw else some (self, none)

def transmit (self : KeyedConnection) (space : SpaceId) (draw : Nat) : Option (KeyedConnection × Option Packet) :=
  -- A client stops both sending and processing Initial packets when it sends its first Handshake packet.
  let self := self.stopInitial .client space
  let self := { self with prevCrypto := self.prevCrypto.map PrevCrypto.acked }
  self.buildPacket limits space draw

/-- The key to open a packet with, and whether it is that of the next phase; without one the program stops. -/
def openingKey (self : KeyedConnection) (header : Header) (number : Nat) : Option (KeyId × Bool) :=
  if header.is0rtt then if self.zeroRttCrypto then some (.zeroRtt, false) else none
  else if header.keyPhase = self.keyPhase ∨ header.space ≠ .data then
    (self.spaces header.space).crypto.map fun key => (key, false)
  else
    -- Use the previous keys when this packet precedes the peer's acknowledgment of the key update.
    match self.prevCrypto.filter fun prev => prev.endPacket.all fun pn => number < pn with
    | some prev => some (prev.crypto, false)
    | none => self.nextCrypto.map fun key => (key, true)

structure DecryptPacketResult where
  number : Nat
  outgoingKeyUpdateAcked : Bool
  incomingKeyUpdate : Bool

/-- Decrypts a packet's body. An error without a reason is a packet that failed to authenticate. -/
def decryptPacketBody (self : KeyedConnection) (packet : Packet) :
    Option (Except (Option TransportError) (Option DecryptPacketResult)) :=
  if !packet.header.isProtected then some (.ok none)
  else
    match packet.header.number with
    | none => some (.error none)
    | some truncated => do
      let rxPacket := (self.spaces packet.header.space).rxPacket
      let number := truncated.expand (rxPacket + 1)
      let (key, cryptoUpdate) ← self.openingKey packet.header number
      if !packet.decrypt key number then some (.error none)
      else if !packet.reservedBitsValid then some (.error (some ⟨.protocolViolation, "reserved bits set"⟩))
      else if cryptoUpdate ∧ (number ≤ rxPacket ∨ self.prevCrypto.any (·.updateUnacked)) then
        some (.error (some ⟨.keyUpdateError, ""⟩))
      else
        some (.ok (some
          { number
            outgoingKeyUpdateAcked :=
              self.prevCrypto.any (·.endPacket.isNone) && packet.header.keyPhase == self.keyPhase
            incomingKeyUpdate := cryptoUpdate }))

def setKeyDiscardTimer (self : KeyedConnection) : Option KeyedConnection :=
  if self.zeroRttCrypto then some { self with keyDiscard := true }
  else do
    let prev ← self.prevCrypto
    let _ ← prev.endPacket
    some { self with keyDiscard := true }

def acknowledgeUpdate (self : KeyedConnection) (result : DecryptPacketResult) : Option KeyedConnection :=
  if result.outgoingKeyUpdateAcked then
    match self.prevCrypto with
    | some prev => { self with prevCrypto := some { prev with endPacket := some result.number } }.setKeyDiscardTimer
    | none => some self
  else some self

def followUpdate (self : KeyedConnection) (result : DecryptPacketResult) : Option KeyedConnection :=
  if result.incomingKeyUpdate then do (← self.updateKeys limits (some result.number) true).setKeyDiscardTimer
  else some self

def decryptPacket (self : KeyedConnection) (packet : Packet) :
    Option (KeyedConnection × Except (Option TransportError) (Option Nat)) := do
  match ← self.decryptPacketBody packet with
  | .error e => some (self, .error e)
  | .ok none => some (self, .ok none)
  | .ok (some result) =>
    let self ← self.acknowledgeUpdate result
    let self ← self.followUpdate limits result
    some (self, .ok (some result.number))

def receivedNumber (self : KeyedConnection) (space : SpaceId) (packet : Nat) : KeyedConnection :=
  if (self.spaces space).rxPacket ≤ packet then
    self.setSpace space { self.spaces space with rxPacket := packet }
  else self

def onPacketAuthenticated (self : KeyedConnection) (space : SpaceId) (packet : Option Nat) (is1rtt : Bool) :
    Option KeyedConnection :=
  let self := { self with totalAuthedPackets := self.totalAuthedPackets + 1 }
  match packet with
  | none => some self
  | some packet =>
    -- A server stops processing Initial packets when it receives its first Handshake packet.
    let self := self.stopInitial .server space
    -- Discard 0-RTT keys soon after receiving a 1-RTT packet.
    let timed := if self.side = .server ∧ self.zeroRttCrypto ∧ is1rtt then self.setKeyDiscardTimer else some self
    timed.map fun self => self.receivedNumber space packet

/-- Whether the header of a packet can be read: keys of its level are at hand, or it has no protection. -/
def unprotectHeader (self : KeyedConnection) (header : Header) : Bool :=
  if header.is0rtt then self.zeroRttCrypto
  else !header.isProtected || (self.spaces header.space).crypto.isSome

def invalidToken (self : KeyedConnection) (header : Header) : Bool :=
  match header, self.state with
  | .initial token _ _, .handshake hs => self.side = .server && token != hs.expectedToken
  | _, _ => false

def afterPacket (self : KeyedConnection) (wasClosed : Bool) (remote : SocketAddr)
    (result : Except ConnectionError Unit) : Option KeyedConnection :=
  let failed := match result with
    | .error e => e.toState.map fun state => { self with error := some e, state }
    | .ok () => some self
  failed.map fun self =>
    let self := if !wasClosed && self.state.isClosed then self.closeCommon else self
    -- Transmit CONNECTION_CLOSE if necessary.
    match self.state with
    | .closed _ => { self with close := remote = self.remote }
    | _ => self

/-- How the payload of a packet that was opened is processed: `process_decrypted_packet`. -/
abbrev Process :=
  KeyedConnection → SocketAddr → Option Nat → Packet → Option (KeyedConnection × Except ConnectionError Unit)

def ignorePayload : Process := fun self _ _ _ => some (self, .ok ())

def processPacket (process : Process) (self : KeyedConnection) (remote : SocketAddr) (packet : Packet)
    (number : Option Nat) : Option KeyedConnection := do
  let wasClosed := self.state.isClosed
  let authed := if !wasClosed ∧ number.isSome then
      self.onPacketAuthenticated packet.header.space number packet.header.isShort
    else some self
  let (self, result) ← process (← authed) remote number packet
  self.afterPacket wasClosed remote result

def recordSeen (self : KeyedConnection) (space : SpaceId) (number : Option Nat) : KeyedConnection × Bool :=
  match number with
  | some number =>
    let (duplicate, dedup) := (self.spaces space).dedup.insert number
    (self.setSpace space { self.spaces space with dedup }, duplicate)
  | none => (self, false)

/-- A packet that was opened: `process` sees it unless it is a duplicate or comes too early. -/
def acceptPacket (process : Process) (self : KeyedConnection) (remote : SocketAddr) (packet : Packet)
    (number : Option Nat) : Option KeyedConnection :=
  let (self, duplicate) := self.recordSeen packet.header.space number
  if duplicate then some self
  else if self.state.isHandshake ∧ packet.header.isShort then some self
  else if self.invalidToken packet.header then some self
  else processPacket process self remote packet number

def rejectPacket (self : KeyedConnection) (remote : SocketAddr) : Option TransportError → Option KeyedConnection
  | some e => self.afterPacket self.state.isClosed remote (.error (.transportError e))
  | none => do
    let failed := { self with authenticationFailures := self.authenticationFailures + 1 }
    let key ← (self.spaces self.highestSpace).crypto
    if limits.integrityLimit key < failed.authenticationFailures then
      failed.afterPacket self.state.isClosed remote
        (.error (.transportError ⟨.aeadLimitReached, "integrity limit violated"⟩))
    else some failed

/-- A packet whose header was read; `none` stands for one that could only be told to be a stateless reset. -/
def handlePacket (process : Process) (self : KeyedConnection) (remote : SocketAddr) (packet : Option Packet)
    (statelessReset : Bool) : Option KeyedConnection :=
  if self.state.isHandshake ∧ remote ≠ self.remote then some self
  else
    match packet with
    | none =>
      if statelessReset then self.afterPacket self.state.isClosed remote (.error .reset)
      else self.rejectPacket limits remote none
    | some packet => do
      let (self, decrypted) ← self.decryptPacket limits packet
      if statelessReset then self.afterPacket self.state.isClosed remote (.error .reset)
      else
        match decrypted with
        | .error e => self.rejectPacket limits remote e
        | .ok number => acceptPacket process self remote packet number

def handleDecode (process : Process) (self : KeyedConnection) (remote : SocketAddr) (packet : Packet)
    (statelessReset : Bool) : Option KeyedConnection :=
  if self.unprotectHeader packet.header then self.handlePacket limits process remote (some packet) statelessReset
  else some self

structure Setup where
  remote : SocketAddr
  handshakeCid : ConnectionId
  remHandshakeCid : ConnectionId
  version : Nat
  expectedToken : Bytes
  /-- Whether a client resumes a session, and so has keys for early data from the start. -/
  early : Bool
  /-- Random choices: the length of the first key phase and the first packet number to be skipped. -/
  phase : Nat
  skip : Nat

/-- A new connection. The first key phase is between 10 and 1000 packets long, the first number to be skipped is below
    64. The text of the client's first message is left out. -/
def new (side : Side) (setup : Setup) : KeyedConnection where
  side := side
  state := .handshake ⟨side = .server, setup.expectedToken, if side = .client then some [] else none⟩
  error := none
  close := false
  remote := setup.remote
  handshakeCid := setup.handshakeCid
  remHandshakeCid := setup.remHandshakeCid
  version := setup.version
  token := []
  spaces := Function.update (fun _ => KeySpace.new) .initial { KeySpace.new with crypto := some (.initial 0) }
  highestSpace := .initial
  zeroRttCrypto := setup.early && side = .client
  keyPhase := false
  keyPhaseSize := 10 + setup.phase % 990
  prevCrypto := none
  nextCrypto := none
  session := 1
  keyDiscard := false
  packetNumberFilter := .new setup.skip
  authenticationFailures := 0
  totalAuthedPackets := 0

inductive KeyEvent where
  | forceKeyUpdate
  /-- A packet is built by the loop of `poll_transmit`. -/
  | transmit (space : SpaceId) (draw : Nat)
  /-- A packet with a path challenge, a path response or an MTU probe is built outside of the loop. -/
  | probe (draw : Nat)
  | receive (packet : Packet)
  | keyDiscard
  | ack (space : SpaceId) (number : Nat)
  | upgradeCrypto
  /-- A server answers the client's first message: it gets all keys, those for early data if it takes any. -/
  | serverFlight (early : Bool)
  | establish
  | handshakeDone
  | retry (token : Bytes)
  | close (reason : Close)
  /-- The peer closed the connection, in an early packet or in one of the data space. -/
  | drain (reason : Close) (early : Bool)
  | timeout
  deriving DecidableEq

/-- The connection after the event, and the packet it sent. Events out of place, and crashes, have no result. -/
def step (self : KeyedConnection) : KeyEvent → Option (KeyedConnection × Option Packet)
  | .forceKeyUpdate => do some (← self.forceKeyUpdate limits, none)
  | .transmit space draw => self.transmit limits space draw
  | .probe draw => self.buildPacket limits .data draw
  | .receive packet => do some (← self.handleDecode limits ignorePayload self.remote packet false, none)
  | .keyDiscard =>
    if self.keyDiscard then
      some ({ self with zeroRttCrypto := false, prevCrypto := none, keyDiscard := false }, none)
    else none
  | .ack space number =>
    if number < (self.spaces space).nextPacketNumber then
      some (self.setSpace space { self.spaces space with
        largestAckedPacket := max (self.spaces space).largestAckedPacket (some number) }, none)
    else none
  | .upgradeCrypto =>
    match self.side, self.highestSpace with
    | .client, .initial => some (self.upgradeCrypto .handshake .handshake, none)
    | .client, .handshake => some (self.upgradeCrypto .data (.oneRtt 0), none)
    | _, _ => none
  | .serverFlight early =>
    match self.side, self.highestSpace with
    | .server, .initial =>
      let self := (self.upgradeCrypto .handshake .handshake).upgradeCrypto .data (.oneRtt 0)
      some ({ self with zeroRttCrypto := early }, none)
    | _, _ => none
  | .establish =>
    if self.state.isHandshake ∧ (self.spaces .data).crypto.isSome then
      let self := if self.side = .server then self.discardSpace .handshake else self
      some ({ self with state := .established }, none)
    else none
  | .handshakeDone => if self.side = .client then some (self.discardSpace .handshake, none) else none
  | .retry token =>
    if self.side = .client ∧ self.state.isHandshake ∧ self.totalAuthedPackets = 0 then
      (self.restartInitial token).map fun self => (self, none)
    else none
  | .close reason => some (self.closeInner reason, none)
  | .drain reason early =>
    match self.state with
    | .closed _ => some ({ self with state := .draining }, none)
    | .draining => none
    | .drained => none
    | _ => some ({ self.closeCommon with error := some reason.toError, close := self.close || !early, state := .draining },
        none)
  | .timeout => some (self.kill .timedOut, none)

end

end KeyedConnection

/-! What a connection does with a packet that was opened, depending on its state: `process_decrypted_packet` of
    `src/connection/mod.rs`. -/

/-- What `frame::Iter` yields, as far as a closed connection looks at it. -/
inductive FrameResult where
  | padding
  | close (reason : Close)
  | other
  | invalid
  deriving DecidableEq

structure Payload where
  bytes : Bytes
  frames : List FrameResult
  /-- Whether the bytes end in a valid integrity tag of a Retry packet. -/
  validRetry : Bool
  deriving DecidableEq

/-- The outcome of processing; without one the program stops. -/
abbrev Outcome := Option (KeyedConnection × Except ConnectionError Unit)

/-- The rest of the connection: what it does with the frames of a packet and with the messages of the handshake. -/
structure Handlers where
  processPayload : KeyedConnection → SocketAddr → Nat → Packet → Payload → Outcome
  processEarlyPayload : KeyedConnection → Packet → Payload → Outcome
  /-- `crypto.is_handshaking`, after the packet was processed. -/
  isHandshaking : Packet → Payload → Bool
  /-- A client learns the transport parameters of the server and what became of its early data. -/
  serverParams : KeyedConnection → Outcome
  clientParams : KeyedConnection → Outcome

/-- The versions that a Version Negotiation packet lists include the given one. -/
def listsVersion (version : Nat) : Bytes → Bool
  | a :: b :: c :: d :: rest =>
    ((a.toNat * 256 + b.toNat) * 256 + c.toNat) * 256 + d.toNat == version || listsVersion version rest
  | _ => false

namespace KeyedConnection
variable (handlers : Handlers) (payload : Payload)

def andThen (outcome : Outcome) (next : KeyedConnection → Outcome) : Outcome :=
  outcome.bind fun
    | (self, .ok ()) => next self
    | (self, .error e) => some (self, .error e)

def drainAtClose (self : KeyedConnection) : List FrameResult → KeyedConnection
  | [] => self
  | .close _ :: _ => { self with state := .draining }
  | .padding :: rest => self.drainAtClose rest
  | .other :: rest => self.drainAtClose rest
  | .invalid :: rest => self.drainAtClose rest

def processClosed (self : KeyedConnection) : KeyedConnection × Except ConnectionError Unit :=
  if payload.bytes = [] then (self, .error (.transportError ⟨.protocolViolation, "packet payload is empty"⟩))
  else (self.drainAtClose payload.frames, .ok ())

def processRetry (self : KeyedConnection) (handshake : State.Handshake) (srcCid : ConnectionId) : Outcome :=
  if self.side = .server then some (self, .error (.transportError ⟨.protocolViolation, "client sent Retry"⟩))
  else if 0 < self.totalAuthedPackets ∨ payload.bytes.length ≤ 16 ∨ !payload.validRetry then some (self, .ok ())
  else do
    let _ ← handshake.clientHello
    let self ← self.restartInitial (payload.bytes.take (payload.bytes.length - 16))
    some ({ self with remHandshakeCid := srcCid }, .ok ())

def processHandshake (self : KeyedConnection) (srcCid : ConnectionId) (packet : Packet) : Outcome :=
  if srcCid ≠ self.remHandshakeCid then some (self, .ok ())
  else andThen (handlers.processEarlyPayload self packet payload) fun self =>
    if self.state.isClosed then some (self, .ok ())
    else if handlers.isHandshaking packet payload then some (self, .ok ())
    else if self.side = .client then
      andThen (handlers.serverParams self) fun self => some ({ self with state := .established }, .ok ())
    else some ({ self.discardSpace .handshake with state := .established }, .ok ())

def processInitial (self : KeyedConnection) (handshake : State.Handshake) (srcCid : ConnectionId) (packet : Packet) :
    Outcome :=
  if handshake.remCidSet ∧ srcCid ≠ self.remHandshakeCid then some (self, .ok ())
  else
    let self := if handshake.remCidSet then self
      else { self with remHandshakeCid := srcCid, state := .handshake { handshake with remCidSet := true } }
    let startingSpace := self.highestSpace
    andThen (handlers.processEarlyPayload self packet payload) fun self =>
      if self.side = .server ∧ startingSpace = .initial ∧ self.highestSpace ≠ .initial then handlers.clientParams self
      else some (self, .ok ())

def processVersionNegotiate (self : KeyedConnection) : Outcome :=
  if 0 < self.totalAuthedPackets then some (self, .ok ())
  else if listsVersion self.version payload.bytes then some (self, .ok ())
  else some (self, .error .versionMismatch)

def processDecryptedPacket : Process := fun self remote number packet =>
  match self.state with
  | .established =>
    if packet.header.space = .data then number.bind fun number => handlers.processPayload self remote number packet payload
    else if packet.header.hasFrames then handlers.processEarlyPayload self packet payload
    else some (self, .ok ())
  | .closed _ => some (self.processClosed payload)
  | .draining => some (self, .ok ())
  | .drained => some (self, .ok ())
  | .handshake handshake =>
    match packet.header with
    | .retry srcCid => self.processRetry payload handshake srcCid
    | .long .handshake srcCid _ => self.processHandshake handlers payload srcCid packet
    | .initial _ srcCid _ => self.processInitial handlers payload handshake srcCid packet
    | .long .zeroRtt _ _ => number.bind fun number => handlers.processPayload self remote number packet payload
    | .versionNegotiate => self.processVersionNegotiate payload
    -- Short packets received during the handshake are discarded before.
    | .short _ _ => none

end KeyedConnection
end SaorsaTransport
