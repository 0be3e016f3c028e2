import SaorsaTransport.Pending
import SaorsaTransport.PollTransmit

/-! Filling a packet of the data space with frames, once there are 1-RTT keys: `populate_packet` of
    `src/connection/mod.rs`, with the encoders of `src/frame.rs` and `src/frame/nat_traversal_unified.rs`; and
    `handle_try_connect_to`. -/

namespace SaorsaTransport.Populate
open Library

/-- What `populate_packet` reads of the connection, and changes. -/
structure Source where
  side : Side
  remote : SocketAddr
  challenge : Option Nat
  challengePending : Bool
  pathResponses : PathResponses
  pingPending : Bool
  immediateAckPending : Bool
  pending : Pending
  streams : StreamsState
  datagrams : List Bytes
  delayNewTokenUntilBinding : Bool
  peerIdForTokens : Option Bytes
  useRfcFormat : Bool
  pqcDetected : Bool
  /-- `local_cid_state.retire_prior_to()`. -/
  retirePriorTo : Nat

structure Supply where
  len : Nat
  maxSize : Nat
  /-- The length of the ACK frame, if one is to be sent, and whether it can be encoded. -/
  ackLen : Option Nat
  ackEncodes : Bool
  /-- The length of an ACK_FREQUENCY frame; there is none without a configuration. -/
  ackFrequencyLen : Option Nat
  /-- The length of a validation token for the address of the path, unless it cannot be made. -/
  tokenLen : Option Nat
  sendFairness : Bool

structure Writer where
  source : Source
  len : Nat
  frames : List FrameType
  /-- Whether all numbers could be encoded. If not, the connection is closed and nothing more is written. -/
  encoded : Bool

def addrLen (address : SocketAddr) : Nat := if address.ipv4 then 4 + 2 else 16 + 2

/-- An address in the older format has its version in front and, for IPv6, flow information and scope behind. -/
def legacyAddrLen (address : SocketAddr) : Nat := 1 + addrLen address + if address.ipv4 then 0 else 4 + 4

/-- `NewConnectionId::try_encode`. -/
def newConnectionIdLen (retirePriorTo : Nat) (issued : IssuedCid) : Nat :=
  1 + VarInt.size issued.sequence + VarInt.size retirePriorTo + 1 + issued.id.length + 16

/-- `NewToken::size`. -/
def newTokenLen (tokenLen : Nat) : Nat := 1 + VarInt.size tokenLen + tokenLen

def addAddressLen (useRfcFormat : Bool) (frame : AddAddress) : Nat :=
  if useRfcFormat then 4 + VarInt.size frame.sequence + addrLen frame.address
  else 4 + VarInt.size frame.sequence + VarInt.size frame.priority + legacyAddrLen frame.address

def punchMeNowLen (useRfcFormat : Bool) (frame : PunchMeNow) : Nat :=
  4 + VarInt.size frame.round + VarInt.size frame.pairedWithSequenceNumber +
    (if useRfcFormat then addrLen frame.address else legacyAddrLen frame.address) +
    1 + if frame.targetPeerId.isSome then 32 else 0

def removeAddressLen (frame : RemoveAddress) : Nat := 4 + VarInt.size frame.sequence

def observedAddressLen (frame : ObservedAddress) : Nat := 4 + VarInt.size frame.sequenceNumber + addrLen frame.address

/-- `Datagram::size` with its length encoded. -/
def datagramLen (data : Bytes) : Nat := 1 + VarInt.size data.length + data.length

namespace Writer

def start (supply : Supply) (source : Source) : Writer := ⟨source, supply.len, [], true⟩

def write (self : Writer) (frame : FrameType) (size : Nat) : Writer :=
  { self with len := self.len + size, frames := self.frames ++ [frame] }

def setPending (self : Writer) (pending : Pending) : Writer := { self with source := { self.source with pending } }

/-- Go on unless a number could not be encoded: `encode_or_close!`. -/
def andThen (self : Writer) (next : Writer → Writer) : Writer := if self.encoded then next self else self

def handshakeDone (self : Writer) : Writer :=
  if self.source.pending.handshakeDone then
    (self.setPending { self.source.pending with handshakeDone := false }).write .handshakeDone 1
  else self

def ping (self : Writer) : Writer :=
  if self.source.pingPending then { self with source := { self.source with pingPending := false } }.write .ping 1 else self

def immediateAck (self : Writer) : Writer :=
  if self.source.immediateAckPending then
    { self with source := { self.source with immediateAckPending := false } }.write .immediateAck 1
  else self

def ack (supply : Supply) (self : Writer) : Writer :=
  match supply.ackLen with
  | none => self
  | some len => if supply.ackEncodes then self.write .ack len else { self with encoded := false }

/-- ACK_FREQUENCY is pending only if it is configured; otherwise this is a panic. -/
def ackFrequency (supply : Supply) (self : Writer) : Option Writer :=
  if self.source.pending.ackFrequency then
    supply.ackFrequencyLen.map
      ((self.setPending { self.source.pending with ackFrequency := false }).write .ackFrequency)
  else some self

/-- Challenges go with every packet on an unvalidated path. -/
def pathChallenge (supply : Supply) (self : Writer) : Writer :=
  if self.len + pathFrameLen < supply.maxSize ∧ self.source.challenge.isSome then
    { self with source := { self.source with challengePending := false } }.write .pathChallenge pathFrameLen
  else self

def pathResponse (supply : Supply) (self : Writer) : Writer :=
  if self.len + pathFrameLen < supply.maxSize then
    match self.source.pathResponses.popOnPath self.source.remote with
    | none => self
    | some (_, pathResponses) => { self with source := { self.source with pathResponses } }.write .pathResponse pathFrameLen
  else self

/-- `PqcPacketHandler::calculate_crypto_frame_size`. -/
def calculateCryptoFrameSize (pqcDetected : Bool) (availableSpace remainingData : Nat) : Nat :=
  min (min availableSpace (if pqcDetected then 1200 else 600)) remainingData

def cryptoLen (self : Writer) (maxSize : Nat) (frame : Crypto) : Nat :=
  min (min (min frame.data.length (2 ^ 14 - 1)) (maxSize - self.len - 1 - VarInt.size frame.offset - 2))
    (calculateCryptoFrameSize self.source.pqcDetected (maxSize - self.len) frame.data.length)

/-- CRYPTO. Every turn writes three bytes at least, so `maxSize` turns are enough. -/
def crypto (maxSize : Nat) : Nat → Writer → Writer
  | 0, self => self
  | fuel + 1, self =>
    if self.len + 17 < maxSize then
      match self.source.pending.crypto with
      | [] => self
      | frame :: rest =>
        let len := self.cryptoLen maxSize frame
        let remaining := frame.data.drop len
        if frame.offset ≤ VarInt.max then
          crypto maxSize fuel ((self.setPending { self.source.pending with
            crypto := if remaining = [] then rest else ⟨frame.offset + len, remaining⟩ :: rest }).write .crypto
              (1 + VarInt.size frame.offset + VarInt.size len + len))
        else { self.setPending { self.source.pending with crypto := rest } with encoded := false }
    else self

/-- The control frames of the streams, which are listed as one. -/
def control (supply : Supply) (self : Writer) : Option Writer :=
  (ControlWriter.write supply.maxSize ⟨self.source.streams, self.source.pending.toRetransmits, .empty, self.len⟩).map
    fun (w, encoded) => {
      source := { self.source with
        streams := w.streams, pending := { self.source.pending with toRetransmits := w.pending } }
      len := w.len
      frames := if w.len = self.len then self.frames else self.frames ++ [.streamControl]
      encoded }

/-! ### Queues of frames

Frames are taken from the back of a queue as long as the largest frame of their kind has room. -/

def fromQueue {α : Type} (self : Writer) (maxSize : Nat) (kind : FrameType) (bound : Nat) (size : α → Nat)
    (encodable : α → Bool) (queue : List α) (put : Pending → List α → Pending) : Writer :=
  let filled := fill bound maxSize size encodable queue.reverse self.len
  { self.setPending (put self.source.pending filled.rest.reverse) with
    len := filled.len
    frames := self.frames ++ List.replicate filled.count kind
    encoded := filled.ok }

/-- The sequence numbers of connection identifiers are 64-bit numbers. -/
def newConnectionId (supply : Supply) (self : Writer) : Writer :=
  self.fromQueue supply.maxSize .newConnectionId 44 (newConnectionIdLen self.source.retirePriorTo)
    (fun issued => decide (issued.sequence ≤ VarInt.max ∧ self.source.retirePriorTo ≤ VarInt.max))
    self.source.pending.newCids fun pending newCids => { pending with newCids }

def retireConnectionId (supply : Supply) (self : Writer) : Writer :=
  self.fromQueue supply.maxSize .retireConnectionId 9 (fun sequence => 1 + VarInt.size sequence)
    (fun sequence => decide (sequence ≤ VarInt.max)) self.source.pending.retireCids
    fun pending retireCids => { pending with retireCids }

def addAddress (supply : Supply) (self : Writer) : Writer :=
  self.fromQueue supply.maxSize .addAddress 49 (addAddressLen self.source.useRfcFormat) (fun _ => true)
    self.source.pending.addAddresses fun pending addAddresses => { pending with addAddresses }

def punchMeNow (supply : Supply) (self : Writer) : Writer :=
  self.fromQueue supply.maxSize .punchMeNow 82 (punchMeNowLen self.source.useRfcFormat) (fun _ => true)
    self.source.pending.punchMeNow fun pending punchMeNow => { pending with punchMeNow }

def removeAddress (supply : Supply) (self : Writer) : Writer :=
  self.fromQueue supply.maxSize .removeAddress 13 removeAddressLen (fun _ => true)
    self.source.pending.removeAddresses fun pending removeAddresses => { pending with removeAddresses }

def observedAddress (supply : Supply) (self : Writer) : Writer :=
  self.fromQueue supply.maxSize .observedAddress 30 observedAddressLen (fun _ => true)
    self.source.pending.outboundObservations fun pending outboundObservations => { pending with outboundObservations }

/-- DATAGRAM, from the front of the queue. -/
def datagram (maxSize : Nat) : List Bytes → Writer → Writer
  | [], self => { self with source := { self.source with datagrams := [] } }
  | data :: rest, self =>
    if self.len + 9 < maxSize ∧ self.len + datagramLen data ≤ maxSize then
      datagram maxSize rest (self.write .datagram (datagramLen data))
    else { self with source := { self.source with datagrams := data :: rest } }

/-- NEW_TOKEN, given the queue from its back. Tokens are for one address only and are dropped when the path has changed. -/
def newToken (supply : Supply) : List SocketAddr → Writer → Writer
  | [], self => self.setPending { self.source.pending with newTokens := [] }
  | remote :: rest, self =>
    if self.source.side = .client ∨ remote ≠ self.source.remote then newToken supply rest self
    else if self.source.delayNewTokenUntilBinding ∧ self.source.peerIdForTokens = none then
      self.setPending { self.source.pending with newTokens := (remote :: rest).reverse }
    else
      match supply.tokenLen with
      | none => newToken supply rest self
      | some tokenLen =>
        if supply.maxSize ≤ self.len + newTokenLen tokenLen then
          self.setPending { self.source.pending with newTokens := (remote :: rest).reverse }
        else newToken supply rest (self.write .newToken (newTokenLen tokenLen))

end Writer

namespace Writer

def lastQueues (supply : Supply) (self : Writer) : Writer :=
  let self := datagram supply.maxSize self.source.datagrams self
  let self := newToken supply self.source.pending.newTokens.reverse self
  (((self.addAddress supply).punchMeNow supply).removeAddress supply).observedAddress supply

def queues (supply : Supply) (self : Writer) : Writer :=
  ((self.newConnectionId supply).andThen (retireConnectionId supply)).andThen (lastQueues supply)

end Writer

def writePending (supply : Supply) (source : Source) : Option Writer := do
  let w := Writer.ack supply (Writer.start supply source).handshakeDone.ping.immediateAck
  if !w.encoded then some w
  else
    let w ← w.ackFrequency supply
    let w := Writer.crypto supply.maxSize supply.maxSize ((w.pathChallenge supply).pathResponse supply)
    if !w.encoded then some w
    else
      let w ← w.control supply
      some (w.andThen (Writer.queues supply))

def populatePacket (supply : Supply) (source : Source) : Option Writer := do
  let w ← writePending supply source
  if !w.encoded then some w
  else
    let (streams, len, frames) ← w.source.streams.writeStreamFrames w.len supply.maxSize supply.sendFairness
    some { w with
      source := { w.source with streams }
      len
      frames := w.frames ++ List.replicate frames.length .stream }

/-- Whether a packet space has something to send besides acknowledgments: `PacketSpace::can_send`. -/
def Source.canSend (self : Source) : Bool :=
  !self.pending.isEmpty self.streams || self.pingPending || self.immediateAckPending

end SaorsaTransport.Populate
