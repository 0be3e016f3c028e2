import SaorsaTransport.Packet
import SaorsaTransport.Connection

/-! All that a packet space has to send and to send again: `Retransmits` of `src/connection/spaces.rs`, with the frames of
    `src/frame.rs`. The classes of frames that belong to the streams are those of `Connection`. -/

namespace SaorsaTransport

structure Crypto where
  offset : Nat
  data : Bytes
  deriving DecidableEq

structure IssuedCid where
  sequence : Nat
  id : ConnectionId
  resetToken : Nat
  deriving DecidableEq

structure AddAddress where
  sequence : Nat
  address : SocketAddr
  priority : Nat
  deriving DecidableEq

structure PunchMeNow where
  round : Nat
  pairedWithSequenceNumber : Nat
  address : SocketAddr
  targetPeerId : Option Bytes
  deriving DecidableEq

structure RemoveAddress where
  sequence : Nat
  deriving DecidableEq

structure ObservedAddress where
  sequenceNumber : Nat
  address : SocketAddr
  deriving DecidableEq

structure TryConnectTo where
  requestId : Nat
  targetAddress : SocketAddr
  timeoutMs : Nat
  deriving DecidableEq

inductive TryConnectError where
  | timeout
  | connectionRefused
  | networkUnreachable
  | hostUnreachable
  | rateLimited
  | invalidAddress
  | internalError
  deriving DecidableEq

structure TryConnectToResponse where
  requestId : Nat
  success : Bool
  errorCode : Option TryConnectError
  sourceAddress : SocketAddr
  deriving DecidableEq

/-- Whether MAX_STREAM_DATA frames could be sent for stream `id`. -/
def StreamsState.canSendFlowControl (self : StreamsState) (id : StreamId) : Bool :=
  (self.recvAt id).any (·.canSendFlowControl)

structure Pending extends Retransmits where
  crypto : List Crypto
  newCids : List IssuedCid
  retireCids : List Nat
  ackFrequency : Bool
  handshakeDone : Bool
  /-- For each enqueued NEW_TOKEN frame, the path's remote address. -/
  newTokens : List SocketAddr
  addAddresses : List AddAddress
  punchMeNow : List PunchMeNow
  removeAddresses : List RemoveAddress
  outboundObservations : List ObservedAddress
  tryConnectTo : List TryConnectTo
  tryConnectToResponses : List TryConnectToResponse

namespace Pending

def empty : Pending := ⟨Retransmits.empty, [], [], [], false, false, [], [], [], [], [], [], []⟩

def isEmpty (self : Pending) (streams : StreamsState) : Bool :=
  !self.maxData && !(self.maxStreamId .bi || self.maxStreamId .uni) && self.resetStream.isEmpty &&
    self.stopSending.isEmpty && (self.maxStreamData.all fun id => !streams.canSendFlowControl id) && self.crypto.isEmpty &&
    self.newCids.isEmpty && self.retireCids.isEmpty && !self.ackFrequency && !self.handshakeDone &&
    self.newTokens.isEmpty && self.addAddresses.isEmpty && self.punchMeNow.isEmpty && self.removeAddresses.isEmpty &&
    self.outboundObservations.isEmpty && self.tryConnectTo.isEmpty && self.tryConnectToResponses.isEmpty

/-- `self |= rhs`. Head-of-line blocking is reduced by queueing CRYPTO frames before other data. -/
def merge (self rhs : Pending) : Pending where
  toRetransmits := self.toRetransmits.merge rhs.toRetransmits
  crypto := rhs.crypto ++ self.crypto
  newCids := self.newCids ++ rhs.newCids
  retireCids := self.retireCids ++ rhs.retireCids
  ackFrequency := self.ackFrequency || rhs.ackFrequency
  handshakeDone := self.handshakeDone || rhs.handshakeDone
  newTokens := self.newTokens ++ rhs.newTokens
  addAddresses := self.addAddresses ++ rhs.addAddresses
  punchMeNow := self.punchMeNow ++ rhs.punchMeNow
  removeAddresses := self.removeAddresses ++ rhs.removeAddresses
  outboundObservations := self.outboundObservations ++ rhs.outboundObservations
  tryConnectTo := self.tryConnectTo ++ rhs.tryConnectTo
  tryConnectToResponses := self.tryConnectToResponses ++ rhs.tryConnectToResponses

end Pending
end SaorsaTransport
