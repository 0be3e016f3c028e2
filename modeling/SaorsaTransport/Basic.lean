import SaorsaTransport.Library.Machine

/-! Byte strings, variable-length integers, stream identifiers and errors, as the stream layer uses them.
    A function that can panic returns an `Option`; `none` is the panic. -/

namespace SaorsaTransport

abbrev Bytes := List UInt8

namespace Bytes

/-- Drop the first `n` bytes; a panic past the end. -/
def advance (b : Bytes) (n : Nat) : Option Bytes := if n ≤ b.length then some (b.drop n) else none

/-- Cut off the first `n` bytes; a panic past the end. -/
def splitTo (b : Bytes) (n : Nat) : Option (Bytes × Bytes) :=
  if n ≤ b.length then some (b.take n, b.drop n) else none

end Bytes

namespace VarInt

def size (x : Nat) : Nat :=
  if x < 2 ^ 6 then 1 else if x < 2 ^ 14 then 2 else if x < 2 ^ 30 then 4 else 8

def max : Nat := 2 ^ 62 - 1

theorem size_le (x : Nat) : size x ≤ 8 := by
  unfold size
  split
  · decide
  · split
    · decide
    · split <;> decide

end VarInt

inductive Side where
  | client
  | server
  deriving DecidableEq

def Side.peer : Side → Side
  | .client => .server
  | .server => .client

theorem Side.peer_ne (side : Side) : side.peer ≠ side := by cases side <;> decide

theorem Side.peer_peer (side : Side) : side.peer.peer = side := by cases side <;> rfl

theorem Side.eq_peer {a b : Side} (h : a ≠ b) : a = b.peer := by
  cases a <;> cases b <;> first | rfl | exact absurd rfl h

inductive Dir where
  | bi
  | uni
  deriving DecidableEq

/-- The bits of a `StreamId`: the index, the direction and the initiator. -/
structure StreamId where
  initiator : Side
  dir : Dir
  index : Nat
  deriving DecidableEq

def StreamId.toNat (id : StreamId) : Nat :=
  4 * id.index + (match id.dir with | .bi => 0 | .uni => 2) + (match id.initiator with | .client => 0 | .server => 1)

structure SocketAddr where
  ipv4 : Bool
  ip : Nat
  port : Nat
  deriving DecidableEq

inductive TransportErrorCode where
  | flowControlError
  | finalSizeError
  | streamStateError
  | streamLimitError
  | frameEncodingError
  | protocolViolation
  | keyUpdateError
  | aeadLimitReached
  | other (code : Nat)
  deriving DecidableEq

structure TransportError where
  code : TransportErrorCode
  reason : String
  deriving DecidableEq

end SaorsaTransport
