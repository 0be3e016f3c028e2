import SaorsaTransport.Cids

/-! Packets, after `src/packet.rs`: the number spaces, packet numbers as they stand on the wire and headers. -/

namespace SaorsaTransport
open Library

inductive SpaceId where
  | initial
  | handshake
  | data
  deriving DecidableEq

inductive PacketNumber where
  | u8 (x : Nat)
  | u16 (x : Nat)
  | u24 (x : Nat)
  | u32 (x : Nat)
  deriving DecidableEq

namespace PacketNumber

/-- The shortest encoding of `n` for a peer that acknowledged `largestAcked`; `none` if that lies above `n`. -/
def new (n largestAcked : Nat) : Option PacketNumber := do
  let range := (← checkedSub n largestAcked) * 2
  if range < 2 ^ 8 then some (.u8 (n % 2 ^ 8))
  else if range < 2 ^ 16 then some (.u16 (n % 2 ^ 16))
  else if range < 2 ^ 24 then some (.u24 (n % 2 ^ 32))
  else some (.u32 (n % 2 ^ 32))

def len : PacketNumber → Nat
  | .u8 _ => 1
  | .u16 _ => 2
  | .u24 _ => 3
  | .u32 _ => 4

/-- What is read back from the bytes of a number: `encode` followed by `decode`. Three bytes are written of a `u24`. -/
def onWire : PacketNumber → PacketNumber
  | .u8 x => .u8 (x % 2 ^ 8)
  | .u16 x => .u16 (x % 2 ^ 16)
  | .u24 x => .u24 (x % 2 ^ 24)
  | .u32 x => .u32 (x % 2 ^ 32)

def truncated : PacketNumber → Nat
  | .u8 x => x
  | .u16 x => x
  | .u24 x => x
  | .u32 x => x

def expand (self : PacketNumber) (expected : Nat) : Nat :=
  let win := 2 ^ (self.len * 8)
  let hwin := win / 2
  -- The bits of `expected` above the window, and the truncated number below.
  let candidate := expected / win * win + self.truncated
  if hwin ≤ expected ∧ candidate ≤ expected - hwin then candidate + win
  else if candidate > expected + hwin ∧ candidate > win then candidate - win
  else candidate

/-- `expand` with its sums of 64-bit integers. -/
def expandU64 (self : PacketNumber) (expected : Nat) : Option Nat := do
  let win := 2 ^ (self.len * 8)
  let hwin := win / 2
  let candidate := expected / win * win + self.truncated
  if hwin ≤ expected ∧ candidate ≤ expected - hwin then checkedAdd candidate win
  else if candidate > (← checkedAdd expected hwin) ∧ candidate > win then some (candidate - win)
  else some candidate

end PacketNumber

inductive LongType where
  | handshake
  | zeroRtt
  deriving DecidableEq

inductive Header where
  | initial (token : Bytes) (srcCid : ConnectionId) (number : PacketNumber)
  | long (ty : LongType) (srcCid : ConnectionId) (number : PacketNumber)
  | retry (srcCid : ConnectionId)
  | short (keyPhase : Bool) (number : PacketNumber)
  | versionNegotiate
  deriving DecidableEq

namespace Header

def isProtected : Header → Bool
  | .retry _ => false
  | .versionNegotiate => false
  | _ => true

def number : Header → Option PacketNumber
  | .initial _ _ number => some number
  | .long _ _ number => some number
  | .short _ number => some number
  | _ => none

def space : Header → SpaceId
  | .short _ _ => .data
  | .long .zeroRtt _ _ => .data
  | .long .handshake _ _ => .handshake
  | _ => .initial

def keyPhase : Header → Bool
  | .short keyPhase _ => keyPhase
  | _ => false

def isShort : Header → Bool
  | .short _ _ => true
  | _ => false

def is0rtt : Header → Bool
  | .long .zeroRtt _ _ => true
  | _ => false

def hasFrames : Header → Bool
  | .initial _ _ _ => true
  | .long _ _ _ => true
  | .retry _ => false
  | .short _ _ => true
  | .versionNegotiate => false

end Header

/-- RFC4303-style sliding window packet number deduplicator. -/
structure Dedup where
  window : BitVec 128
  next : Nat
  deriving DecidableEq

namespace Dedup

def windowSize : Nat := 1 + 128

def new : Dedup := ⟨0, 0⟩

/-- Record a newly authenticated packet number; returns whether the packet might be a duplicate. -/
def insert (self : Dedup) (packet : Nat) : Bool × Dedup :=
  if self.next ≤ packet then
    -- Right of the window; a shift by all its bits or more leaves nothing.
    (false, ⟨((self.window <<< 1) ||| 1) <<< (packet - self.next), packet + 1⟩)
  else
    let back := self.next - 1 - packet
    if back < windowSize then
      if back = 0 then (true, self)
      else (self.window.getLsbD (back - 1), { self with window := self.window ||| (1 <<< (back - 1)) })
    else (true, self)

/-- The smallest packet missing between two that were received, the upper one at most the highest. -/
def smallestMissingInInterval (self : Dedup) (lowerBound upperBound : Nat) : Option Nat :=
  let highest := self.next - 1
  let lowerBound := lowerBound + 1
  let upperBound := upperBound - 1
  -- The offsets are counted from the right, and the highest packet has none.
  let startOffset := max (highest - upperBound) 1 - 1
  if 128 ≤ startOffset then none
  else
    let rangeLen := min (highest - lowerBound - startOffset) 128
    if rangeLen = 0 then none
    else
      let mask := if rangeLen = 128 then BitVec.allOnes 128 else ((1#128 <<< rangeLen) - 1) <<< startOffset
      let gaps := ~~~self.window &&& mask
      let smallestMissingPacket := highest - (128 - gaps.clz.toNat)
      if smallestMissingPacket ≤ upperBound then some smallestMissingPacket else none

end Dedup

/-! The states of a connection and the reasons to leave them, after `src/connection/mod.rs` and `src/frame.rs`. -/

structure ConnectionClose where
  errorCode : TransportErrorCode
  reason : String
  deriving DecidableEq

structure ApplicationClose where
  errorCode : Nat
  reason : Bytes
  deriving DecidableEq

inductive Close where
  | connection (close : ConnectionClose)
  | application (close : ApplicationClose)
  deriving DecidableEq

inductive ConnectionError where
  | versionMismatch
  | transportError (error : TransportError)
  | connectionClosed (close : ConnectionClose)
  | applicationClosed (close : ApplicationClose)
  | reset
  | timedOut
  | locallyClosed
  | cidsExhausted
  deriving DecidableEq

namespace State

structure Handshake where
  remCidSet : Bool
  /-- Retry token received in the first Initial by a server; it must be present in every Initial. -/
  expectedToken : Bytes
  clientHello : Option Bytes
  deriving DecidableEq

end State

inductive State where
  | handshake (handshake : State.Handshake)
  | established
  | closed (reason : Close)
  | draining
  | drained
  deriving DecidableEq

namespace State

def isHandshake : State → Bool
  | .handshake _ => true
  | _ => false

def isEstablished : State → Bool
  | .established => true
  | _ => false

def isClosed : State → Bool
  | .closed _ => true
  | .draining => true
  | .drained => true
  | _ => false

end State

def TransportError.toClose (error : TransportError) : Close := .connection ⟨error.code, error.reason⟩

def Close.toError : Close → ConnectionError
  | .connection close => .connectionClosed close
  | .application close => .applicationClosed close

/-- The state an error of packet processing leads to; the last three are not raised there. -/
def ConnectionError.toState : ConnectionError → Option State
  | .applicationClosed close => some (.closed (.application close))
  | .connectionClosed close => some (.closed (.connection close))
  | .reset => some .drained
  | .transportError error => some (if error.code = .aeadLimitReached then .drained else .closed error.toClose)
  | .versionMismatch => some .draining
  | .timedOut => none
  | .locallyClosed => none
  | .cidsExhausted => none

end SaorsaTransport
