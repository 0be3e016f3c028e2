import SaorsaTransport.Basic

/-! Tokens that authorise relaying: `src/relay/authenticator.rs`. A call of `verify_token` reads the clock and, later, takes
    the lock of the nonces; other callers may run in between. -/

namespace SaorsaTransport
open Library

structure AuthToken where
  nonce : Nat
  timestamp : Nat
  bandwidthLimit : Nat
  timeoutSeconds : Nat
  signature : Bytes
  deriving DecidableEq

/-- The sum is one of 64-bit integers; `none` is an overflow. -/
def AuthToken.isExpired (self : AuthToken) (now maxAgeSeconds : Nat) : Option Bool :=
  if self.timestamp + maxAgeSeconds ≤ u64Max then some (decide (self.timestamp + maxAgeSeconds < now)) else none

/-- The nonces in the order they came in, each once; the set of the source holds the same. -/
structure NonceWindow where
  order : List Nat
  deriving DecidableEq

namespace NonceWindow

def contains (self : NonceWindow) (nonce : Nat) : Bool := nonce ∈ self.order

def insertWithLimit (self : NonceWindow) (nonce maxSize : Nat) : NonceWindow :=
  let order := if nonce ∈ self.order then self.order else self.order ++ [nonce]
  ⟨order.drop (order.length - maxSize)⟩

end NonceWindow

/-- The keys of `κ` belong to those who make tokens. A signature verifies for one token only. -/
structure RelayAuthenticator (κ : Type) where
  maxTokenAge : Nat
  verify : κ → AuthToken → Bool
  ideal : ∀ key key' token token', verify key token = true → verify key' token' = true →
    token.signature = token'.signature → token = token'

/-- No call changes it. -/
def replayWindowSize : Nat := 1000

/-- The calls of `verify_token`. -/
structure Verifying where
  now : Nat
  usedNonces : NonceWindow
  waiting : List AuthToken
  accepted : List (AuthToken × Nat)
  overflowed : List AuthToken
  deriving DecidableEq

namespace Verifying

def new : Verifying := ⟨0, ⟨[]⟩, [], [], []⟩

inductive Event (κ : Type) where
  | elapse (seconds : Nat)
  | verify (token : AuthToken) (key : κ)
  | lock (token : AuthToken)

def step {κ : Type} (auth : RelayAuthenticator κ) (self : Verifying) : Event κ → Option Verifying
  | .elapse seconds => some { self with now := self.now + seconds }
  | .verify token key =>
    if auth.verify key token then
      match token.isExpired self.now auth.maxTokenAge with
      | none => some { self with overflowed := token :: self.overflowed }
      | some true => some self
      | some false => some { self with waiting := token :: self.waiting }
    else some self
  | .lock token =>
    -- The lock is never poisoned: nothing panics while it is held.
    if token ∈ self.waiting then
      let self := { self with waiting := self.waiting.erase token }
      if self.usedNonces.contains token.nonce then some self
      else some { self with
        usedNonces := self.usedNonces.insertWithLimit token.nonce replayWindowSize
        accepted := (token, self.now) :: self.accepted }
    else none

end Verifying
end SaorsaTransport
