import Mathlib.Data.Finset.Card
import SaorsaTransport.Basic
import SaorsaTransport.Library.Ring

/-! The local connection identifiers, of `src/connection/cid_state.rs`, with the counter of the endpoint that issues
    them. Times are nanoseconds on the clock of the process, whose seconds are signed 64-bit numbers. -/

namespace SaorsaTransport
open Library

structure CidTimestamp where
  sequence : Nat
  timestamp : Nat
  deriving DecidableEq

structure CidState where
  retireTimestamp : List CidTimestamp
  issued : Nat
  activeSeq : Finset Nat
  /-- Sequence number the peer has already retired all identifiers below at our request. -/
  prevRetireSeq : Nat
  retireSeq : Nat
  cidLen : Nat
  cidLifetime : Option Nat

namespace CidState

def expiry (now lifetime : Nat) : Option Nat := if now + lifetime < 2 ^ 63 * 10 ^ 9 then some (now + lifetime) else none

/-- Put a record behind the others, or combine it with the last one if they expire together. An identifier that
    does not stand behind those of the last record fails an assertion. -/
def pushTimestamp (sequence timestamp : Nat) : List CidTimestamp → Option (List CidTimestamp)
  | [] => some [⟨sequence, timestamp⟩]
  | [last] =>
    if timestamp = last.timestamp then
      if last.sequence < sequence then some [⟨sequence, timestamp⟩] else none
    else some [last, ⟨sequence, timestamp⟩]
  | first :: rest => (pushTimestamp sequence timestamp rest).map (first :: ·)

def trackLifetime (self : CidState) (newCidSeq now : Nat) : Option CidState :=
  match self.cidLifetime with
  | none => some self
  | some lifetime =>
    match expiry now lifetime with
    | none => some self
    | some expireAt =>
      (pushTimestamp newCidSeq expireAt self.retireTimestamp).map fun retireTimestamp => { self with retireTimestamp }

def trackAll (now : Nat) : CidState → List Nat → Option CidState
  | self, [] => some self
  | self, sequence :: rest => (self.trackLifetime sequence now).bind fun self => trackAll now self rest

/-- `issued` identifiers were used in the handshake. -/
def new (cidLen : Nat) (cidLifetime : Option Nat) (now issued : Nat) : Option CidState :=
  trackAll now ⟨[], issued, (List.range issued).toFinset, 0, 0, cidLen, cidLifetime⟩ (List.range issued)

def anyActive (self : CidState) (start stop : Nat) : Bool :=
  (List.range' start (stop - start)).any fun seq => seq ∈ self.activeSeq

/-- Update the state when previously issued identifiers are retired; returns whether a new identifier needs to be
    pushed that notifies the peer to respond `RETIRE_CONNECTION_ID`. -/
def onCidTimeout (self : CidState) : Bool × CidState :=
  -- Whether the peer hasn't retired all the identifiers we asked it to yet.
  let unretiredIdsFound := self.anyActive self.prevRetireSeq self.retireSeq
  let currentRetirePriorTo := self.retireSeq
  let nextRetireSequence := self.retireTimestamp.head?.map fun record => record.sequence + 1
  let self := { self with retireTimestamp := self.retireTimestamp.tail }
  let self :=
    if unretiredIdsFound then self
    else { self with prevRetireSeq := self.retireSeq, retireSeq := nextRetireSequence.getD self.retireSeq }
  (self.anyActive currentRetirePriorTo self.retireSeq, self)

def newCids (self : CidState) (ids : List Nat) (now : Nat) : Option CidState :=
  match ids.getLast? with
  | none => some self
  | some sequence =>
    { self with issued := self.issued + ids.length, activeSeq := self.activeSeq ∪ ids.toFinset }.trackLifetime sequence now

/-- Update the state for a `RETIRE_CONNECTION_ID` frame; returns whether a new identifier can be issued, or an error
    if the frame was illegal. -/
def onCidRetirement (self : CidState) (sequence limit : Nat) : Except TransportError Bool × CidState :=
  if self.cidLen = 0 then
    (.error ⟨.protocolViolation, "RETIRE_CONNECTION_ID when CIDs aren't in use"⟩, self)
  else if self.issued < sequence then
    (.error ⟨.protocolViolation, "RETIRE_CONNECTION_ID for unissued sequence number"⟩, self)
  else
    let activeSeq := self.activeSeq.erase sequence
    (.ok (activeSeq.card < limit), { self with activeSeq })

end CidState

/-- A connection's identifiers and the endpoint that issues them. What the endpoint sends the connection stands in
    a queue. -/
structure LocalCids where
  cids : CidState
  cidsIssued : Nat
  /-- The batches on their way to the connection, the oldest first, with the times they were asked for. -/
  newIdentifiers : List (List Nat × Nat)

namespace LocalCids

inductive Event where
  | sendNewIdentifiers (now num : Nat)
  | takeNewIdentifiers
  | pushNewCid
  /-- A `RETIRE_CONNECTION_ID` frame comes, under the peer's limit. -/
  | retireConnectionId (sequence limit : Nat)
  deriving DecidableEq

def step (self : LocalCids) : Event → Option LocalCids
  | .sendNewIdentifiers now num =>
    some { self with
      cidsIssued := self.cidsIssued + num
      newIdentifiers := self.newIdentifiers ++ [(List.range' self.cidsIssued num, now)] }
  | .takeNewIdentifiers =>
    match self.newIdentifiers with
    | [] => some self
    | (ids, now) :: newIdentifiers => (self.cids.newCids ids now).map fun cids => { self with cids, newIdentifiers }
  | .pushNewCid => some { self with cids := self.cids.onCidTimeout.2 }
  | .retireConnectionId sequence limit => some { self with cids := (self.cids.onCidRetirement sequence limit).2 }

/-- A new connection: one identifier was used in the handshake, and another one if the server names a preferred
    address. -/
def Start (self : LocalCids) : Prop :=
  ∃ cidLen cidLifetime now, ∃ preferredAddress : Bool,
    CidState.new cidLen cidLifetime now (if preferredAddress then 2 else 1) = some self.cids ∧
      self.cidsIssued = (if preferredAddress then 2 else 1) ∧ self.newIdentifiers = []

end LocalCids

/-! The queue of connection identifiers issued by the peer, of `src/cid_queue.rs`. Sequence numbers are
    variable-length integers, below 2^62, so the additions of the source do not overflow. -/

abbrev ConnectionId := Bytes

abbrev ResetToken := Bytes

structure NewConnectionId where
  sequence : Nat
  retirePriorTo : Nat
  id : ConnectionId
  resetToken : ResetToken
  deriving DecidableEq

abbrev CidData := ConnectionId × Option ResetToken

namespace CidQueue

def LEN : Nat := 5

inductive InsertError where
  | retired
  | exceedsLimit
  deriving DecidableEq

end CidQueue

/-- Sliding window of active connection identifiers; it may contain gaps due to packet loss or reordering. -/
structure CidQueue where
  buffer : Fin CidQueue.LEN → Option CidData
  cursor : Fin CidQueue.LEN
  offset : Nat

namespace CidQueue

def new (cid : ConnectionId) : CidQueue where
  buffer := Function.update (fun _ => none) ⟨0, by decide⟩ (some (cid, none))
  cursor := ⟨0, by decide⟩
  offset := 0

def iter (self : CidQueue) : List (Nat × CidData) := occupied self.buffer self.cursor

/-- Discard retired identifiers, if any, and record the new one. -/
def record (self : CidQueue) (cid : NewConnectionId) : Fin LEN → Option CidData :=
  let index := cid.sequence - self.offset
  let retiredCount := cid.retirePriorTo - self.offset
  let buffer := clear self.buffer self.cursor (min retiredCount LEN)
  Function.update buffer (slot self.cursor index) (some (cid.id, some cid.resetToken))

/-- Handle a `NEW_CONNECTION_ID` frame. Returns a range of retired sequence numbers and the reset token of the new
    active identifier if any were retired. -/
def insert (self : CidQueue) (cid : NewConnectionId) :
    Except InsertError (Option ((Nat × Nat) × ResetToken)) × CidQueue :=
  if cid.sequence < self.offset then (.error .retired, self)
  else
    let index := cid.sequence - self.offset
    let retiredCount := cid.retirePriorTo - self.offset
    if LEN + retiredCount ≤ index then (.error .exceedsLimit, self)
    else
      let buffer := self.record cid
      if retiredCount = 0 then (.ok none, { self with buffer })
      else
        -- Find the first known identifier with a sequence number of at least `retirePriorTo`.
        let next : CidQueue := { self with buffer, cursor := slot self.cursor retiredCount }
        match next.iter with
        | [] => (.ok none, next)
        | (i, (_, token)) :: _ =>
          let offset := cid.retirePriorTo + i
          let next : CidQueue := { next with cursor := slot next.cursor i, offset }
          match token with
          | none => (.ok none, next)
          | some token => (.ok (some ((self.offset, min offset (self.offset + LEN)), token)), next)

/-- Switch to the next active identifier if possible, and return its reset token and the range before it. -/
def next (self : CidQueue) : Option (ResetToken × (Nat × Nat)) × CidQueue :=
  match self.iter with
  | _ :: (i, (_, token)) :: _ =>
    let next : CidQueue :=
      { buffer := Function.update self.buffer self.cursor none
        cursor := slot self.cursor i
        offset := self.offset + i }
    (token.map fun token => (token, (self.offset, next.offset)), next)
  | _ => (none, self)

def active (self : CidQueue) : ConnectionId := ((self.buffer self.cursor).map (·.1)).getD []

def activeSeq (self : CidQueue) : Nat := self.offset

end CidQueue
end SaorsaTransport
