import SaorsaTransport.Packet

/-! `NEW_CONNECTION_ID` frames as `process_payload` in `src/connection/mod.rs` handles them, and `update_rem_cid`: the queue
    of the peer's identifiers, and the sequence numbers to be retired. What was sent stays in flight. -/

namespace SaorsaTransport

structure RemoteCids where
  side : Side
  remCids : CidQueue
  /-- `pending.retire_cids` of the data space. -/
  retireCids : List Nat
  /-- `retransmits.retire_cids` of the packets in flight, the oldest first. -/
  inFlight : List (List Nat)
  statelessResetToken : Option ResetToken
  error : Option TransportError

namespace RemoteCids

/-- Ensures that the queue of retired identifiers cannot grow without bound. -/
def maxPendingRetiredCids : Nat := CidQueue.LEN * 10

def retired (range : Nat × Nat) : List Nat := List.range' range.1 (range.2 - range.1)

def updateRemCid (self : RemoteCids) : RemoteCids :=
  match self.remCids.next with
  | (none, remCids) => { self with remCids }
  | (some (resetToken, range), remCids) =>
    { self with remCids, retireCids := self.retireCids ++ retired range, statelessResetToken := some resetToken }

/-- A server that still uses the initial identifier of the client switches immediately. -/
def leaveInitialCid (self : RemoteCids) : RemoteCids :=
  if self.side = .server ∧ self.remCids.activeSeq = 0 then self.updateRemCid else self

def newConnectionId (self : RemoteCids) (frame : NewConnectionId) : Except TransportError Unit × RemoteCids :=
  if self.remCids.active.isEmpty then
    (.error ⟨.protocolViolation, "NEW_CONNECTION_ID when CIDs aren't in use"⟩, self)
  else if frame.sequence < frame.retirePriorTo then
    (.error ⟨.protocolViolation, "NEW_CONNECTION_ID retiring unissued CIDs"⟩, self)
  else
    match self.remCids.insert frame with
    | (.ok none, remCids) => (.ok (), { self with remCids }.leaveInitialCid)
    | (.ok (some (range, resetToken)), remCids) =>
      let self := { self with remCids }
      -- CONNECTION_ID_LIMIT_ERROR
      if maxPendingRetiredCids < self.retireCids.length + (range.2 - range.1) then
        (.error ⟨.other 9, "queued too many retired CIDs"⟩, self)
      else
        (.ok (),
          { self with
            retireCids := self.retireCids ++ retired range
            statelessResetToken := some resetToken }.leaveInitialCid)
    | (.error .exceedsLimit, remCids) => (.error ⟨.other 9, ""⟩, { self with remCids })
    | (.error .retired, remCids) =>
      -- RETIRE_CONNECTION_ID might not have been sent before.
      (.ok (), { self with remCids, retireCids := self.retireCids ++ [frame.sequence] })

inductive Event where
  | newConnectionId (frame : NewConnectionId)
  /-- The path of either side has changed. -/
  | updateRemCid
  /-- A packet takes up to `count` entries off the end of the queue. -/
  | transmit (count : Nat)
  /-- A probe sends the content of the packet at `index` again, if nothing is waiting. -/
  | probe (index : Nat)
  deriving DecidableEq

def step (self : RemoteCids) : Event → Option RemoteCids
  | .newConnectionId frame =>
    if self.error.isSome then some self
    else
      match self.newConnectionId frame with
      | (.ok (), next) => some next
      | (.error error, next) => some { next with error := some error }
  | .updateRemCid => some self.updateRemCid
  | .transmit count =>
    let kept := self.retireCids.length - count
    some { self with
      retireCids := self.retireCids.take kept
      inFlight := self.inFlight ++ [(self.retireCids.drop kept).reverse] }
  | .probe index =>
    if self.retireCids.isEmpty then
      some { self with retireCids := self.inFlight.getD index [], inFlight := self.inFlight.set index [] }
    else some self

/-- A connection whose peer has not retired anything yet. -/
def Start (self : RemoteCids) : Prop := self.retireCids = [] ∧ self.inFlight = [] ∧ self.error = none

end RemoteCids
end SaorsaTransport
