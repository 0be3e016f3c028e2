import SaorsaTransport.HandleEvent

/-! What a connection still sends once it is closed. The loop over the spaces writes acknowledgements and close frames
    only; the challenges of NAT traversal and of the previous path are sent before. -/

namespace SaorsaTransport.Transmission
open Library Option List

variable {c c' : Connection} {nat : NatTraversalState} {turn : NatTurn} {supply : Supply} {transmit : Option Transmit}

def ClosingOnly (packets : List (List FrameType)) : Prop :=
  ∀ frames ∈ packets, ∀ frame ∈ frames, frame = .ack ∨ frame = .connectionClose

theorem closingOnly_nil : ClosingOnly [] := fun _ h => absurd h not_mem_nil

theorem ClosingOnly.append {packets : List (List FrameType)} {frames : List FrameType} (h : ClosingOnly packets)
    (hfr : ∀ frame ∈ frames, frame = .ack ∨ frame = .connectionClose) : ClosingOnly (packets ++ [frames]) := by
  intro other hoth
  rcases mem_append.mp hoth with hold | hnew
  · exact h other hold
  rw [mem_singleton.mp hnew]
  exact hfr

@[simp] theorem Batch.setSegment_packets (batch : Batch) : batch.setSegment.packets = batch.packets := by
  unfold setSegment
  split <;> rfl

theorem Batch.endDatagram_packets (batch : Batch) (minInitialSize mtu : Nat) :
    (batch.endDatagram minInitialSize mtu).1.packets = batch.packets := by
  simp only [endDatagram]
  split
  · rfl
  split
  · rfl
  · exact setSegment_packets _

namespace Connection

theorem closeInner_of_closed (h : c.state.isClosed = true) (reason : Close) : c.closeInner reason = c :=
  if_pos h

theorem newPacket_closed {space : SpaceId} {opening : Opening} {bufLen bufCapacity start : Nat}
    {builder : Option PacketBuilder} (h : c.state.isClosed = true)
    (hnew : c.newPacket space opening bufLen bufCapacity start = some (c', builder)) : c'.state.isClosed = true := by
  simp only [newPacket, handleEncodeError, closeInner_of_closed h, ite_self] at hnew
  split at hnew
  · cases hnew
  split at hnew
  · cases hnew
    rfl
  · split at hnew <;> cases hnew <;> exact h

def Flow.Closing : Flow → Prop
  | .next self batch => self.state.isClosed = true ∧ ClosingOnly batch.packets
  | .stop self batch => self.state.isClosed = true ∧ ClosingOnly batch.packets
  | .done _ transmit => transmit = none
  | .panic => True

def Allocation.batch : Allocation → Batch
  | .ready batch => batch
  | .skip batch => batch
  | .stop batch => batch

theorem nextDatagram_packets (c : Connection) (maxDatagrams : Nat) (space : SpaceId) (turn : Turn) (batch : Batch) :
    (c.nextDatagram maxDatagrams space turn batch).batch.packets = batch.packets := by
  simp only [nextDatagram]
  split
  · rfl
  split
  · rfl
  split
  · rfl
  split
  · rfl
  · split <;> exact batch.endDatagram_packets _ _

theorem closeFrames_only (acks fits : Bool) : ∀ frame ∈ closeFrames acks fits, frame = .ack ∨ frame = .connectionClose := by
  intro frame hfrm
  rcases mem_append.mp hfrm with h | h <;> split at h
  · exact .inl (mem_singleton.mp h)
  · exact absurd h not_mem_nil
  · exact .inr (mem_singleton.mp h)
  · exact absurd h not_mem_nil

section
variable (hc : c.state.isClosed = true)
include hc

variable {batch : Batch}

theorem writeClose_closing (hbat : ClosingOnly batch.packets) (space : SpaceId) (later : List SpaceId) (turn : Turn)
    (builder : PacketBuilder) : (c.writeClose space later turn builder batch).Closing := by
  simp only [writeClose]
  split
  · rfl
  split
  · rfl
  split
  · exact ⟨hc, hbat.append (closeFrames_only _ _)⟩
  · exact ⟨hc, hbat.append (closeFrames_only _ _)⟩

theorem buildPacket_closing (hbat : ClosingOnly batch.packets) (space : SpaceId) (later : List SpaceId) (turn : Turn) :
    (c.buildPacket true space later turn batch).Closing := by
  simp only [buildPacket]
  split
  · trivial
  · rfl
  rename_i c' builder hnew
  have hc' : (c.stopInitial space).state.isClosed = true := by
    unfold stopInitial
    split <;> exact hc
  have hbegun : ClosingOnly (batch.beginPacket space c'.side turn builder).packets := hbat
  rw [if_pos trivial]
  exact writeClose_closing (newPacket_closed hc' hnew) hbegun space later turn builder

theorem turn_closing (hbat : ClosingOnly batch.packets) (supply : Supply) (turn : Turn) :
    (c.turn supply true turn batch).Closing := by
  simp only [Connection.turn]
  split
  · exact ⟨hc, hbat⟩
  rename_i space later _
  split
  · exact ⟨hc, hbat⟩
  split
  · have hnext := nextDatagram_packets c supply.maxDatagrams space turn (batch.padsToMtu space supply.padToMtu)
    split <;> rename_i heq <;> rw [heq] at hnext
    · exact ⟨hc, hnext ▸ hbat⟩
    · exact ⟨hc, hnext ▸ hbat⟩
    · exact buildPacket_closing hc (hnext ▸ hbat) _ _ _
  have hfinished : ClosingOnly (batch.padsToMtu space supply.padToMtu).finishPacket.packets := hbat
  exact buildPacket_closing hc hfinished _ _ _

end

theorem loop_closing (supply : Supply) : ∀ (turns : List Turn) {c : Connection} {batch : Batch},
    c.state.isClosed = true → ClosingOnly batch.packets → (loop supply true c batch turns).Closing := by
  intro turns
  induction turns with
  | nil => exact fun hc hbat => ⟨hc, hbat⟩
  | cons turn turns ih =>
    intro c batch hc hbat
    have hturn := turn_closing hc hbat supply turn
    unfold loop
    split <;> rename_i heq <;> rw [heq] at hturn
    · exact ih hturn.1 hturn.2
    · exact hturn
    · exact hturn
    · trivial

theorem finishLast_packets (c : Connection) (supply : Supply) (batch : Batch) :
    (c.finishLast supply batch).packets = batch.packets := by
  unfold finishLast
  split <;> rfl

theorem not_established (h : c.state.isClosed = true) : c.state.isEstablished = false := by
  cases hs : c.state <;> rw [hs] at h <;> first | rfl | cases h

theorem handOut_closing {batch : Batch} (hc : c.state.isClosed = true) (hbat : ClosingOnly batch.packets)
    (hout : c.handOut supply batch = some (c', transmit)) : ∀ t, transmit = some t → ClosingOnly t.packets := by
  intro t ht
  subst ht
  simp only [handOut, not_established hc, Bool.false_eq_true, if_false] at hout
  split at hout
  · cases hout
  cases hout
  rw [← finishLast_packets c supply batch] at hbat
  exact hbat

theorem sendSpaces_closing (hc : c.state.isClosed = true) (hsend : c.sendSpaces supply = some (c', transmit)) :
    ∀ t, transmit = some t → ClosingOnly t.packets := by
  have hclg : c.closing = none ∨ c.closing = some true := by
    unfold closing
    cases hs : c.state <;> rw [hs] at hc <;> cases hc <;> cases c.close <;> first | exact .inl rfl | exact .inr rfl
  unfold sendSpaces at hsend
  rcases hclg with h | h <;> rw [h] at hsend
  · cases hsend
    exact fun t ht => nomatch ht
  · have hsta : ClosingOnly (Batch.start c.path.currentMtu).packets := closingOnly_nil
    have hloop := loop_closing supply supply.turns hc hsta
    simp only at hsend
    split at hsend <;> rename_i heq <;> rw [heq] at hloop
    · exact handOut_closing hloop.1 hloop.2 hsend
    · exact handOut_closing hloop.1 hloop.2 hsend
    · cases hsend
      exact fun t ht => nomatch hloop.symm.trans ht
    · cases hsend

end Connection

/-- A round in which nothing will be punched at before the peer asks for it. -/
def Dormant (coord : CoordinationState) : Prop :=
  coord.punchTargets = [] ∨ coord.state = .validating ∨ coord.state = .succeeded ∨ coord.state = .failed ∨
    (coord.state = .requesting ∨ coord.state = .coordinating) ∧ coord.peerPunchReceived = false

structure Quiet (nat : NatTraversalState) : Prop where
  candidates : ∀ entry ∈ nat.remoteCandidates, entry.2.state ≠ .new
  round : ∀ coord, nat.coordination = some coord → Dormant coord

structure Idle (c : Connection) : Prop where
  nat : ∀ nat, c.natTraversal = some nat → Quiet nat
  prev : ∀ prev, c.prevPath = some prev → prev.challengePending = false

namespace Quiet

section
variable (h : Quiet nat)
include h

theorem updateCoordination {f : CoordinationState → CoordinationState}
    (hf : ∀ coord, nat.coordination = some coord → Dormant (f coord)) : Quiet (nat.updateCoordination f) := by
  refine ⟨h.candidates, fun coord hco => ?_⟩
  obtain ⟨old, hold, rfl⟩ := map_eq_some_iff.mp hco
  exact hf old hold

theorem handleCoordinationFailure (now : Nat) (suitable : Bool) (punchStart : Nat) :
    Quiet (nat.handleCoordinationFailure now suitable punchStart) := by
  refine h.updateCoordination fun coord _ => ?_
  dsimp only
  split
  · exact .inr (.inr (.inr (.inr ⟨.inl rfl, rfl⟩)))
  · exact .inr (.inr (.inr (.inl rfl)))

theorem checkTimeouts (now : Nat) (timeout : Option (Bool × Nat)) (expired : List SocketAddr) :
    Quiet ((timeout.elim nat fun (suitable, punchStart) =>
      nat.handleCoordinationFailure now suitable punchStart).checkValidationTimeouts expired) := by
  cases timeout with
  | none => exact ⟨h.candidates, h.round⟩
  | some retry =>
    have hfail := h.handleCoordinationFailure now retry.1 retry.2
    exact ⟨hfail.candidates, hfail.round⟩

theorem markPunchRequestSent (hdue : nat.shouldSendPunchRequest = true) : Quiet nat.markPunchRequestSent := by
  refine h.updateCoordination fun coord hco => ?_
  have hreq : coord.state = .requesting := by
    simp only [NatTraversalState.shouldSendPunchRequest, hco, any_some, decide_eq_true_eq] at hdue
    exact hdue.1
  rcases h.round coord hco with htgts | hst | hst | hst | ⟨_, hpeer⟩
  · exact .inl htgts
  · rw [hreq] at hst
    cases hst
  · rw [hreq] at hst
    cases hst
  · rw [hreq] at hst
    cases hst
  · exact .inr (.inr (.inr (.inr ⟨.inr rfl, hpeer⟩)))

theorem startPunchingPhase {now : Nat} (hdue : nat.shouldStartPunching now = true) (transmissionTime : Nat) :
    Quiet (nat.startPunchingPhase transmissionTime now) := by
  refine h.updateCoordination fun coord hco => .inl ?_
  simp only [NatTraversalState.shouldStartPunching, hco, any_some] at hdue
  rcases h.round coord hco with htgts | hst | hst | hst | ⟨hst | hst, hpeer⟩
  · exact htgts
  all_goals simp [hst] at hdue
  rw [hpeer] at hdue
  exact absurd hdue.1 (by simp)

theorem punchTarget : nat.punchTarget = none := by
  unfold NatTraversalState.punchTarget
  cases hco : nat.coordination with
  | none => rfl
  | some coord =>
    by_cases hst : coord.state = .punching
    · have htgts : coord.punchTargets = [] := by
        rcases h.round coord hco with htgts | hoth | hoth | hoth | ⟨hoth | hoth, _⟩
        · exact htgts
        all_goals rw [hst] at hoth; cases hoth
      simp [hst, htgts]
    · simp [hst]

theorem validationCandidate (preferred : Nat) : nat.validationCandidate preferred = none := by
  have hfresh : nat.remoteCandidates.entries.filter (fun entry => entry.2.state = .new) = [] := by
    rw [filter_eq_nil_iff]
    intro entry hent hnew
    exact h.candidates entry hent (of_decide_eq_true hnew)
  unfold NatTraversalState.validationCandidate
  simp only [hfresh]
  rfl

end

end Quiet

namespace Connection

/-- What an idle connection keeps of itself while it looks for challenges to send. -/
structure Untouched (c c' : Connection) : Prop where
  state : c'.state = c.state
  close : c'.close = c.close
  idle : Idle c'

theorem Untouched.trans {a b c : Connection} (h₁ : Untouched a b) (h₂ : Untouched b c) : Untouched a c :=
  ⟨h₂.state.trans h₁.state, h₂.close.trans h₁.close, h₂.idle⟩

theorem Untouched.of_nat (h : Idle c) {nat : Option NatTraversalState}
    (hnat : ∀ value, nat = some value → Quiet value) : Untouched c { c with natTraversal := nat } :=
  ⟨rfl, rfl, hnat, h.prev⟩

theorem checkNatTimeouts_untouched (h : Idle c) (now : Nat) (turn : NatTurn) :
    Untouched c (c.checkNatTimeouts now turn) := by
  refine .of_nat h fun value hvalue => ?_
  obtain ⟨nat, hnat, rfl⟩ := map_eq_some_iff.mp hvalue
  exact (h.nat nat hnat).checkTimeouts now turn.timeout turn.expired

theorem sendCoordinationRequest_untouched (h : Idle c) : Untouched c c.sendCoordinationRequest := by
  refine .of_nat h fun value hvalue => ?_
  obtain ⟨nat, hnat, rfl⟩ := map_eq_some_iff.mp hvalue
  split
  · rename_i hdue
    exact (h.nat nat hnat).markPunchRequestSent (Bool.and_eq_true_iff.mp hdue).1
  · exact h.nat nat hnat

theorem sendCoordinatedPathChallenge_idle {now : Nat} {t : Option Transmit}
    (h : Idle c) (hsend : c.sendCoordinatedPathChallenge now turn = some (c', t)) : t = none ∧ Untouched c c' := by
  unfold sendCoordinatedPathChallenge at hsend
  split at hsend
  · cases hsend
    exact ⟨rfl, rfl, rfl, h⟩
  rename_i nat hnat
  have hqt : Quiet
      (if nat.shouldStartPunching now then nat.startPunchingPhase turn.transmissionTime now else nat) := by
    split
    · rename_i hdue
      exact (h.nat nat hnat).startPunchingPhase hdue _
    · exact h.nat nat hnat
  simp only [hqt.punchTarget] at hsend
  cases hsend
  refine ⟨rfl, .of_nat h fun value hvalue => ?_⟩
  cases hvalue
  exact hqt

theorem sendCandidateChallenge_idle (h : Idle c) (now : Nat) (turn : NatTurn) :
    c.sendCandidateChallenge now turn = some (c, none) := by
  unfold sendCandidateChallenge
  cases hnat : c.natTraversal with
  | none => rfl
  | some nat => simp only [(h.nat nat hnat).validationCandidate]

theorem sendNatTraversalChallenge_idle {now : Nat} {t : Option Transmit}
    (h : Idle c) (hsend : c.sendNatTraversalChallenge now turn = some (c', t)) : t = none ∧ Untouched c c' := by
  have hrequest := sendCoordinationRequest_untouched h
  rcases unlessSent_eq_some hsend with ⟨punch, _, hpunch⟩ | ⟨middle, hpunch, hrest⟩
  · exact nomatch (sendCoordinatedPathChallenge_idle hrequest.idle hpunch).1
  have hmid := hrequest.trans (sendCoordinatedPathChallenge_idle hrequest.idle hpunch).2
  rw [sendCandidateChallenge_idle hmid.idle] at hrest
  cases hrest
  exact ⟨rfl, hmid⟩

theorem sendPathChallenge_idle (h : Idle c) (opening : Opening) (minInitialSize : Nat) :
    c.sendPathChallenge opening minInitialSize = some (c, none) := by
  unfold sendPathChallenge
  cases hprev : c.prevPath with
  | none => rfl
  | some prev => simp [h.prev prev hprev]

theorem pollTransmit_idle (h : Idle c) (hpoll : c.pollTransmit supply = some (c', transmit)) :
    ∃ middle, Untouched c middle ∧ middle.sendSpaces supply = some (c', transmit) := by
  unfold pollTransmit at hpoll
  split at hpoll
  · cases hpoll
  have htmo := checkNatTimeouts_untouched h supply.now supply.nat
  rcases unlessSent_eq_some hpoll with ⟨t, _, hnat⟩ | ⟨middle, hnat, hrest⟩
  · exact nomatch (sendNatTraversalChallenge_idle htmo.idle hnat).1
  have hmid := htmo.trans (sendNatTraversalChallenge_idle htmo.idle hnat).2
  rw [sendPathChallenge_idle hmid.idle] at hrest
  exact ⟨middle, hmid, hrest⟩

/-- A connection with no challenge due is silent once it drains, and sends nothing but acknowledgements and close frames
    while it is closed; a draining one must not have a close message of its own left to send. -/
theorem closing_silent {c c' : Connection} {supply : Supply} {transmit : Option Transmit} (h : Idle c)
    (hown : c.state = .draining → c.close = false) (hpoll : c.pollTransmit supply = some (c', transmit)) :
    (c.state = .draining ∨ c.state = .drained → transmit = none) ∧
      ∀ reason, c.state = .closed reason → ∀ t, transmit = some t → ∀ frames ∈ t.packets, ∀ frame ∈ frames,
        frame = .ack ∨ frame = .connectionClose := by
  obtain ⟨middle, hmiddle, hsend⟩ := pollTransmit_idle h hpoll
  constructor
  · intro hstate
    have hclosing : middle.closing = none := by
      unfold closing
      rw [hmiddle.state, hmiddle.close]
      rcases hstate with hstate | hstate
      · rw [hstate, hown hstate]
        rfl
      · rw [hstate]
    unfold sendSpaces at hsend
    rw [hclosing] at hsend
    cases hsend
    rfl
  · intro reason hstate
    have hclosed : middle.state.isClosed = true := by
      rw [hmiddle.state, hstate]
      rfl
    exact sendSpaces_closing hclosed hsend

def Reached (config : PathConfig) : Connection → Prop :=
  Reaches (fun c e => (Connection.step c e).map Prod.fst) (fun _ _ => True)
    fun c => ∃ side migration remote allowMtud, c = .new side migration remote allowMtud config

def plainConfig : PathConfig := ⟨1200, 1200, none, 3⟩

def plainContext : MigrationContext := ⟨plainConfig, false, 1472, 7, 8, 0⟩

def plainOpening : Opening := ⟨.below, true, 16, 12, 3, 8⟩

def plainTurn : Turn where
  canSend := false
  ackEliciting := false
  lossProbe := false
  congested := false
  paced := false
  canSendSegment := false
  minInitialSize := 1200
  opening := plainOpening
  adjustCoalescing := false
  acksLen := 6
  acksEncode := true
  closeLen := 20
  closeEncodes := true
  challengeRoom := false
  responseRoom := false
  frames := []
  framesLen := 0
  framesEncode := true

def plainSupply (turns : List Turn) : Supply where
  now := 1000
  maxDatagrams := 1
  padToMtu := false
  nat := ⟨none, [], 0, 0, 5, plainOpening, plainOpening, 1200⟩
  prevOpening := plainOpening
  prevMinInitialSize := 1200
  turns := turns
  minInitialSize := 1200
  probeNumber := 0
  probeOpening := plainOpening
  immediateAck := false

def peer : SocketAddr := ⟨true, 1, 4433⟩

def named : SocketAddr := ⟨true, 2, 4433⟩

def fresh : Connection := .new .server true peer false plainConfig

theorem fresh_reached : Reached plainConfig fresh := .start ⟨_, _, _, _, rfl⟩

def received (packet : Packet) : Event := .datagram plainContext ⟨peer, packet, 1200, none⟩

def handshake : List Event :=
  [.keys (fun _ => true) false .data, received (.handshake [.other] true), .keys (· = .data) false .data, .negotiate 10]

def advertised : List Event :=
  handshake ++ [received (.data false 0 true [.addAddress 0 named 1 ⟨false, false, .valid, []⟩ 5])]

def farewell : Close := .application ⟨0, []⟩

def after (events : List Event) (turns : List Turn) : Option (State × Option (Option (List (List FrameType)))) :=
  (runFrom (fun c e => (Connection.step c e).map Prod.fst) (fun _ _ => True) fresh events).map fun c =>
    (c.state, (c.pollTransmit (plainSupply turns)).map fun result => result.2.map (·.packets))

theorem reached_of_after {events : List Event} {turns : List Turn} {state : State} {packets : List (List FrameType)}
    (h : after events turns = some (state, some (some packets))) :
    ∃ c, Reached plainConfig c ∧ c.state = state ∧
      ∃ c' t, c.pollTransmit (plainSupply turns) = some (c', some t) ∧ t.packets = packets := by
  obtain ⟨c, hrun, hseen⟩ := map_eq_some_iff.mp h
  obtain ⟨hst, hout⟩ := Prod.mk.inj hseen
  obtain ⟨⟨c', transmit⟩, hpoll, htransmit⟩ := map_eq_some_iff.mp hout
  obtain ⟨t, rfl, rfl⟩ := map_eq_some_iff.mp htransmit
  exact ⟨c, fresh_reached.runFrom events hrun, hst, c', t, hpoll, rfl⟩

def closed : Connection :=
  { fresh with state := .closed farewell, close := true, hasKeys := (· = .data), highestSpace := .data
               path := { fresh.path with validated := true }, pendingAcks := (· = .data) }

theorem closed_idle : Idle closed := ⟨fun _ h => (nomatch h), fun _ h => (nomatch h)⟩

theorem closing_silent_closed : ∃ c' t,
    closed.pollTransmit (plainSupply [plainTurn, plainTurn, plainTurn]) = some (c', some t) ∧
      t.packets = [[.ack, .connectionClose]] ∧
      ∀ frames ∈ t.packets, ∀ frame ∈ frames, frame = .ack ∨ frame = .connectionClose := by
  have hpoll : (closed.pollTransmit (plainSupply [plainTurn, plainTurn, plainTurn])).map
      (fun result => result.2.map (·.packets)) = some (some [[.ack, .connectionClose]]) := by decide +kernel
  obtain ⟨⟨c', transmit⟩, hpoll, htransmit⟩ := map_eq_some_iff.mp hpoll
  obtain ⟨t, rfl, hpackets⟩ := map_eq_some_iff.mp htransmit
  have hsilent := closing_silent closed_idle (fun h => nomatch h) hpoll
  exact ⟨c', t, hpoll, hpackets, hsilent.2 farewell rfl t rfl⟩

/-- An address that waits for its challenge gets it even if the connection has closed or is gone; and a draining
    connection answers the close frame of the peer. -/
theorem closing_not_silent :
    (∃ c, Reached plainConfig c ∧ c.state = .drained ∧
      ∃ c' t, c.pollTransmit (plainSupply []) = some (c', some t) ∧ t.packets = [[.pathChallenge]]) ∧
    (∃ c, Reached plainConfig c ∧ c.state = .closed farewell ∧
      ∃ c' t, c.pollTransmit (plainSupply []) = some (c', some t) ∧ t.packets = [[.pathChallenge]]) ∧
    ∃ c, Reached plainConfig c ∧ c.state = .draining ∧
      ∃ c' t, c.pollTransmit (plainSupply [plainTurn, plainTurn, plainTurn]) = some (c', some t) ∧
        t.packets = [[.connectionClose]] := by
  have hdrained : after (advertised ++ [.idleTimer]) [] = some (.drained, some (some [[.pathChallenge]])) := by
    decide +kernel
  have hclosed : after (advertised ++ [.close farewell]) [] = some (.closed farewell, some (some [[.pathChallenge]])) := by
    decide +kernel
  have hdraining : after (handshake ++ [received (.data false 0 true [.close farewell])])
      [plainTurn, plainTurn, plainTurn] = some (.draining, some (some [[.connectionClose]])) := by
    decide +kernel
  exact ⟨reached_of_after hdrained, reached_of_after hclosed, reached_of_after hdraining⟩

end Connection
end SaorsaTransport.Transmission
