import Mathlib.Tactic.Linarith
import SaorsaTransport.Discovery

/-! Whether a peer learns its address. It keeps to the observation with the highest number; but a connection reports one
    address only, asks the rate limiter twice, and sends what waits last first. -/

namespace SaorsaTransport
open Library AddressDiscoveryState List

namespace Observation
variable {w w' : Observation}

/-- The peer's own address is the one with the highest number among what it received. -/
def Current (w : Observation) : Prop :=
  ∀ frame ∈ w.received, (∀ other ∈ w.received, other.sequenceNumber ≤ frame.sequenceNumber) →
    w.peer.receivedObservation.bind (·.observedAddress) = some (normalizeSocketAddr frame.address)

/-- Every frame is one that was queued, and the peer has the latest of those that it received. -/
structure Numbered (w : Observation) : Prop where
  below : ∀ frame ∈ w.queued, frame.sequenceNumber < w.state.nextSequenceNumber
  increasing : (w.queued.map (·.sequenceNumber)).Pairwise (· > ·)
  waiting : ∀ frame ∈ w.outboundObservations, frame ∈ w.queued
  inFlight : ∀ frames ∈ w.inFlight, ∀ frame ∈ frames, frame ∈ w.queued
  sent : ∀ frame ∈ w.sent, frame ∈ w.queued
  received : ∀ frame ∈ w.received, frame ∈ w.queued
  latest : w.received = [] ∧ w.peer.lastReceivedSequence = none ∨ ∃ frame ∈ w.received,
    w.peer.lastReceivedSequence = some frame.sequenceNumber ∧
    (∀ other ∈ w.received, other.sequenceNumber ≤ frame.sequenceNumber) ∧
    w.peer.receivedObservation.bind (·.observedAddress) = some (normalizeSocketAddr frame.address)

theorem Numbered.setState (h : Numbered w) {state : AddressDiscoveryState}
    (hnext : state.nextSequenceNumber = w.state.nextSequenceNumber) : Numbered { w with state } :=
  { h with below := hnext ▸ h.below }

theorem Numbered.push (h : Numbered w) {state : AddressDiscoveryState} (a : SocketAddr)
    (hnext : state.nextSequenceNumber = w.state.nextSequenceNumber + 1) :
    Numbered (Observation.push { w with state } ⟨w.state.nextSequenceNumber, a⟩) where
  below := by
    rw [Observation.push, hnext]
    exact forall_mem_cons.mpr ⟨lt_add_one _, fun frame hfrm => (h.below frame hfrm).trans (lt_add_one _)⟩
  increasing := pairwise_cons.mpr ⟨forall_mem_map.mpr h.below, h.increasing⟩
  waiting frame hfrm := by
    rcases mem_append.mp hfrm with hfrm | hfrm
    · exact mem_cons_of_mem _ (h.waiting frame hfrm)
    · exact mem_singleton.mp hfrm ▸ mem_cons_self
  inFlight frames hin frame hfrm := mem_cons_of_mem _ (h.inFlight frames hin frame hfrm)
  sent frame hfrm := mem_cons_of_mem _ (h.sent frame hfrm)
  received frame hfrm := mem_cons_of_mem _ (h.received frame hfrm)
  latest := h.latest

/-- A frame with the next number is queued, or none. -/
inductive Queues (w : Observation) : Observation → Prop
  | none {state : AddressDiscoveryState} (hnext : state.nextSequenceNumber = w.state.nextSequenceNumber) :
      Queues w { w with state }
  | some {state : AddressDiscoveryState} (a : SocketAddr)
      (hnext : state.nextSequenceNumber = w.state.nextSequenceNumber + 1) :
      Queues w (Observation.push { w with state } ⟨w.state.nextSequenceNumber, a⟩)

theorem queues_queueObservedAddressFrame {state : AddressDiscoveryState}
    (hnext : state.nextSequenceNumber = w.state.nextSequenceNumber) : Queues w (match state.queueObservedAddressFrame w.remote with
      | (state, some frame) => Observation.push { w with state } frame
      | (state, none) => { w with state }) := by
  unfold queueObservedAddressFrame number
  split
  · next heq =>
    split at heq
    · simp at heq
    split at heq
    · simp at heq
    obtain ⟨rfl, hfrm⟩ := Prod.mk.inj heq
    cases hfrm
    rw [hnext]
    exact .some _ rfl
  next heq =>
  split at heq
  · cases heq
    exact .none hnext
  split at heq
  · cases heq
    exact .none hnext
  · simp at heq

theorem queues_check (w : Observation) (gain : ℚ) : Queues w (w.checkForAddressObservations gain) := by
  have hnext : (w.state.shouldSendObservation gain).1.nextSequenceNumber = w.state.nextSequenceNumber := by
    unfold shouldSendObservation tryConsume
    split
    · split <;> rfl
    · rfl
  unfold checkForAddressObservations
  split
  · next state heq =>
    rw [heq] at hnext
    exact .none hnext
  next state heq =>
  rw [heq] at hnext
  exact queues_queueObservedAddressFrame hnext

theorem observed_handleObservedAddress (state : AddressDiscoveryState) (a : SocketAddr) :
    (state.handleObservedAddress a).receivedObservation.bind (·.observedAddress) = some a := by
  unfold handleObservedAddress
  cases state.receivedObservation with
  | none => rfl
  | some info =>
    by_cases hinfo : info.observedAddress = some a
    · simp [hinfo]
    · simp [hinfo]

theorem Numbered.arrive (h : Numbered w) {frame : ObservedAddress} (hfrm : frame ∈ w.sent) :
    Numbered { w with peer := w.peer.handleObservedAddressFrame frame, received := frame :: w.received } := by
  refine { h with received := forall_mem_cons.mpr ⟨h.sent frame hfrm, h.received⟩, latest := ?_ }
  dsimp only
  unfold handleObservedAddressFrame
  split
  · next hstale =>
    rcases h.latest with ⟨-, hnone⟩ | ⟨latest, hmem, hlast, hmax, hcur⟩
    · simp [hnone] at hstale
    refine .inr ⟨latest, mem_cons_of_mem _ hmem, hlast, forall_mem_cons.mpr ⟨?_, hmax⟩, hcur⟩
    simpa [hlast] using hstale
  next hnew =>
  refine .inr ⟨frame, mem_cons_self, rfl, forall_mem_cons.mpr ⟨le_rfl, fun other hoth => ?_⟩,
    observed_handleObservedAddress _ _⟩
  rcases h.latest with ⟨hnil, -⟩ | ⟨latest, -, hlast, hmax, -⟩
  · simp [hnil] at hoth
  have hlt : latest.sequenceNumber < frame.sequenceNumber := by simpa [hlast] using hnew
  exact (hmax other hoth).trans hlt.le

theorem Numbered.queues (h : Numbered w) (hq : Queues w w') : Numbered w' := by
  cases hq with
  | none hnext => exact h.setState hnext
  | some a hnext => exact h.push a hnext

theorem Numbered.transmit (h : Numbered w) (count : Nat) : Numbered (w.transmit count) where
  below := h.below
  increasing := h.increasing
  waiting frame hfrm := h.waiting frame (mem_of_mem_take hfrm)
  inFlight frames hin frame hfrm := by
    rcases mem_append.mp hin with hin | hin
    · exact h.inFlight frames hin frame hfrm
    · rw [mem_singleton.mp hin, mem_reverse] at hfrm
      exact h.waiting frame (mem_of_mem_drop hfrm)
  sent frame hfrm := (mem_append.mp hfrm).elim (fun hfrm => h.waiting frame (mem_of_mem_drop hfrm)) (h.sent frame)
  received := h.received
  latest := h.latest

theorem queues_build (hs : w.step .build = some w') : Queues w w' := by
  have hqueues := queues_queueObservedAddressFrame (w := w) rfl
  simp only [Observation.step] at hs
  split at hs <;> cases hs <;> simp_all

theorem Numbered.step (h : Numbered w) {e : Event} (hs : w.step e = some w') : Numbered w' := by
  cases e with
  | migrate remote =>
    cases hs
    exact { h with }
  | check gain =>
    cases hs
    exact h.queues (queues_check w gain)
  | build => exact h.queues (queues_build hs)
  | queue address =>
    cases hs
    exact h.push address rfl
  | transmit count =>
    cases hs
    exact h.transmit count
  | acked packet =>
    cases hs
    exact { h with inFlight := fun frames hin => h.inFlight frames (mem_of_mem_eraseIdx hin) }
  | lost packet =>
    cases hs
    refine { h with waiting := fun frame hfrm => ?_, inFlight := fun frames hin => h.inFlight frames (mem_of_mem_eraseIdx hin) }
    rcases mem_append.mp hfrm with hfrm | hfrm
    · exact h.waiting frame hfrm
    · cases hget : w.inFlight[packet]? with
      | none => simp [hget] at hfrm
      | some frames => exact h.inFlight frames (mem_of_getElem? hget) frame (by simpa [hget] using hfrm)
  | arrive frame =>
    simp only [Observation.step] at hs
    split at hs
    · next hfrm =>
      cases hs
      exact h.arrive hfrm
    · cases hs

theorem Numbered.current (h : Numbered w) : Current w := by
  intro frame hfrm hmax
  rcases h.latest with ⟨hnil, -⟩ | ⟨latest, hmem, -, hmax', hcur⟩
  · simp [hnil] at hfrm
  have hseq := (hmax' frame hfrm).antisymm (hmax latest hmem)
  have hnodup : (w.queued.map (·.sequenceNumber)).Nodup := h.increasing.imp fun h => h.ne'
  rw [inj_on_of_nodup_map hnodup (h.received frame hfrm) (h.received latest hmem) hseq]
  exact hcur

/-- A frame is queued only when none waits, and no packet with frames is lost. -/
def Alone (w : Observation) : Event → Prop
  | .check _ | .build | .queue _ => w.outboundObservations = []
  | .lost packet => w.inFlight.getD packet [] = []
  | _ => True

/-- One frame waits at most, and it has a higher number than those that were sent. -/
structure Rising (w : Observation) : Prop extends Numbered w where
  single : w.outboundObservations.length ≤ 1
  above : ∀ frame ∈ w.outboundObservations, ∀ old ∈ w.sent, old.sequenceNumber < frame.sequenceNumber
  rising : (w.sent.map (·.sequenceNumber)).Pairwise (· > ·)

theorem Rising.queues (h : Rising w) (hnil : w.outboundObservations = []) (hq : Queues w w') : Rising w' := by
  have hnum := h.toNumbered.queues hq
  cases hq with
  | none hnext => exact { h with below := hnum.below }
  | some a hnext =>
    refine { hnum with single := ?_, above := fun frame hfrm old hold => ?_, rising := h.rising }
    · simp [Observation.push, hnil]
    · simp only [Observation.push, hnil, nil_append, mem_singleton] at hfrm
      exact hfrm ▸ h.below old (h.sent old hold)

theorem Rising.transmit (h : Rising w) (count : Nat) : Rising (w.transmit count) := by
  have hnum := h.toNumbered.transmit count
  have hrest : ∀ frame ∈ (w.transmit count).outboundObservations, frame ∈ w.outboundObservations := fun _ =>
    mem_of_mem_take
  rcases Nat.eq_zero_or_pos count with rfl | hcnt
  · have hsent : (w.transmit 0).sent = w.sent := by simp [Observation.transmit]
    refine { hnum with single := ?_, above := fun frame hfrm => hsent ▸ h.above frame (hrest frame hfrm), rising := ?_ }
    · exact (length_take_le _ _).trans (by simpa using h.single)
    · exact hsent ▸ h.rising
  · have hall : w.outboundObservations.length - count = 0 := by have := h.single; omega
    refine { hnum with single := ?_, above := ?_, rising := ?_ } <;> simp only [Observation.transmit, hall, take_zero, drop_zero]
    · exact Nat.zero_le 1
    · nofun
    · rw [map_append, pairwise_append]
      refine ⟨?_, h.rising, fun n hn old hold => ?_⟩
      · cases hout : w.outboundObservations with
        | nil => exact .nil
        | cons frame rest =>
          obtain rfl : rest = [] := by simpa [hout] using h.single
          exact pairwise_singleton _ _
      · obtain ⟨frame, hfrm, rfl⟩ := mem_map.mp hn
        obtain ⟨other, hoth, rfl⟩ := mem_map.mp hold
        exact h.above frame hfrm other hoth

theorem Rising.step (h : Rising w) {e : Event} (he : Alone w e) (hs : w.step e = some w') : Rising w' := by
  have hnum := h.toNumbered.step hs
  cases e with
  | migrate remote | acked packet =>
    cases hs
    exact { hnum with single := h.single, above := h.above, rising := h.rising }
  | check gain =>
    cases hs
    exact h.queues he (queues_check w gain)
  | build => exact h.queues he (queues_build hs)
  | queue address =>
    cases hs
    exact h.queues he (.some address rfl)
  | transmit count =>
    cases hs
    exact h.transmit count
  | lost packet =>
    cases hs
    have hsame : w.outboundObservations ++ w.inFlight.getD packet [] = w.outboundObservations := by
      rw [show w.inFlight.getD packet [] = [] from he, append_nil]
    refine { hnum with single := ?_, above := ?_, rising := h.rising } <;> simp only [hsame]
    · exact h.single
    · exact h.above
  | arrive frame =>
    simp only [Observation.step] at hs
    split at hs
    · cases hs
      exact { hnum with single := h.single, above := h.above, rising := h.rising }
    · cases hs

end Observation

/-! Which connection a `PUNCH_ME_NOW` frame is relayed on. -/

namespace Endpoint
open BTreeMap

variable {s s' : Endpoint} {e : Event} {ch : Nat} {p : Bytes}

def Has (s : Endpoint) (ch : Nat) (p : Bytes) : Prop := (s.connections.get ch).bind (·.peerId) = some p

structure Mapped (s : Endpoint) : Prop where
  sound : ∀ p ch, s.peerConnections p = some ch → s.Has ch p
  complete : ∀ p ch, s.Has ch p → s.peerConnections p ≠ none

/-- A frame for a peer that has a connection is queued on a connection of that peer. A frame for any other target is
    dropped, or queued on a connection whose address the target stands for. -/
structure Relays (s : Endpoint) : Prop extends Mapped s where
  queued : ∀ p frame, (∃ ch, s.Has ch p) → ∃ ch, s.Has ch p ∧ s.relayPunchMeNow p frame =
    { s with pendingRelayEvents := s.pendingRelayEvents ++ [(ch, { frame with targetPeerId := none })] }
  unknown : ∀ p frame, (∀ ch, ¬ s.Has ch p) → s.relayPunchMeNow p frame = s ∨
    ∃ ch connection, s.connections.get ch = some connection ∧ wireIdFromAddr connection.remote = p ∧
      s.relayPunchMeNow p frame =
        { s with pendingRelayEvents := s.pendingRelayEvents ++ [(ch, { frame with targetPeerId := none })] }

/-- The identity of a connection only changes while its peer is reached over another one, and a connection is the last of
    its peer when it is drained. -/
def Settles (s : Endpoint) : Event → Prop
  | .setConnectionPeerId ch p => ((s.connections.get ch).bind (·.peerId)).all fun q => q = p || s.peerConnections q ≠ some ch
  | .drained ch => ((s.connections.get ch).bind (·.peerId)).all fun p =>
      s.connections.entries.all fun entry => entry.1 = ch || entry.2.peerId ≠ some p
  | _ => True

instance : ∀ e, Decidable (Settles s e) := fun e => by unfold Settles; split <;> infer_instance

section
variable (h : Mapped s)
include h

theorem Mapped.relays : Relays s where
  toMapped := h
  queued p frame hp := by
    obtain ⟨ch, hch⟩ := hp
    obtain ⟨ch, hmap⟩ := Option.ne_none_iff_exists'.mp (h.complete p ch hch)
    have hhas := h.sound p ch hmap
    obtain ⟨connection, hget, -⟩ := Option.bind_eq_some_iff.mp hhas
    refine ⟨ch, hhas, ?_⟩
    simp [relayPunchMeNow, relayTarget, relayFrameToConnection, hmap, hget]
  unknown p frame hp := by
    have hnone : s.peerConnections p = none := Option.eq_none_iff_forall_ne_some.mpr fun ch hch => hp ch (h.sound p ch hch)
    unfold relayPunchMeNow relayTarget
    rw [hnone, Option.none_or]
    cases hfind : s.connections.entries.find? fun entry => wireIdFromAddr entry.2.remote = p with
    | none => exact .inl rfl
    | some entry =>
      have hget := get_eq_some.mpr (mem_def.mpr (List.mem_of_find?_eq_some hfind))
      refine .inr ⟨entry.1, entry.2, hget, by simpa using List.find?_some hfind, ?_⟩
      simp [relayFrameToConnection, hget]

theorem mapped_relayPunchMeNow {frame : PunchMeNow} : Mapped (s.relayPunchMeNow p frame) := by
  unfold relayPunchMeNow relayFrameToConnection
  split
  · split
    · exact ⟨h.sound, h.complete⟩
    · exact h
  · exact h

theorem mapped_setConnectionPeerId : Mapped (s.setConnectionPeerId ch p) ↔ Settles s (.setConnectionPeerId ch p) := by
  unfold setConnectionPeerId Settles
  cases hget : s.connections.get ch with
  | none => simp [h, hget]
  | some connection =>
    have hhas : ∀ ch' q, ({ s with connections := s.connections.insert ch { connection with peerId := some p } }.registerPeer
        p ch).Has ch' q ↔ if ch' = ch then q = p else s.Has ch' q := fun ch' q => by
      unfold Has registerPeer
      rw [get_insert]
      split <;> simp [eq_comm]
    constructor
    · intro hm
      cases hq : connection.peerId with
      | none => simp [hget, hq]
      | some q =>
        by_cases hqp : q = p
        · simp [hget, hq, hqp]
        have := fun hmap => (hhas ch q).mp (hm.sound q ch (by simpa [registerPeer, hqp] using hmap))
        simpa [hget, hq, hqp] using this
    · intro hset
      refine ⟨fun q ch' hmap => (hhas ch' q).mpr ?_, fun q ch' hq => ?_⟩
      · have := h.sound q ch'
        grind [registerPeer, Has]
      · have := h.complete q ch'
        grind [registerPeer]

theorem mapped_drained : Mapped (s.drained ch) ↔ Settles s (.drained ch) := by
  unfold drained Settles
  cases hget : s.connections.get ch with
  | none => simp [h, hget]
  | some connection =>
    have hmem : ∀ ch' q, s.Has ch' q ↔ ∃ entry ∈ s.connections.entries, entry.1 = ch' ∧ entry.2.peerId = some q := fun ch' q => by
      unfold Has
      simp [Option.bind_eq_some_iff, get_eq_some, mem_def]
    have hhas : ∀ ch' q, Has { s with connections := s.connections.remove ch
                                      peerConnections := fun p => if connection.peerId = some p then none else s.peerConnections p }
        ch' q ↔ ch' ≠ ch ∧ s.Has ch' q := fun ch' q => by
      unfold Has
      rw [get_remove]
      split <;> simp [*]
    constructor
    · intro hm
      cases hq : connection.peerId with
      | none => simp [hget, hq]
      | some q =>
        have := fun ch' hch => hm.complete q ch' ((hhas ch' q).mpr hch)
        simp only [hq, hmem] at this ⊢
        grind
    · intro hset
      refine ⟨fun q ch' hmap => (hhas ch' q).mpr ?_, fun q ch' hq => ?_⟩
      · have := h.sound q ch'
        grind [Has]
      · have := h.complete q ch' ((hhas ch' q).mp hq).2
        grind

theorem mapped_step (hs : s.step e = some s') : Mapped s' ↔ Settles s e := by
  cases e with
  | connected ch remote =>
    simp only [step, addConnection] at hs
    split at hs <;> cases hs
    next hsome =>
    have hnone := Option.not_isSome_iff_eq_none.mp hsome
    refine iff_of_true ⟨fun q ch' hmap => ?_, fun q ch' hhas => ?_⟩ trivial
    · have := h.sound q ch' hmap
      grind [Has, get_insert]
    · refine h.complete q ch' ?_
      grind [Has, get_insert]
  | setConnectionPeerId ch p => cases hs; exact mapped_setConnectionPeerId h
  | relayPunchMeNow target frame => cases hs; exact iff_of_true (mapped_relayPunchMeNow h) trivial
  | drainRelayEvents => cases hs; exact iff_of_true ⟨h.sound, h.complete⟩ trivial
  | drained ch => cases hs; exact mapped_drained h

end

/-- In every run of that kind frames are relayed to the right peer, and a step of any other kind would end that. -/
theorem punch_me_now_relayed (h : Reaches step Settles (· = .new) s) :
    Relays s ∧ ∀ e s', s.step e = some s' → (Relays s' ↔ Settles s e) := by
  have hm : Mapped s := h.invariant (fun _ hs => hs ▸ ⟨by simp [new], by simp [new, Has]⟩)
    fun _ _ _ hs he ht => (mapped_step hs ht).mpr he
  exact ⟨hm.relays, fun e s' hs => ⟨fun hr => (mapped_step hm hs).mp hr.toMapped, fun he => ((mapped_step hm hs).mpr he).relays⟩⟩

def home : SocketAddr := ⟨true, 3221225985, 9000⟩

def reconnect : List Event :=
  [.connected 0 home, .setConnectionPeerId 0 [1], .connected 1 home, .drained 0, .setConnectionPeerId 1 [1]]

theorem punch_me_now_relayed_reconnect : ∃ s, runFrom step Settles .new reconnect = some s ∧
    s.peerConnections [1] = some 1 ∧ Relays s :=
  ⟨_, rfl, rfl, (@punch_me_now_relayed _ (.runFrom reconnect (.start rfl) rfl)).1⟩

/-- The old connection is drained while the new one is live: the peer is not found any more. A connection that changes its
    peer keeps the entry of the other one. -/
theorem punch_me_now_lost : ∃ s s', runFrom step (fun _ _ => True) .new
      [.connected 0 home, .setConnectionPeerId 0 [1], .connected 1 home, .setConnectionPeerId 1 [1], .drained 0] = some s ∧
    s.Has 1 [1] ∧ s.relayPunchMeNow [1] ⟨1, 0, home, some [1]⟩ = s ∧ ¬ Relays s ∧
    runFrom step (fun _ _ => True) .new
      [.connected 0 home, .setConnectionPeerId 0 [1], .setConnectionPeerId 0 [2]] = some s' ∧
    s'.peerConnections [1] = some 0 ∧ s'.Has 0 [2] ∧ ¬ Relays s' :=
  ⟨_, _, rfl, rfl, rfl, fun h => h.complete [1] 1 rfl rfl, rfl, rfl, rfl, fun h => nomatch h.sound [1] 0 rfl⟩

end Endpoint
end SaorsaTransport
