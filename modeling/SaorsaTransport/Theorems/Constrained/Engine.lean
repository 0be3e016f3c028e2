import Mathlib.Data.List.TakeWhile
import SaorsaTransport.Constrained.Engine

/-! What the operations of a constrained connection can do, and what they leave alone. -/

namespace SaorsaTransport.Constrained
open List

namespace ConstrainedHeader

/-- A packet without data, acknowledgment, SYN and FIN. -/
structure Bare (header : ConstrainedHeader) : Prop where
  data : header.isData = false
  ack : header.isAck = false
  syn : header.isSyn = false
  fin : header.isFin = false

theorem Bare.of_flags {header : ConstrainedHeader} (h : header.flags &&& 0x17 = 0) : Bare header := by
  have hand : ∀ flag : PacketFlags, 0x17 &&& flag = flag → header.flags.has flag = false := by
    intro flag hflag
    rw [PacketFlags.has, ← hflag, ← BitVec.and_assoc, h]
    simp
  exact ⟨hand _ rfl, hand _ rfl, hand _ rfl, hand _ rfl⟩

section
variable (id : ConnectionId)
include id

theorem bare_reset : Bare (reset id) := .of_flags (by decide : PacketFlags.rst &&& 0x17 = 0)
theorem bare_ping (seq : SequenceNumber) : Bare (ping id seq) :=
  .of_flags (by decide : PacketFlags.ping &&& 0x17 = 0)
theorem bare_pong (ack : SequenceNumber) : Bare (pong id ack) :=
  .of_flags (by decide : PacketFlags.pong &&& 0x17 = 0)

theorem ackOnly_flags (seq ack : SequenceNumber) :
    (ackOnly id seq ack).isData = false ∧ (ackOnly id seq ack).isSyn = false ∧ (ackOnly id seq ack).isFin = false :=
  (by decide : PacketFlags.ack.has .data = false ∧ PacketFlags.ack.has .syn = false ∧ PacketFlags.ack.has .fin = false)

theorem data_flags (seq ack : SequenceNumber) :
    (data id seq ack).isSyn = false ∧ (data id seq ack).isFin = false ∧ (data id seq ack).isData = true ∧
      (data id seq ack).isRst = false :=
  (by decide : (PacketFlags.data ||| .ack : PacketFlags).has .syn = false ∧
    (PacketFlags.data ||| .ack : PacketFlags).has .fin = false ∧ (PacketFlags.data ||| .ack : PacketFlags).has .data = true ∧
    (PacketFlags.data ||| .ack : PacketFlags).has .rst = false)

theorem fin_flags (seq ack : SequenceNumber) : (fin id seq ack).isData = false ∧ (fin id seq ack).isSyn = false :=
  (by decide : (PacketFlags.fin ||| .ack : PacketFlags).has .data = false ∧
    (PacketFlags.fin ||| .ack : PacketFlags).has .syn = false)

theorem syn_flags : (syn id).isData = false ∧ (syn id).isAck = false ∧ (syn id).isFin = false :=
  (by decide : PacketFlags.syn.has .data = false ∧ PacketFlags.syn.has .ack = false ∧ PacketFlags.syn.has .fin = false)

theorem synAck_flags (ack : SequenceNumber) :
    (synAck id ack).isData = false ∧ (synAck id ack).isSyn = true ∧ (synAck id ack).isFin = false :=
  (by decide : PacketFlags.synAck.has .data = false ∧ PacketFlags.synAck.has .syn = true ∧
    PacketFlags.synAck.has .fin = false)

end

end ConstrainedHeader

theorem ne_nil_of_mem_chunks {size : Nat} (hsize : 0 < size) {chunk : Bytes} :
    ∀ {fuel : Nat} {data : Bytes}, chunk ∈ chunks size fuel data → chunk ≠ []
  | 0, _, h | _ + 1, [], h => absurd h not_mem_nil
  | fuel + 1, byte :: data, h => by
    rcases mem_cons.mp h with rfl | h
    · obtain ⟨n, rfl⟩ := Nat.exists_eq_succ_of_ne_zero (ne_of_gt hsize)
      exact cons_ne_nil _ _
    · exact ne_nil_of_mem_chunks hsize h

/-- The handshake is over, and the connection is not established any more. -/
def ConnectionState.Past : ConnectionState → Prop
  | .synSent | .synReceived | .established => False
  | _ => True

namespace ConstrainedConnection
variable {c d : ConstrainedConnection} {packet : ConstrainedPacket} {elapsed : Elapsed}

theorem force_recvRst (c : ConstrainedConnection) : c.force .recvRst = c.setState .closed := by
  obtain ⟨_, _, state, _, _, _, _, _, _, _, _⟩ := c
  cases state <;> rfl

theorem force_timeout (c : ConstrainedConnection) : c.force .timeout = c.setState .closed := by
  obtain ⟨_, _, state, _, _, _, _, _, _, _, _⟩ := c
  cases state <;> rfl

theorem transition_eq {event : StateEvent} {state : ConnectionState} (h : c.state.nextState event = .ok state) :
    c.transition event = .ok (c.setState state) := by
  rw [transition, h]
  rfl

theorem state_onAck (c : ConstrainedConnection) (header : ConstrainedHeader) : (c.onAck header).state = c.state := by
  unfold onAck
  split <;> rfl

theorem state_onData (c : ConstrainedConnection) (packet : ConstrainedPacket) : (c.onData packet).state = c.state := by
  unfold onData
  split
  · split <;> rfl
  · rfl

inductive Processed (c : ConstrainedConnection) (packet : ConstrainedPacket) : ConstrainedConnection → Prop
  | ignored : Processed c packet c
  | reset : packet.header.isRst = true → Processed c packet ((c.setState .closed).emit .reset)
  | connected : c.state = .synSent → packet.header.isSynAck = true →
    Processed c packet (({ c.setState .established with
        receiveWindow := c.receiveWindow.resetWithSeq packet.header.seq.next }.push
      (.control (.ackOnly c.connectionId c.localSeq packet.header.seq.next))).emit .connected)
  | accepted : c.state = .synReceived → packet.header.isAck = true →
    Processed c packet ((c.setState .established).emit .connected)
  | established : c.state = .established → packet.header.isFin = false →
    Processed c packet (((c.onAck packet.header).onData packet).onPing packet.header)
  | finReceived : c.state = .established → packet.header.isFin = true →
    Processed c packet ((((((c.onAck packet.header).onData packet).setState .closing).push
      (.control (.ackOnly c.connectionId c.localSeq packet.header.seq.next))).emit .closed).onPing packet.header)
  | finAcked : c.state = .finWait → packet.header.isAck = true → packet.header.isFin = false →
    Processed c packet (c.setState .closing)
  | finBoth : c.state = .finWait → packet.header.isFin = true → Processed c packet ((c.setState .timeWait).emit .closed)
  | done : c.state = .closing → Processed c packet (c.setState .timeWait)

theorem onFinWait_cases (hst : c.state = .finWait) :
    ∃ d, c.onFinWait packet.header = (.ok (), d) ∧ Processed c packet d := by
  have hacked : c.transition .recvAck = .ok (c.setState .closing) := transition_eq (by rw [hst]; rfl)
  have hfin : c.transition .recvFin = .ok (c.setState .timeWait) := transition_eq (by rw [hst]; rfl)
  have hboth : (c.setState .closing).transition .recvFin = .ok (c.setState .timeWait) := rfl
  unfold onFinWait
  cases hack : packet.header.isAck with
  | true =>
    rw [if_pos rfl, hacked]
    cases hisFin : packet.header.isFin with
    | true => exact ⟨_, by simp only [if_pos, hboth], .finBoth hst hisFin⟩
    | false => exact ⟨_, rfl, .finAcked hst hack hisFin⟩
  | false =>
    rw [if_neg Bool.false_ne_true]
    cases hisFin : packet.header.isFin with
    | true => exact ⟨_, by simp only [if_pos, hfin], .finBoth hst hisFin⟩
    | false => exact ⟨_, rfl, .ignored⟩

theorem transition_recvFin (packet : ConstrainedPacket) (hst : c.state = .established) :
    ((c.onAck packet.header).onData packet).transition .recvFin =
      .ok (((c.onAck packet.header).onData packet).setState .closing) :=
  transition_eq (by rw [state_onData, state_onAck, hst]; rfl)

theorem onEstablished_cases (hst : c.state = .established) :
    ∃ d, c.onEstablished packet = (.ok (), d) ∧ Processed c packet d := by
  unfold onEstablished
  dsimp only
  cases hisFin : packet.header.isFin with
  | true =>
    rw [if_pos rfl, transition_recvFin packet hst]
    exact ⟨_, rfl, .finReceived hst hisFin⟩
  | false => exact ⟨_, rfl, .established hst hisFin⟩

theorem processPacket_cases (c : ConstrainedConnection) (packet : ConstrainedPacket) :
    ∃ d, c.processPacket packet = (.ok (), d) ∧ Processed c packet d := by
  unfold processPacket
  dsimp only
  split
  · next hrst => exact ⟨_, by rw [force_recvRst], .reset hrst⟩
  split
  · exact ⟨_, rfl, .ignored⟩
  · next hst =>
    split
    · next hsyn =>
      have htrans : c.transition .recvSynAck = .ok (c.setState .established) :=
        transition_eq (by rw [hst]; rfl)
      exact ⟨_, by rw [onSynAck, htrans], .connected hst hsyn⟩
    · exact ⟨_, rfl, .ignored⟩
  · next hst =>
    split
    · next hack =>
      have htrans : c.transition .recvAck = .ok (c.setState .established) :=
        transition_eq (by rw [hst]; rfl)
      exact ⟨_, by rw [htrans], .accepted hst hack⟩
    · exact ⟨_, rfl, .ignored⟩
  · next hst => exact onEstablished_cases hst
  · next hst => exact onFinWait_cases hst
  · next hst =>
    split
    · have htrans : c.transition .recvAck = .ok (c.setState .timeWait) :=
        transition_eq (by rw [hst]; rfl)
      exact ⟨_, by rw [htrans], .done hst⟩
    · exact ⟨_, rfl, .ignored⟩
  · exact ⟨_, rfl, .ignored⟩

theorem close_cases (c : ConstrainedConnection) :
    (∃ e, c.close = .error e) ∨ ∃ state : ConnectionState, ¬ c.state.Past ∧ state.Past ∧
      c.close = .ok (.control (.fin c.connectionId c.localSeq c.receiveWindow.cumulativeAck), c.setState state) := by
  obtain ⟨_, _, state, _, _, _, _, _, _, _, _⟩ := c
  cases state with
  | synSent | synReceived => exact .inr ⟨.closed, id, trivial, rfl⟩
  | established => exact .inr ⟨.finWait, id, trivial, rfl⟩
  | closed | finWait | closing | timeWait => exact .inl ⟨_, rfl⟩

def Expires (c : ConstrainedConnection) (elapsed : Elapsed) : Prop :=
  c.state.timeout.any (· < elapsed.inState) = true ∨ c.config.idleTimeout < elapsed.activity ∨
    (c.sendWindow.getRetransmissions elapsed.overdue).1 = none

inductive Polled (c : ConstrainedConnection) (elapsed : Elapsed) : List ConstrainedPacket → ConstrainedConnection → Prop
  | expired (message : String) (sendWindow : SendWindow) : c.Expires elapsed →
    sendWindow = c.sendWindow ∨ sendWindow = (c.sendWindow.getRetransmissions elapsed.overdue).2 →
    Polled c elapsed [] (({ c with sendWindow }.setState .closed).emit (.error message))
  | sent (retransmits : List (SequenceNumber × Bytes)) (sendWindow : SendWindow) :
    c.sendWindow.getRetransmissions elapsed.overdue = (some retransmits, sendWindow) →
    Polled c elapsed (c.transmit elapsed retransmits) { c with sendWindow, outbound := [] }

theorem poll_cases (c : ConstrainedConnection) (elapsed : Elapsed) :
    Polled c elapsed (c.poll elapsed).1 (c.poll elapsed).2 := by
  unfold poll
  split
  · next hst =>
    rw [expire, force_timeout]
    exact .expired _ _ (.inl hst) (.inl rfl)
  split
  · next hidle =>
    rw [expire, force_timeout]
    exact .expired _ _ (.inr (.inl hidle)) (.inl rfl)
  split
  · next sendWindow hretx =>
    rw [expire, force_timeout]
    exact .expired _ _ (.inr (.inr (congrArg Prod.fst hretx))) (.inr (by rw [hretx]))
  · next hretx => exact .sent _ _ hretx

structure Same (c d : ConstrainedConnection) : Prop where
  connectionId : d.connectionId = c.connectionId
  remoteAddr : d.remoteAddr = c.remoteAddr
  config : d.config = c.config
  isInitiator : d.isInitiator = c.isInitiator

namespace Same

theorem refl (c : ConstrainedConnection) : Same c c := ⟨rfl, rfl, rfl, rfl⟩

theorem trans {e : ConstrainedConnection} (h : Same c d) (h' : Same d e) : Same c e :=
  ⟨h'.connectionId.trans h.connectionId, h'.remoteAddr.trans h.remoteAddr, h'.config.trans h.config,
    h'.isInitiator.trans h.isInitiator⟩

theorem onAck (c : ConstrainedConnection) (header : ConstrainedHeader) : Same c (c.onAck header) := by
  unfold ConstrainedConnection.onAck
  split
  · exact ⟨rfl, rfl, rfl, rfl⟩
  · exact refl c

theorem onData (c : ConstrainedConnection) (packet : ConstrainedPacket) : Same c (c.onData packet) := by
  unfold ConstrainedConnection.onData
  split
  · split <;> exact ⟨rfl, rfl, rfl, rfl⟩
  · exact refl c

theorem onPing (c : ConstrainedConnection) (header : ConstrainedHeader) : Same c (c.onPing header) := by
  unfold ConstrainedConnection.onPing
  split
  · exact ⟨rfl, rfl, rfl, rfl⟩
  · exact refl c

theorem processed (h : Processed c packet d) : Same c d := by
  have hdata := (onAck c packet.header).trans (onData _ packet)
  cases h with
  | ignored => exact refl c
  | reset | connected | accepted => exact ⟨rfl, rfl, rfl, rfl⟩
  | established => exact hdata.trans (onPing _ _)
  | finReceived =>
    refine trans (hdata.trans ?_) (onPing _ _)
    exact ⟨rfl, rfl, rfl, rfl⟩
  | finAcked | finBoth | done => exact ⟨rfl, rfl, rfl, rfl⟩

theorem polled {packets : List ConstrainedPacket} (h : Polled c elapsed packets d) : Same c d := by
  cases h with
  | expired | sent => exact ⟨rfl, rfl, rfl, rfl⟩

theorem incoming (c : ConstrainedConnection) (packet : ConstrainedPacket) (elapsed : Elapsed) :
    Same c (c.incoming packet elapsed).2 := by
  obtain ⟨d, hd, hproc⟩ := processPacket_cases c packet
  rw [ConstrainedConnection.incoming, hd]
  have hclr : Same d { d with events := [] } := ⟨rfl, rfl, rfl, rfl⟩
  exact ((processed hproc).trans hclr).trans (polled (poll_cases _ elapsed))

theorem sendChunks : ∀ (c : ConstrainedConnection) (rest : List Bytes), Same c (c.sendChunks rest).2
  | c, [] => refl c
  | c, chunk :: rest => by
    unfold ConstrainedConnection.sendChunks
    cases hchunk : c.sendChunk chunk with
    | none => exact refl c
    | some d =>
      obtain ⟨window, -, rfl⟩ := Option.map_eq_some_iff.mp hchunk
      refine trans ?_ (sendChunks _ rest)
      exact ⟨rfl, rfl, rfl, rfl⟩

theorem sendNow {data : Bytes} {r : Except ConstrainedError (List ConstrainedPacket)}
    (h : c.sendNow data elapsed = some (r, d)) : Same c d := by
  obtain ⟨⟨result, e⟩, hsend, heq⟩ := Option.map_eq_some_iff.mp h
  have hsame : Same c e := by
    unfold ConstrainedConnection.send at hsend
    split at hsend
    · obtain ⟨-, rfl⟩ := Prod.mk.inj (Option.some.inj hsend)
      exact refl c
    split at hsend
    · cases hsend
    have := sendChunks c (chunks c.config.mss data.length data)
    rwa [Option.some.inj hsend] at this
  cases result with
  | error err =>
    obtain ⟨-, rfl⟩ := Prod.mk.inj heq
    exact hsame
  | ok u =>
    obtain ⟨-, rfl⟩ := Prod.mk.inj heq
    exact hsame.trans (polled (poll_cases e elapsed))

theorem close {fin : ConstrainedPacket} (h : c.close = .ok (fin, d)) : Same c d := by
  rcases close_cases c with ⟨e, herr⟩ | ⟨state, -, -, hok⟩
  · cases herr.symm.trans h
  obtain ⟨-, rfl⟩ := Prod.mk.inj (Except.ok.inj (hok.symm.trans h))
  exact ⟨rfl, rfl, rfl, rfl⟩

end Same
end ConstrainedConnection

/-! What a call of `send` leaves behind when it fails, and what a packet with data is answered with. A message can fail
    after some of its pieces were queued; data that was received before is not acknowledged again. -/

open Option

namespace ConstrainedConnection
variable {c d : ConstrainedConnection} {packet : ConstrainedPacket} {data : Bytes}

/-- How many packets the send window still takes. -/
def room (self : ConstrainedConnection) : Nat := self.sendWindow.config.windowSize - self.sendWindow.unacked.length

structure Untouched (c d : ConstrainedConnection) : Prop where
  sendWindow : d.sendWindow = c.sendWindow
  localSeq : d.localSeq = c.localSeq
  outbound : d.outbound = c.outbound

def pieces (self : ConstrainedConnection) (data : Bytes) : List Bytes := chunks self.config.mss data.length data

theorem state_onPing (c : ConstrainedConnection) (header : ConstrainedHeader) : (c.onPing header).state = c.state := by
  unfold onPing
  split <;> rfl

/-- An ACK with the current cumulative acknowledgment is queued for the packet. -/
def Acknowledges (c : ConstrainedConnection) (packet : ConstrainedPacket) : Prop :=
  ∃ p ∈ (c.processPacket packet).2.outbound.drop c.outbound.length, p.header.isAck = true ∧
    p.header.ack = (c.processPacket packet).2.receiveWindow.cumulativeAck

theorem onData_expected (hdata : packet.header.isData = true) (hpay : packet.payload ≠ [])
    (hseq : packet.header.seq = c.receiveWindow.nextExpected) : ∃ p, (c.onData packet).outbound = c.outbound ++ [p] ∧
      p.header.isAck = true ∧ p.header.ack = (c.onData packet).receiveWindow.cumulativeAck := by
  have hin : c.receiveWindow.isInWindow c.receiveWindow.nextExpected = true := by
    simp [ReceiveWindow.isInWindow, SequenceNumber.isInWindow, SequenceNumber.distanceTo]
  simp only [onData, hdata, isEmpty_eq_false_iff.mpr hpay, ReceiveWindow.receive, hseq, hin]
  exact ⟨_, rfl, (by decide : PacketFlags.ack.has .ack = true), rfl⟩

theorem onData_unexpected (h : ¬ (packet.payload ≠ [] ∧ packet.header.seq = c.receiveWindow.nextExpected)) :
    (c.onData packet).outbound = c.outbound ∧
      (c.onData packet).receiveWindow.cumulativeAck = c.receiveWindow.cumulativeAck := by
  by_cases hpay : packet.payload = []
  · simp [onData, hpay]
  have hseq : packet.header.seq ≠ c.receiveWindow.nextExpected := fun heq => h ⟨hpay, heq⟩
  simp only [onData, ReceiveWindow.receive, hseq, if_false]
  split
  · split
    · next h => split at h <;> first | cases h | split at h <;> cases h
    · next h => split at h <;> first | (cases h; exact ⟨rfl, rfl⟩) | (split at h <;> cases h <;> exact ⟨rfl, rfl⟩)
  · exact ⟨rfl, rfl⟩

/-- What else an established connection queues: an ACK for a FIN, and a pong. -/
theorem onEstablished_queues (hst : c.state = .established) (a : SequenceNumber) : ∃ more : List ConstrainedPacket,
    (c.onEstablished packet).2.outbound = ((c.onAck packet.header).onData packet).outbound ++ more ∧
    (c.onEstablished packet).2.receiveWindow = ((c.onAck packet.header).onData packet).receiveWindow ∧
    ((∃ p ∈ more, p.header.isAck = true ∧ p.header.ack = a) ↔
      packet.header.isFin = true ∧ packet.header.seq.next = a) := by
  have hack (seq ack : SequenceNumber) : (ConstrainedHeader.ackOnly c.connectionId seq ack).isAck = true ∧
      (ConstrainedHeader.ackOnly c.connectionId seq ack).ack = ack :=
    ⟨(by decide : PacketFlags.ack.has .ack = true), rfl⟩
  have hpong (id : ConnectionId) : (ConstrainedHeader.pong id packet.header.seq).isAck = false :=
    (ConstrainedHeader.bare_pong id packet.header.seq).ack
  simp only [onEstablished, transition_recvFin packet hst, onPing, push, emit, setState, ConstrainedPacket.control]
  cases packet.header.isFin <;> cases packet.header.isPing
  · exact ⟨[], by simp, rfl, by simp⟩
  · exact ⟨_, rfl, rfl, by simp [hpong]⟩
  · exact ⟨_, rfl, rfl, by simp [hack]⟩
  · exact ⟨_, append_assoc _ _ _, rfl, by simp [hack, hpong]⟩

/-- A packet with data is acknowledged only if it is the next one, or if it also has the FIN behind which the window stands.
    -/
theorem data_acknowledged_iff (hstate : c.state = .established) (hdata : packet.header.isData = true) :
    c.Acknowledges packet ↔ packet.header.isRst = false ∧
      (packet.payload ≠ [] ∧ packet.header.seq = c.receiveWindow.nextExpected ∨
        packet.header.isFin = true ∧ packet.header.seq.next = c.receiveWindow.cumulativeAck) := by
  have hwindow : (c.onAck packet.header).receiveWindow = c.receiveWindow := by unfold onAck; split <;> rfl
  have houtbound : (c.onAck packet.header).outbound = c.outbound := by unfold onAck; split <;> rfl
  unfold Acknowledges
  cases hrst : packet.header.isRst with
  | true => simp [processPacket, hrst, force_recvRst, setState, emit]
  | false =>
    simp only [processPacket, hrst, hstate, Bool.false_eq_true, if_false, true_and]
    by_cases hnext : packet.payload ≠ [] ∧ packet.header.seq = c.receiveWindow.nextExpected
    · obtain ⟨more, hmore, hsame, -⟩ := @onEstablished_queues c packet hstate 0
      obtain ⟨p, hp, hack, hcumulative⟩ := onData_expected hdata hnext.1 (hnext.2.trans (congrArg _ hwindow.symm))
      rw [hmore, hp, houtbound, hsame, append_assoc, drop_left]
      exact iff_of_true ⟨p, by simp, hack, hcumulative⟩ (.inl hnext)
    obtain ⟨hqueue, hcumulative⟩ := @onData_unexpected (c.onAck packet.header) packet (by rwa [hwindow])
    obtain ⟨more, hmore, hsame, hiff⟩ := @onEstablished_queues c packet hstate c.receiveWindow.cumulativeAck
    rw [hmore, hqueue, houtbound, hsame, hcumulative, hwindow, drop_left, hiff]
    exact (or_iff_right hnext).symm

/-- An established connection that has sent, or received, one packet with data. -/
def once (sent : List SendEntry) (expected : SequenceNumber) : ConstrainedConnection :=
  { new 1 ⟨true, 0, 0⟩ ⟨⟨4, 1⟩, 8, 0, 60⟩ true with
    state := .established, sendWindow := ⟨⟨4, 1⟩, 0, sent⟩, receiveWindow := ⟨4, expected, 0, []⟩ }

theorem data_acknowledged_next : (once [] 1).Acknowledges (.data 1 1 0 [7]) :=
  (data_acknowledged_iff rfl (by decide)).mpr ⟨by decide, .inl ⟨by decide, rfl⟩⟩

/-- The ACK of a packet was lost. The packet is sent again and received again, no ACK is queued, and the sender gives up. -/
theorem resent_unacknowledged : ∃ (sender receiver : ConstrainedConnection) (packet : ConstrainedPacket) (late : Elapsed),
    receiver.state = .established ∧ packet.header.isData = true ∧ packet.payload ≠ [] ∧
    receiver.receiveWindow.nextExpected.distanceTo packet.header.seq < 0 ∧ ¬ receiver.Acknowledges packet ∧
    (sender.poll late).1 = [packet] ∧ ((sender.poll late).2.poll late).2.state = .closed := by
  refine ⟨once [⟨0, [7], 1⟩] 0, once [] 1, .data 1 0 0 [7], ⟨0, 0, 0, fun _ => true⟩, rfl, by decide, by decide, by decide,
    ?_, by decide, by decide⟩
  unfold Acknowledges
  decide

end ConstrainedConnection

/-! The two tables of the constrained engine agree as long as an identifier that `connect` generates is free and a SYN for
    a new connection comes from an address that has none; neither is checked by the code. -/

open Library ConstrainedConnection AList ConstrainedEngine ConstrainedPacket

namespace ConstrainedEngine
variable {s t : ConstrainedEngine} {id : ConnectionId} {conn : ConstrainedConnection}
variable {map : AList fun _ : SocketAddr => ConnectionId} {addr : SocketAddr} {d : ConstrainedConnection}

inductive Event where
  | connect (remoteAddr : SocketAddr)
  | incoming (remoteAddr : SocketAddr) (data : Bytes) (elapsed : Elapsed)
  | send (id : ConnectionId) (data : Bytes) (elapsed : Elapsed)
  | recv (id : ConnectionId)
  | close (id : ConnectionId)
  | reset (id : ConnectionId)
  | poll (due : Bool) (elapsed : ConnectionId → Elapsed)

def step (self : ConstrainedEngine) : Event → Option ConstrainedEngine
  | .connect remoteAddr => some (self.connect remoteAddr).2
  | .incoming remoteAddr data elapsed => some (self.processIncoming remoteAddr data elapsed).2
  | .send id data elapsed => (self.send id data elapsed).map Prod.snd
  | .recv id => some (self.recv id).2
  | .close id => some (self.close id).2
  | .reset id => some (self.reset id).2
  | .poll due elapsed => some (self.poll due elapsed).2

def Opens (self : ConstrainedEngine) (header : ConstrainedHeader) : Prop :=
  self.connections.lookup header.connectionId = none ∧ header.isSyn = true ∧ header.isAck = false

instance (self : ConstrainedEngine) (header : ConstrainedHeader) : Decidable (self.Opens header) :=
  inferInstanceAs (Decidable (_ ∧ _ ∧ _))

def Fresh (self : ConstrainedEngine) : Event → Prop
  | .connect _ => self.nextConnId ∉ self.connections
  | .incoming remoteAddr data _ => ∀ packet, fromBytes data = .ok packet → self.Opens packet.header →
    remoteAddr ∉ self.addrToConn
  | _ => True

instance (self : ConstrainedEngine) : ∀ event, Decidable (self.Fresh event)
  | .connect _ => inferInstanceAs (Decidable (¬ _))
  | .incoming remoteAddr data _ =>
    match h : fromBytes data with
    | .error _ => isTrue fun _ hpacket => nomatch h.symm.trans hpacket
    | .ok packet => decidable_of_iff (self.Opens packet.header → remoteAddr ∉ self.addrToConn)
        ⟨fun hfresh _ hother => Except.ok.inj (h.symm.trans hother) ▸ hfresh, fun hfresh => hfresh packet h⟩
  | .send .. | .recv _ | .close _ | .reset _ | .poll .. => isTrue trivial

def Consistent (self : ConstrainedEngine) : Prop :=
  ∀ addr id, self.addrToConn.lookup addr = some id ↔ ∃ conn, self.connections.lookup id = some conn ∧ conn.remoteAddr = addr

structure Sound (config : EngineConfig) (s : ConstrainedEngine) : Prop where
  count : s.connectionCount ≤ config.maxConnections
  consistent : s.Consistent
  config : s.config = config

theorem lookup_retain {other : ConnectionId} :
    (retain map id).lookup addr = some other ↔ map.lookup addr = some other ∧ other ≠ id := by
  rw [← mem_def, mem_lookup_iff, retain, mem_filter, decide_eq_true_eq, ← mem_lookup_iff, mem_def]

theorem connectionCount_setConnection (h : s.connections.lookup id = some conn) (d : ConstrainedConnection) :
    (s.setConnection id d).connectionCount = s.connectionCount := by
  have hmem : id ∈ s.connections.keys := mem_keys.mp (lookup_isSome.mp (isSome_of_mem h))
  rw [connectionCount, setConnection, keys_insert, length_cons, length_erase_of_mem hmem,
    Nat.sub_add_cancel (length_pos_of_mem hmem)]
  rfl

theorem length_keys_insert_le (s : ConstrainedEngine) (id : ConnectionId) (d : ConstrainedConnection) :
    (s.setConnection id d).connectionCount ≤ s.connectionCount + 1 := by
  rw [connectionCount, setConnection, keys_insert, length_cons]
  exact Nat.succ_le_succ (length_erase_le)

theorem length_keys_erase_le (s : ConstrainedEngine) (id : ConnectionId) :
    (s.connections.erase id).keys.length ≤ s.connectionCount := by
  rw [keys_erase]
  exact length_erase_le

theorem lookup_setConnection (s : ConstrainedEngine) (id : ConnectionId) (d : ConstrainedConnection) (other : ConnectionId) :
    (s.setConnection id d).connections.lookup other = if other = id then some d else s.connections.lookup other := by
  split
  · next heq => rw [heq]; exact lookup_insert _
  · next hne => exact lookup_insert_ne hne

namespace Consistent

section
variable (h : s.Consistent)
include h

theorem setConnection (hlook : s.connections.lookup id = some conn)
    (haddr : d.remoteAddr = conn.remoteAddr) : (s.setConnection id d).Consistent := by
  intro addr other
  rw [lookup_setConnection]
  refine (h addr other).trans ?_
  split
  · next heq =>
    subst heq
    rw [hlook]
    constructor
    · rintro ⟨e, he, rfl⟩
      cases he
      exact ⟨d, rfl, haddr⟩
    · rintro ⟨e, he, rfl⟩
      cases he
      exact ⟨conn, rfl, haddr.symm⟩
  · exact Iff.rfl

theorem insertConnection (hid : s.connections.lookup id = none)
    (hfree : s.addrToConn.lookup addr = none) (haddr : conn.remoteAddr = addr) :
    (s.insertConnection id conn addr).Consistent := by
  intro a other
  show (s.addrToConn.insert addr id).lookup a = some other ↔
    ∃ d, (s.setConnection id conn).connections.lookup other = some d ∧ d.remoteAddr = a
  rw [lookup_setConnection]
  by_cases ha : a = addr
  · subst ha
    rw [lookup_insert]
    split
    · next heq => exact ⟨fun _ => ⟨conn, rfl, haddr⟩, fun _ => by rw [heq]⟩
    next hne =>
    refine ⟨fun heq => absurd (some.inj heq).symm hne, fun hd => ?_⟩
    have := (h a other).mpr hd
    rw [hfree] at this
    cases this
  rw [lookup_insert_ne ha, h a other]
  split
  · next heq =>
    subst heq
    rw [hid]
    constructor
    · rintro ⟨d, hd, -⟩
      cases hd
    · rintro ⟨d, hd, rfl⟩
      cases hd
      exact absurd haddr ha
  · exact Iff.rfl

theorem unique {other : ConnectionId}
    (hlook : s.connections.lookup id = some conn) (hoth : s.connections.lookup other = some d)
    (haddr : conn.remoteAddr = d.remoteAddr) : id = other := by
  have hid := (h _ id).mpr ⟨conn, hlook, rfl⟩
  have hd := (h _ other).mpr ⟨d, hoth, haddr.symm⟩
  exact some.inj (hid.symm.trans hd)

theorem erase (hlook : s.connections.lookup id = some conn)
    (hmap : ∀ addr other, map.lookup addr = some other ↔ s.addrToConn.lookup addr = some other ∧ other ≠ id) :
    Consistent { s with connections := s.connections.erase id, addrToConn := map } := by
  intro addr other
  rw [hmap, h addr other]
  by_cases hoth : other = id
  · subst hoth
    rw [lookup_erase]
    exact ⟨fun hne => absurd rfl hne.2, fun ⟨d, hd, _⟩ => by cases hd⟩
  rw [lookup_erase_ne hoth]
  exact ⟨And.left, fun hd => ⟨hd, hoth⟩⟩

theorem removeClosed (id : ConnectionId) : (s.removeClosed id).Consistent := by
  unfold ConstrainedEngine.removeClosed
  split
  · exact h
  next conn hlook =>
  refine h.erase hlook fun addr other => ?_
  have hown := (h conn.remoteAddr id).mpr ⟨conn, hlook, rfl⟩
  by_cases haddr : addr = conn.remoteAddr
  · subst haddr
    rw [lookup_erase, hown]
    exact ⟨nofun, fun ⟨heq, hne⟩ => absurd (some.inj heq).symm hne⟩
  rw [lookup_erase_ne haddr]
  refine ⟨fun hlook' => ⟨hlook', ?_⟩, And.left⟩
  -- The only address of the connection is its own.
  rintro rfl
  obtain ⟨d, hd, hda⟩ := (h addr other).mp hlook'
  obtain rfl := some.inj (hd.symm.trans hlook)
  exact haddr hda.symm

end

end Consistent

variable {config : EngineConfig}

theorem Sound.new (config : EngineConfig) : Sound config (new config) where
  config := rfl
  consistent _ _ := ⟨nofun, fun ⟨_, h, _⟩ => by cases h⟩
  count := zero_le

section
variable (h : Sound config s)
include h

theorem Sound.setConnection (hlook : s.connections.lookup id = some conn)
    (haddr : d.remoteAddr = conn.remoteAddr) : Sound config (s.setConnection id d) where
  config := h.config
  consistent := h.consistent.setConnection hlook haddr
  count := (connectionCount_setConnection hlook d).trans_le h.count

theorem Sound.insertConnection (hroom : s.canAcceptConnection = true)
    (hid : s.connections.lookup id = none) (hfree : s.addrToConn.lookup addr = none)
    (haddr : conn.remoteAddr = addr) : Sound config (s.insertConnection id conn addr) where
  config := h.config
  consistent := h.consistent.insertConnection hid hfree haddr
  count := by
    have hlt := of_decide_eq_true hroom
    rw [h.config] at hlt
    exact (length_keys_insert_le s id conn).trans hlt

theorem Sound.of_tables (hcfg : t.config = s.config) (hconns : t.connections = s.connections)
    (haddr : t.addrToConn = s.addrToConn) : Sound config t where
  config := hcfg.trans h.config
  consistent addr id := by rw [haddr, hconns]; exact h.consistent addr id
  count := by rw [connectionCount, hconns]; exact h.count

theorem Sound.erase (hlook : s.connections.lookup id = some conn) :
    Sound config { s with connections := s.connections.erase id, addrToConn := retain s.addrToConn id } where
  config := h.config
  consistent := h.consistent.erase hlook fun _ _ => lookup_retain
  count := (length_keys_erase_le s id).trans h.count

theorem Sound.removeClosed (id : ConnectionId) : Sound config (s.removeClosed id) where
  config := by
    unfold ConstrainedEngine.removeClosed
    split
    · exact h.config
    · exact h.config
  consistent := h.consistent.removeClosed id
  count := by
    unfold ConstrainedEngine.removeClosed
    split
    · exact h.count
    · exact (length_keys_erase_le s id).trans h.count

end

theorem connect_cases (s : ConstrainedEngine) (addr : SocketAddr) :
    (s.connect addr).2 = s ∨ s.canAcceptConnection = true ∧ s.addrToConn.lookup addr = none ∧
      ∃ conn, conn.remoteAddr = addr ∧ (s.connect addr).2 =
        { s with nextConnId := followingConnId s.nextConnId }.insertConnection s.nextConnId conn addr := by
  unfold connect
  split
  · exact .inl rfl
  next hroom =>
  split
  · exact .inl rfl
  next hfree =>
  refine .inr ⟨?_, hfree, (ConstrainedConnection.new s.nextConnId addr s.config.connectionConfig true).setState
    .synSent, rfl, rfl⟩
  simpa using hroom

theorem processSyn_cases (s : ConstrainedEngine) (addr : SocketAddr) (header : ConstrainedHeader) :
    (s.processSyn addr header).2 = s ∨ s.canAcceptConnection = true ∧
      ∃ conn events, conn.remoteAddr = addr ∧
        (s.processSyn addr header).2 = { s.insertConnection header.connectionId conn addr with events } := by
  unfold processSyn
  split
  · exact .inl rfl
  next hroom =>
  refine .inr ⟨?_, (ConstrainedConnection.new header.connectionId addr s.config.connectionConfig false).setState
      .synReceived, _, rfl, rfl⟩
  simpa using hroom

theorem Sound.connect (h : Sound config s) (hfresh : s.nextConnId ∉ s.connections) : Sound config (s.connect addr).2 := by
  rcases connect_cases s addr with heq | ⟨hroom, hfree, conn, haddr, heq⟩
  · rwa [heq]
  rw [heq]
  have hcnt : Sound config { s with nextConnId := followingConnId s.nextConnId } := h.of_tables rfl rfl rfl
  exact hcnt.insertConnection hroom (lookup_eq_none.mpr hfresh) hfree haddr

theorem Sound.processKnown (h : Sound config s) {packet : ConstrainedPacket} (elapsed : Elapsed)
    (hlook : s.connections.lookup packet.header.connectionId = some conn) :
    Sound config (s.processKnown conn addr packet elapsed).2 := by
  have hsame := Same.incoming conn packet elapsed
  unfold ConstrainedEngine.processKnown
  split
  · next heq =>
    rw [heq] at hsame
    exact h.setConnection hlook hsame.remoteAddr
  next heq =>
  rw [heq] at hsame
  exact (h.setConnection hlook hsame.remoteAddr).of_tables rfl rfl rfl

theorem Sound.processIncoming (h : Sound config s) {data : Bytes} (elapsed : Elapsed)
    (hfresh : ∀ packet, fromBytes data = .ok packet → s.Opens packet.header → addr ∉ s.addrToConn) :
    Sound config (s.processIncoming addr data elapsed).2 := by
  unfold ConstrainedEngine.processIncoming
  split
  · exact h
  next packet hpkt =>
  unfold processPacket
  split
  · next conn hlook => exact h.processKnown elapsed hlook
  next hlook =>
  split
  · next hsyn =>
    obtain ⟨hsyn, hack⟩ := Bool.and_eq_true_iff.mp hsyn
    rcases processSyn_cases s addr packet.header with heq | ⟨hroom, conn, events, haddr, heq⟩
    · rwa [heq]
    rw [heq]
    have hfree := lookup_eq_none.mpr (hfresh packet hpkt ⟨hlook, hsyn, by simpa using hack⟩)
    exact (h.insertConnection hroom hlook hfree haddr).of_tables rfl rfl rfl
  · exact h

theorem Sound.pollConnection {state : Polling} (elapsed : ConnectionId → Elapsed) (h : Sound config state.engine)
    (id : ConnectionId) : Sound config (pollConnection elapsed state id).engine := by
  unfold ConstrainedEngine.pollConnection
  split
  · exact h
  next conn hlook =>
  have hsame := Same.polled (poll_cases conn (elapsed id))
  have hset : Sound config (state.engine.setConnection id { (conn.poll (elapsed id)).2 with events := [] }) :=
    h.setConnection hlook hsame.remoteAddr
  exact hset.of_tables rfl rfl rfl

theorem Sound.poll (h : Sound config s) (due : Bool) (elapsed : ConnectionId → Elapsed) :
    Sound config (s.poll due elapsed).2 := by
  unfold ConstrainedEngine.poll
  split
  · have hpoll : Sound config (s.connections.keys.foldl (ConstrainedEngine.pollConnection elapsed) ⟨s, [], []⟩).engine :=
      foldlRecOn (motive := fun state : Polling => Sound config state.engine) _ _ h
        fun state hst id _ => hst.pollConnection elapsed id
    exact foldlRecOn _ _ hpoll fun engine hengine id _ => hengine.removeClosed id
  · exact h

theorem Sound.step (h : Sound config s) {event : Event} (hfresh : s.Fresh event) (hstep : s.step event = some t) :
    Sound config t := by
  cases event with
  | connect addr =>
    cases hstep
    exact h.connect hfresh
  | incoming addr data elapsed =>
    cases hstep
    exact h.processIncoming elapsed hfresh
  | send id data elapsed =>
    obtain ⟨⟨r, t⟩, hsend, rfl⟩ := map_eq_some_iff.mp hstep
    unfold send at hsend
    split at hsend
    · obtain ⟨-, rfl⟩ := Prod.mk.inj (some.inj hsend)
      exact h
    next conn hlook =>
    obtain ⟨⟨r', d⟩, hd, heq⟩ := map_eq_some_iff.mp hsend
    obtain ⟨-, rfl⟩ := Prod.mk.inj heq
    exact h.setConnection hlook (Same.sendNow hd).remoteAddr
  | recv id =>
    cases hstep
    unfold recv
    split
    · exact h
    · next conn hlook => exact h.setConnection hlook rfl
  | close id =>
    cases hstep
    unfold close
    split
    · exact h
    next conn hlook =>
    split
    · exact h
    · next hclose => exact h.setConnection hlook (Same.close hclose).remoteAddr
  | reset id =>
    cases hstep
    unfold reset
    split
    · exact h
    · next conn hlook => exact h.erase hlook
  | poll due elapsed =>
    cases hstep
    exact h.poll due elapsed

/-- What becomes of a connection when a datagram arrives: a packet is for the connection that it names. -/
def received (data : Bytes) (elapsed : Elapsed) (id : ConnectionId) (conn : ConstrainedConnection) : ConstrainedConnection :=
  match fromBytes data with
  | .error _ => conn
  | .ok packet => if packet.header.connectionId = id then (conn.incoming packet elapsed).2 else conn

theorem lookup_insert_of_lookup {other : ConnectionId} (hid : s.connections.lookup id = none)
    (hlook : s.connections.lookup other = some d) : (s.connections.insert id conn).lookup other = some d := by
  have hne : other ≠ id := by
    rintro rfl
    rw [hid] at hlook
    cases hlook
  rw [lookup_insert_ne hne]
  exact hlook

theorem lookup_connect (hfresh : s.nextConnId ∉ s.connections) (hlook : s.connections.lookup id = some conn) :
    (s.connect addr).2.connections.lookup id = some conn := by
  rcases connect_cases s addr with heq | ⟨-, -, new, -, heq⟩
  · rw [heq]
    exact hlook
  · rw [heq]
    exact lookup_insert_of_lookup (lookup_eq_none.mpr hfresh) hlook

theorem processKnown_connections (s : ConstrainedEngine) (conn : ConstrainedConnection) (addr : SocketAddr)
    (packet : ConstrainedPacket) (elapsed : Elapsed) : (s.processKnown conn addr packet elapsed).2.connections =
      s.connections.insert packet.header.connectionId (conn.incoming packet elapsed).2 := by
  unfold processKnown
  split <;> next heq =>
    rw [heq]
    rfl

theorem lookup_processIncoming (addr : SocketAddr) (data : Bytes) (elapsed : Elapsed)
    (hlook : s.connections.lookup id = some conn) :
    (s.processIncoming addr data elapsed).2.connections.lookup id = some (received data elapsed id conn) := by
  unfold processIncoming received
  cases fromBytes data with
  | error e => exact hlook
  | ok packet =>
    simp only [processPacket]
    cases hknown : s.connections.lookup packet.header.connectionId with
    | some known =>
      simp only [processKnown_connections]
      split
      · next heq =>
        subst heq
        obtain rfl := some.inj (hlook.symm.trans hknown)
        exact lookup_insert _
      · next hne =>
        rw [lookup_insert_ne (Ne.symm hne)]
        exact hlook
    | none =>
      have hne : packet.header.connectionId ≠ id := fun heq => by
        rw [heq, hlook] at hknown
        cases hknown
      rw [if_neg hne]
      dsimp only
      split
      · rcases processSyn_cases s addr packet.header with heq | ⟨-, new, events, -, heq⟩
        · rw [heq]
          exact hlook
        · rw [heq]
          exact lookup_insert_of_lookup hknown hlook
      · exact hlook

/-- In every reachable state the tables agree, every address has one connection at most, the number of connections is
    within its limit, `connect` leaves every connection as it is, and an incoming packet all but its own. -/
theorem engine_tables_consistent (h : Reaches step Fresh (· = new config) s) :
    (∀ addr id, s.addrToConn.lookup addr = some id ↔
        ∃ conn, s.connections.lookup id = some conn ∧ conn.remoteAddr = addr) ∧
      (∀ id other conn d, s.connections.lookup id = some conn → s.connections.lookup other = some d →
        conn.remoteAddr = d.remoteAddr → id = other) ∧
      s.connectionCount ≤ config.maxConnections ∧
      ∀ id conn, s.connections.lookup id = some conn →
        (∀ addr, s.Fresh (.connect addr) → (s.connect addr).2.connections.lookup id = some conn) ∧
        ∀ addr data elapsed,
          (s.processIncoming addr data elapsed).2.connections.lookup id = some (received data elapsed id conn) := by
  have hsound : Sound config s := by
    refine h.invariant ?_ fun _ _ _ hs hfresh hstep => hs.step hfresh hstep
    rintro _ rfl
    exact Sound.new config
  refine ⟨hsound.consistent, fun _ _ _ _ hid hother haddr => hsound.consistent.unique hid hother haddr, hsound.count,
    fun _ _ hlook => ⟨fun _ hfresh => lookup_connect hfresh hlook, fun addr data elapsed =>
      lookup_processIncoming addr data elapsed hlook⟩⟩

def plainConfig : EngineConfig := ⟨8, ⟨⟨16, 5⟩, 235, 0, 300000⟩⟩

def peerA : SocketAddr := ⟨true, 1, 1000⟩

def peerB : SocketAddr := ⟨true, 2, 1000⟩

def noTime : Elapsed := ⟨0, 0, 0, fun _ => false⟩

def arrives (addr : SocketAddr) (header : ConstrainedHeader) : Event :=
  .incoming addr (control header).toBytes noTime

structure Tables where
  ofId : Option SocketAddr
  ofOther : Option SocketAddr
  ofPeerA : Option ConnectionId
  ofPeerB : Option ConnectionId
  deriving DecidableEq

def tables (id other : ConnectionId) (s : ConstrainedEngine) : Tables :=
  ⟨(s.connections.lookup id).map (·.remoteAddr), (s.connections.lookup other).map (·.remoteAddr),
    s.addrToConn.lookup peerA, s.addrToConn.lookup peerB⟩

theorem engine_tables_consistent_two :
    ∃ s, Reaches step Fresh (· = new plainConfig) s ∧ s.tables 1 9 = ⟨some peerA, some peerB, some 1, some 9⟩ ∧
      s.connectionCount ≤ 8 := by
  have hstart : Reaches step Fresh (· = new plainConfig) (new plainConfig) := .start rfl
  obtain ⟨s, hreach, htables⟩ := hstart.exists_of_runFrom
    (P := (tables 1 9 · = ⟨some peerA, some peerB, some 1, some 9⟩)) [.connect peerA, arrives peerB (.syn 9)]
    (by decide +kernel)
  exact ⟨s, hreach, htables, (engine_tables_consistent hreach).2.2.1⟩

/-- The peer has chosen the identifier that is generated next: `connect` replaces its connection, and both addresses
    have the same one. Or the peer opens two connections: the table of addresses knows the second; and when the first
    is reset and polled away, it knows none. -/
theorem engine_tables_diverge :
    (∃ s, Reaches step (fun _ _ => True) (· = new plainConfig) s ∧
      s.tables 1 2 = ⟨some peerA, none, some 1, none⟩ ∧
      (s.connect peerB).2.tables 1 2 = ⟨some peerB, none, some 1, some 1⟩) ∧
    (∃ s, Reaches step (fun _ _ => True) (· = new plainConfig) s ∧
      s.tables 5 6 = ⟨some peerA, some peerA, some 6, none⟩) ∧
    ∃ s, Reaches step (fun _ _ => True) (· = new plainConfig) s ∧
      s.tables 5 6 = ⟨none, some peerA, none, none⟩ := by
  have hstart : Reaches step (fun _ _ => True) (· = new plainConfig) (new plainConfig) := .start rfl
  refine ⟨?_, ?_, ?_⟩
  · exact hstart.exists_of_runFrom [arrives peerA (.syn 1)] (by decide +kernel)
  · exact hstart.exists_of_runFrom [arrives peerA (.syn 5), arrives peerA (.syn 6)] (by decide +kernel)
  · exact hstart.exists_of_runFrom [arrives peerA (.syn 5), arrives peerA (.syn 6), arrives peerA (.reset 5),
      .poll true fun _ => noTime] (by decide +kernel)

end ConstrainedEngine
end SaorsaTransport.Constrained
