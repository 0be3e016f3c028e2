import Mathlib.Data.List.Infix
import SaorsaTransport.Theorems.Constrained.Link

/-! What the applications of a constrained connection get, and what leaves the send windows. The initiator skips the first
    chunk of the responder: that chunk has the number of the SYN-ACK. -/

namespace SaorsaTransport.Constrained
open Library ConstrainedConnection List

namespace SendWindow

theorem retransmissions_of_not {maxRetries : Nat} {overdue : SequenceNumber → Bool} :
    ∀ {entries : List SendEntry}, (∀ e ∈ entries, overdue e.seq = false) →
      retransmissions maxRetries overdue entries = (some [], entries)
  | [], _ => rfl
  | entry :: entries, h => by
    rw [retransmissions, h entry mem_cons_self, if_neg Bool.false_ne_true,
      retransmissions_of_not fun e he => h e (mem_cons_of_mem _ he)]

theorem getRetransmissions_head {w : SendWindow} {entry : SendEntry} {rest : List SendEntry}
    (hunack : w.unacked = entry :: rest) (hretry : entry.transmissions ≤ w.config.maxRetries)
    (hrest : ∀ e ∈ rest, e.seq ≠ entry.seq) :
    (w.getRetransmissions (· = entry.seq)).1 = some [(entry.seq, entry.data)] := by
  have htail : retransmissions w.config.maxRetries (· = entry.seq) rest = (some [], rest) :=
    retransmissions_of_not fun e he => decide_eq_false (hrest e he)
  rw [getRetransmissions, hunack, retransmissions, if_pos (decide_eq_true rfl), if_neg (not_lt.mpr hretry), htail]
  rfl

end SendWindow

/-- No time has passed, except that the packet `seq` is due to be sent again. -/
def Elapsed.due (seq : SequenceNumber) : Elapsed := ⟨0, 0, 0, (· = seq)⟩

namespace ConstrainedConnection
variable {c d : ConstrainedConnection} {packet : ConstrainedPacket}

theorem poll_due {entry : SendEntry} {rest : List SendEntry} (hunack : c.sendWindow.unacked = entry :: rest)
    (hretry : entry.transmissions ≤ c.sendWindow.config.maxRetries) (hrest : ∀ e ∈ rest, e.seq ≠ entry.seq) :
    ∃ packets conn, c.poll (.due entry.seq) =
      (.data c.connectionId entry.seq c.receiveWindow.cumulativeAck entry.data :: packets, conn) := by
  have hst : ¬ c.state.timeout.any (· < (Elapsed.due entry.seq).inState) = true := by
    rw [Option.any_eq_true]
    rintro ⟨limit, -, hlim⟩
    exact Nat.not_lt_zero limit (of_decide_eq_true hlim)
  have hhead := SendWindow.getRetransmissions_head hunack hretry hrest
  have hdue : c.sendWindow.getRetransmissions (Elapsed.due entry.seq).overdue =
      (some [(entry.seq, entry.data)], (c.sendWindow.getRetransmissions (Elapsed.due entry.seq).overdue).2) :=
    Prod.ext hhead rfl
  have hidle : ¬ c.config.idleTimeout < (Elapsed.due entry.seq).activity := Nat.not_lt_zero _
  rw [poll, if_neg hst, if_neg hidle, hdue]
  exact ⟨_, _, rfl⟩

theorem processPacket_established (hst : c.state = .established) (hrst : packet.header.isRst = false)
    (hfin : packet.header.isFin = false) :
    c.processPacket packet = (.ok (), ((c.onAck packet.header).onData packet).onPing packet.header) := by
  simp [processPacket, hrst, hst, onEstablished, hfin]

/-- The packet that is expected next is handed over with those that wait behind it, and acknowledged. -/
theorem onData_next (hdata : packet.header.isData = true) (hne : packet.payload ≠ [])
    (hseq : packet.header.seq = c.receiveWindow.nextExpected) :
    ∃ more, (c.onData packet).inbound = c.inbound ++ packet.payload :: more ∧
      (c.onData packet).outbound = c.outbound ++ [(c.onData packet).ackPacket] := by
  have hzero : c.receiveWindow.nextExpected.distanceTo c.receiveWindow.nextExpected = 0 := by
    rw [SequenceNumber.distanceTo, BitVec.sub_self]
    rfl
  have hin : c.receiveWindow.isInWindow packet.header.seq = true := by
    rw [hseq, ReceiveWindow.isInWindow, SequenceNumber.isInWindow, hzero]
    simp
  have hpay : packet.payload.isEmpty = false := by simpa using hne
  have hrcv : ∃ more w, c.receiveWindow.receive packet.header.seq packet.payload =
      (some ((packet.header.seq, packet.payload) :: more), w) := by
    rw [ReceiveWindow.receive, hin, if_neg (by decide), if_pos hseq]
    exact ⟨_, _, rfl⟩
  obtain ⟨more, w, hrcv⟩ := hrcv
  rw [onData, hdata, hpay, if_pos (by rfl), hrcv]
  exact ⟨_, rfl, rfl⟩

theorem inbound_onPing (c : ConstrainedConnection) (header : ConstrainedHeader) : (c.onPing header).inbound = c.inbound := by
  unfold onPing
  split <;> rfl

theorem inbound_onAck (c : ConstrainedConnection) (header : ConstrainedHeader) : (c.onAck header).inbound = c.inbound := by
  unfold onAck
  split <;> rfl

theorem receiveWindow_onAck (c : ConstrainedConnection) (header : ConstrainedHeader) :
    (c.onAck header).receiveWindow = c.receiveWindow := by
  unfold onAck
  split <;> rfl

theorem inbound_polled {elapsed : Elapsed} {packets : List ConstrainedPacket} (h : Polled c elapsed packets d) :
    d.inbound = c.inbound := by
  cases h with
  | expired | sent => rfl

end ConstrainedConnection

namespace Link
variable {l : Link} {r : Role} {p : ConstrainedPacket} {idx : Role → Index}

theorem transmit_ends (l : Link) (r : Role) (packets : List ConstrainedPacket) : (l.transmit r packets).ends = l.ends := rfl

theorem transmit_head (l : Link) (r : Role) (packet : ConstrainedPacket) (packets : List ConstrainedPacket) :
    (l.transmit r (packet :: packets)).net[l.net.length]? =
      some ⟨packet, r.other, fun q => (l.ends q).sent.length⟩ := by
  rw [transmit, map_cons, List.getElem?_append_right le_rfl, Nat.sub_self]
  rfl

theorem deliver_next (hst : (l.ends r).conn.state = .established) (hrst : p.header.isRst = false)
    (hfin : p.header.isFin = false) (hdata : p.header.isData = true) (hne : p.payload ≠ [])
    (hseq : p.header.seq = (l.ends r).conn.receiveWindow.nextExpected) (elapsed : Elapsed) :
    ((l.deliver r p elapsed).ends r).live = (l.ends r).live ∧
      ((l.deliver r p elapsed).ends r).received = (l.ends r).received ∧
      ∃ more, ((l.deliver r p elapsed).ends r).conn.inbound = (l.ends r).conn.inbound ++ p.payload :: more := by
  have hnext : p.header.seq = ((l.ends r).conn.onAck p.header).receiveWindow.nextExpected := by
    rw [receiveWindow_onAck]
    exact hseq
  obtain ⟨more, hinb, -⟩ := onData_next hdata hne hnext
  rw [inbound_onAck] at hinb
  have hpld := poll_cases { (((l.ends r).conn.onAck p.header).onData p).onPing p.header with events := [] } elapsed
  have hpld := inbound_polled hpld
  rw [Link.deliver, incoming, processPacket_established hst hrst hfin]
  simp only [transmit_ends, setEnd_self, true_and]
  exact ⟨more, hpld.trans ((inbound_onPing _ _).trans hinb)⟩

/-- Packets arrive in time, and the responder acknowledges only what it has received. -/
def Fair (self : Link) (event : Event) : Prop := self.Timely event ∧ self.Candid event

instance (l : Link) (event : Event) : Decidable (l.Fair event) := inferInstanceAs (Decidable (_ ∧ _))

theorem Fair.linked (h : Reaches step Fair Opened l) : ∃ idx, Linked (strictIf True) idx l :=
  linked_of_reaches (fun _ _ hfair => hfair.1) (fun _ _ _ hfair => hfair.2) h

theorem Linked.received {strict : Role → Prop} (h : Linked strict idx l) (r : Role) :
    (l.ends r).received <+: (l.ends r.other).sent.drop r.first := by
  have hacc : (l.ends r).received <+: (l.ends r).accepted := prefix_append _ _
  rw [(h.ends r).accepted] at hacc
  exact hacc.trans (List.IsPrefix.drop ( take_prefix _ _) _)

/-- As long as packets arrive in time, payloads come in order, but without the first chunk of the responder. -/
theorem received_prefix (h : Reaches step Timely Opened l) (r : Role) :
    (l.ends r).received <+: (l.ends r.other).sent.drop r.first := by
  have hlink : ∃ idx, Linked (strictIf False) idx l := linked_of_reaches (fun _ _ htime => htime) nofun h
  obtain ⟨idx, hlink⟩ := hlink
  exact hlink.received r

def Deliverable (l : Link) (r : Role) (chunk : Bytes) : Prop :=
  ∃ l', Reaches step Fair (· = l) l' ∧ (l'.ends r.other).received = [chunk]

/-- The sender can send every unacknowledged chunk once more, and the receiver is ready for it. -/
structure CanRetry (l : Link) (r : Role) : Prop where
  live : ∀ q, (l.ends q).live = true
  established : (l.ends r.other).conn.state = .established
  retries : ∀ entry ∈ (l.ends r).conn.sendWindow.unacked, entry.transmissions ≤ (l.ends r).conn.sendWindow.config.maxRetries

variable {chunk : Bytes} {rest : List Bytes}

theorem recv_received (hinb : (l.ends r).conn.inbound = chunk :: rest) :
    ((l.recv r).ends r).received = (l.ends r).received ++ [chunk] := by
  rw [Link.recv, setEnd_self, ConstrainedConnection.recv, hinb]
  rfl

/-- The first chunk of the initiator is still in the window, with a number that no other entry has. -/
theorem Linked.head_unacked (h : Linked (strictIf True) idx l)
    (hsent : (l.ends .initiator).sent = chunk :: rest) (hnone : (l.ends .responder).accepted = []) :
    ∃ entry entries, (l.ends .initiator).conn.sendWindow.unacked = entry :: entries ∧ entry.seq = number 0 ∧
      entry.data = chunk ∧ ∀ e ∈ entries, e.seq ≠ entry.seq := by
  have hnext : (idx .responder).next = 0 := by
    rw [← (Local.length_accepted (h.ends .responder)).2, hnone]
    rfl
  have hgone := Nat.le_zero.mp (hnext ▸ h.honest_other .initiator ⟨trivial, rfl⟩)
  have hcar := (h.ends .initiator).carries
  have hents := hcar.entries
  rw [hgone, hsent, drop_zero, numbered] at hents
  obtain ⟨entry, entries, hunack, hent, hrest⟩ := map_eq_cons_iff.mp hents
  refine ⟨entry, entries, hunack, congrArg Prod.fst hent, congrArg Prod.snd hent, fun e he heq => ?_⟩
  have hmem : e.chunk ∈ numbered 1 rest := by
    rw [← hrest]
    exact mem_map_of_mem he
  obtain ⟨i, hi, hseq⟩ := mem_numbered hmem
  have hroom := hcar.room
  have hsize : (l.ends .initiator).conn.sendWindow.config.windowSize < 64 := (h.ends .initiator).sendSize
  rw [hgone, hsent, length_cons] at hroom
  have hlt := (List.getElem?_eq_some_iff.mp hi).1
  have hzero := hseq.symm.trans (heq.trans (congrArg Prod.fst hent))
  rw [number_inj (by omega) (by omega)] at hzero
  omega

theorem Linked.deliverable (h : Linked (strictIf True) idx l)
    (hsent : (l.ends .initiator).sent = chunk :: rest) (htries : CanRetry l .initiator)
    (hnone : (l.ends .responder).received = []) : Deliverable l .initiator chunk := by
  have hacc : (l.ends .responder).accepted = (l.ends .initiator).sent.take (idx .responder).next :=
    (Local.length_accepted (h.ends .responder)).1
  have hrecv : ∀ {l' : Link}, Reaches Link.step Fair (· = l) l' → (l'.ends .responder).live = true →
      (l'.ends .responder).received = [] → (∃ more, (l'.ends .responder).conn.inbound = chunk :: more) →
      Deliverable l .initiator chunk := by
    rintro l' hrch hlive hnone ⟨more, hinb⟩
    refine ⟨l'.recv .responder, .next (.recv .responder) hrch ⟨trivial, trivial⟩ ?_, ?_⟩
    · rw [Link.step, hlive, if_pos rfl]
    · exact (recv_received hinb).trans (by rw [hnone]; rfl)
  have hsta : Reaches Link.step Fair (· = l) l := .start rfl
  cases hinb : (l.ends .responder).conn.inbound with
  | cons head more =>
    -- It waits for the application.
    rw [Endpoint.accepted, hnone, hinb, nil_append] at hacc
    have hhead := congrArg head? hacc
    rw [head?_take, hsent] at hhead
    split at hhead
    · cases hhead
    cases hhead
    exact hrecv hsta (htries.live .responder) hnone ⟨more, hinb⟩
  | nil =>
    -- It is sent again.
    have hemp : (l.ends .responder).accepted = [] := by rw [Endpoint.accepted, hnone, hinb, nil_append]
    obtain ⟨entry, entries, hunack, hseq, rfl, hoth⟩ := h.head_unacked hsent hemp
    have hretry := htries.retries entry (by rw [hunack]; exact mem_cons_self)
    obtain ⟨packets, conn, hpoll⟩ := poll_due hunack hretry hoth
    obtain ⟨live, hpld⟩ := poll_eq hpoll
    have hpollReach : Reaches Link.step Fair (· = l) (l.poll .initiator (.due entry.seq)) := by
      refine .next (.poll .initiator (.due entry.seq)) hsta ⟨trivial, trivial⟩ ?_
      rw [Link.step, htries.live .initiator, if_pos rfl]
    have hends : (l.poll .initiator (.due entry.seq)).ends .responder = l.ends .responder := by
      rw [hpld, transmit_ends]
      exact setEnd_other l .initiator ..
    have hflight : ∃ f : Flight, (l.poll .initiator (.due entry.seq)).net[l.net.length]? = some f ∧
        f.packet = .data (l.ends .initiator).conn.connectionId entry.seq
          (l.ends .initiator).conn.receiveWindow.cumulativeAck entry.data ∧
        f.target = .responder ∧ f.marks = fun r => ((l.poll .initiator (.due entry.seq)).ends r).sent.length := by
      rw [hpld]
      exact ⟨_, transmit_head .., rfl, rfl, rfl⟩
    obtain ⟨f, hf, hpkt, htgt, hmarks⟩ := hflight
    generalize l.poll .initiator (.due entry.seq) = polled at hpollReach hends hf hmarks
    have hdeliverReach : Reaches Link.step Fair (· = l) (polled.deliver .responder f.packet (.due entry.seq)) := by
      refine .next (.deliver l.net.length (.due entry.seq)) hpollReach ⟨fun g hg r => ?_, fun g hg hini => ?_⟩ ?_
      · obtain rfl := Option.some.inj (hf.symm.trans hg)
        rw [hmarks]
        exact le_self_add
      · obtain rfl := Option.some.inj (hf.symm.trans hg)
        cases htgt.symm.trans hini
      · rw [Link.step, hf]
        simp [htgt, hends, htries.live]
    obtain ⟨-, hfin, hdata, hrst⟩ := ConstrainedHeader.data_flags (l.ends .initiator).conn.connectionId entry.seq
      (l.ends .initiator).conn.receiveWindow.cumulativeAck
    have hne : entry.data ≠ [] := (h.ends .initiator).nonempty _ (by rw [hsent]; exact mem_cons_self)
    have hexp : entry.seq = (polled.ends .responder).conn.receiveWindow.nextExpected := by
      have hlen := (Local.length_accepted (h.ends .responder)).2
      rw [hemp, length_nil] at hlen
      rw [hends, (h.ends .responder).tracks.nextExpected, ← hlen]
      exact hseq
    rw [hpkt] at hdeliverReach
    have hest : (polled.ends .responder).conn.state = .established := by
      rw [hends]
      exact htries.established
    have hnext := deliver_next (p := .data (l.ends .initiator).conn.connectionId entry.seq
      (l.ends .initiator).conn.receiveWindow.cumulativeAck entry.data) hest hrst hfin hdata hne hexp
    obtain ⟨hlive, hrcvd, more, hmore⟩ := hnext (.due entry.seq)
    rw [hends] at hlive hrcvd hmore
    exact hrecv hdeliverReach (hlive.trans (htries.live .responder)) (hrcvd.trans hnone)
      ⟨more, hmore.trans (by rw [hinb]; rfl)⟩

/-- The payloads that an application receives are always the first chunks that the other one has sent, and the first
    chunk can be delivered as long as it has not been. -/
theorem payloads_in_order (h : Reaches step Fair Opened l) :
    (∀ r, (l.ends r).received <+: (l.ends r.other).sent) ∧
      ∀ r chunk rest, (l.ends r).sent = chunk :: rest → (l.ends r.other).received = [] → CanRetry l r →
        Deliverable l r chunk := by
  obtain ⟨idx, hlinked⟩ := Fair.linked h
  have hquiet := hlinked.quiet .responder ⟨trivial, rfl⟩
  refine ⟨fun r => ?_, fun r chunk rest hsent hnone hretries => ?_⟩
  · have hreceived := hlinked.received r
    cases r with
    | responder => exact hreceived
    | initiator =>
      have hnil : (l.ends .initiator).received <+: [] := by
        rw [Role.other, hquiet] at hreceived
        exact hreceived
      rw [prefix_nil.mp hnil]
      exact nil_prefix
  · cases r with
    | initiator => exact hlinked.deliverable hsent hretries hnone
    | responder => cases hquiet.symm.trans hsent

/-- Chunks leave a send window only from the front, and only when the other end has accepted them in order. -/
theorem acknowledged_accepted (h : Reaches step Fair Opened l) (r : Role) :
    ∃ gone, (l.ends r).conn.sendWindow.unacked.map SendEntry.chunk = numbered gone ((l.ends r).sent.drop gone) ∧
      (l.ends r).sent.take gone <+: (l.ends r.other).accepted := by
  obtain ⟨idx, hlinked⟩ := Fair.linked h
  refine ⟨(idx r).gone, (hlinked.ends r).carries.entries, ?_⟩
  cases r with
  | initiator =>
    have haccepted := (Local.length_accepted (hlinked.ends .responder)).1
    rw [Role.other, haccepted]
    exact take_prefix_take_left (hlinked.honest_other .initiator ⟨trivial, rfl⟩)
  | responder =>
    rw [hlinked.quiet .responder ⟨trivial, rfl⟩, take_nil]
    exact nil_prefix

/-- No more than two chunks have left a window that the other end has not accepted. -/
def FalselyLeTwo (l : Link) (r : Role) : Prop :=
  ∃ gone next, (l.ends r).conn.sendWindow.unacked.map SendEntry.chunk = numbered gone ((l.ends r).sent.drop gone) ∧
    (l.ends r.other).accepted = ((l.ends r).sent.take next).drop r.other.first ∧ gone ≤ max next 2

theorem acknowledged_falsely_le_two (h : Reaches step Timely Opened l) (r : Role) : FalselyLeTwo l r := by
  have hlink : ∃ idx, Linked (strictIf False) idx l := linked_of_reaches (fun _ _ htime => htime) nofun h
  obtain ⟨idx, hlink⟩ := hlink
  have hacc := (hlink.ends r.other).accepted
  rw [Role.other_other] at hacc
  exact ⟨(idx r).gone, (idx r.other).next, (hlink.ends r).carries.entries, hacc,
    (hlink.told r).trans (max_le_max_right 2 (hlink.ends r.other).told_le)⟩

def plainConfig : ConnectionConfig := ⟨⟨16, 5⟩, 4, 0, 300000⟩

def plain : Link where
  ends
    | .initiator => .new ((new 7 ⟨true, 2, 1000⟩ plainConfig true).setState .synSent)
    | .responder => .new ((new 7 ⟨true, 1, 1000⟩ plainConfig false).setState .synReceived)
  net := [⟨.control (.syn 7), .responder, fun _ => 0⟩, ⟨.control (.synAck 7 1), .initiator, fun _ => 0⟩]

theorem opened_plain : Opened plain :=
  @Opened.intro 7 (fun | .initiator => ⟨true, 1, 1000⟩ | .responder => ⟨true, 2, 1000⟩) (fun _ => plainConfig) _ _ _ _
    (fun _ => by decide) rfl rfl

def noTime : Elapsed := ⟨0, 0, 0, fun _ => false⟩

def handshake : List Event := [.deliver 1 noTime, .deliver 2 noTime]

structure View where
  sent : List Bytes
  unacked : Nat
  accepted : List Bytes
  received : List Bytes
  deriving DecidableEq

def view (r : Role) (l : Link) : View :=
  ⟨(l.ends r).sent, (l.ends r).conn.sendWindow.unacked.length, (l.ends r.other).accepted, (l.ends r.other).received⟩

theorem reaches_plain {allow : Link → Event → Prop} [∀ l event, Decidable (allow l event)] (events : List Event)
    {P : Link → Prop} [DecidablePred P] (hrun : (runFrom step allow plain events).any (P ·) = true) :
    ∃ l, Reaches step allow Opened l ∧ P l :=
  (Reaches.start opened_plain).exists_of_runFrom events hrun

instance (l : Link) (r : Role) : Decidable (CanRetry l r) :=
  decidable_of_iff ((∀ q, (l.ends q).live = true) ∧ (l.ends r.other).conn.state = .established ∧
    ∀ entry ∈ (l.ends r).conn.sendWindow.unacked, entry.transmissions ≤ (l.ends r).conn.sendWindow.config.maxRetries)
    ⟨fun h => ⟨h.1, h.2.1, h.2.2⟩, fun h => ⟨h.live, h.established, h.retries⟩⟩

theorem reaches_second : ∃ l, Reaches step Timely Opened l ∧ view .responder l = ⟨[[1], [2]], 2, [[2]], [[2]]⟩ :=
  reaches_plain (handshake ++ [.send .responder [1] noTime, .send .responder [2] noTime, .deliver 4 noTime,
    .recv .initiator]) (by decide +kernel)

theorem received_prefix_second : ∃ l, view .responder l = ⟨[[1], [2]], 2, [[2]], [[2]]⟩ ∧
    (l.ends .initiator).received <+: (l.ends .responder).sent.drop 1 :=
  reaches_second.imp fun _ h => ⟨h.2, received_prefix h.1 .initiator⟩

theorem acknowledged_falsely_le_two_second :
    ∃ l, view .responder l = ⟨[[1], [2]], 2, [[2]], [[2]]⟩ ∧ FalselyLeTwo l .responder :=
  reaches_second.imp fun _ h => ⟨h.2, acknowledged_falsely_le_two h.1 .responder⟩

/-- Two chunks arrive in the wrong order; and a chunk that was lost can still be delivered. -/
theorem payloads_in_order_reordered :
    (∃ l, Reaches step Fair Opened l ∧
      view .initiator l = ⟨[[1, 2, 3, 4], [5]], 0, [[1, 2, 3, 4], [5]], [[1, 2, 3, 4]]⟩ ∧
      (l.ends .responder).received <+: (l.ends .initiator).sent) ∧
    ∃ l, Reaches step Fair Opened l ∧ view .initiator l = ⟨[[1]], 1, [], []⟩ ∧ Deliverable l .initiator [1] := by
  constructor
  · obtain ⟨l, hreach, hview⟩ := @reaches_plain Fair _
      (handshake ++ [.send .initiator [1, 2, 3, 4, 5] noTime, .deliver 4 noTime, .deliver 3 noTime, .deliver 5 noTime,
        .recv .responder])
      (view .initiator · = ⟨[[1, 2, 3, 4], [5]], 0, [[1, 2, 3, 4], [5]], [[1, 2, 3, 4]]⟩) _ (by decide +kernel)
    exact ⟨l, hreach, hview, (payloads_in_order hreach).1 .responder⟩
  · obtain ⟨l, hreach, hview, hretries⟩ := @reaches_plain Fair _ (handshake ++ [.send .initiator [1] noTime])
      (fun l => view .initiator l = ⟨[[1]], 1, [], []⟩ ∧ CanRetry l .initiator) _ (by decide +kernel)
    have hsent := congrArg View.sent hview
    have hnone := congrArg View.received hview
    exact ⟨l, hreach, hview, (payloads_in_order hreach).2 .initiator [1] [] hsent hnone hretries⟩

/-- The first chunk of the responder is ignored by the initiator, which takes the second one for the first. -/
theorem payloads_skip_first : ∃ l, Reaches step Timely Opened l ∧ view .responder l = ⟨[[1], [2]], 2, [[2]], [[2]]⟩ :=
  reaches_plain (handshake ++ [.send .responder [1] noTime, .deliver 3 noTime, .send .responder [2] noTime,
    .deliver 4 noTime, .recv .initiator]) (by decide +kernel)

theorem acknowledged_accepted_two :
    ∃ l, Reaches step Fair Opened l ∧ view .initiator l = ⟨[[1], [2]], 1, [[1]], []⟩ ∧
      ∃ gone, (l.ends .initiator).conn.sendWindow.unacked.map SendEntry.chunk =
        numbered gone ((l.ends .initiator).sent.drop gone) ∧
        (l.ends .initiator).sent.take gone <+: (l.ends .responder).accepted := by
  obtain ⟨l, hreach, hview⟩ := @reaches_plain Fair _ (handshake ++ [.send .initiator [1] noTime,
    .send .initiator [2] noTime, .deliver 3 noTime, .deliver 5 noTime])
    (view .initiator · = ⟨[[1], [2]], 1, [[1]], []⟩) _ (by decide +kernel)
  exact ⟨l, hreach, hview, acknowledged_accepted hreach .initiator⟩

/-- A chunk that the other end has not received is acknowledged: by the SYN-ACK that comes again, by the ACK of the
    handshake, by FIN and by data. -/
theorem acknowledged_unaccepted : (∃ l, Reaches step Timely Opened l ∧ view .initiator l = ⟨[[1]], 0, [], []⟩) ∧
    (∃ l, Reaches step Timely Opened l ∧ view .responder l = ⟨[[1]], 0, [], []⟩) ∧
    (∃ l, Reaches step Timely Opened l ∧ view .initiator l = ⟨[[1]], 0, [], []⟩ ∧ (l.ends .responder).finAt = some 0) ∧
    ∃ l, Reaches step Timely Opened l ∧ view .initiator l = ⟨[[1]], 0, [], []⟩ ∧ (l.ends .responder).sent = [[2]] := by
  refine ⟨?_, ?_, ?_, ?_⟩
  · exact reaches_plain [.deliver 1 noTime, .send .initiator [1] noTime, .deliver 1 noTime] (by decide +kernel)
  · exact reaches_plain (handshake ++ [.send .responder [1] noTime, .deliver 2 noTime]) (by decide +kernel)
  · exact reaches_plain (handshake ++ [.send .initiator [1] noTime, .close .responder, .deliver 4 noTime]) (by decide +kernel)
  · exact reaches_plain (handshake ++ [.send .initiator [1] noTime, .send .responder [2] noTime, .deliver 4 noTime])
      (by decide +kernel)

end Link

/-! The end of a constrained connection. FIN is processed as soon as it arrives, and an end that has closed ignores
    data. -/

open ConnectionEvent

namespace ConstrainedConnection
variable {c d : ConstrainedConnection} {elapsed : Elapsed} {packets : List ConstrainedPacket} {packet : ConstrainedPacket}

instance (c : ConstrainedConnection) (elapsed : Elapsed) : Decidable (c.Expires elapsed) :=
  inferInstanceAs (Decidable (_ ∨ _ ∨ _))

theorem polled_of_not_expires (h : Polled c elapsed packets d) (hcalm : ¬ c.Expires elapsed) :
    d.state = c.state ∧ d.events = c.events ∧ d.inbound = c.inbound ∧ d.ackPacket = c.ackPacket ∧ c.outbound ⊆ packets := by
  cases h with
  | expired message sendWindow hexp => exact absurd hexp hcalm
  | sent retransmits sendWindow hretx => exact ⟨rfl, rfl, rfl, rfl, subset_append_right _ _⟩

theorem sendChunks_kept : ∀ (c : ConstrainedConnection) (rest : List Bytes),
    (c.sendChunks rest).2.state = c.state ∧ (c.sendChunks rest).2.events = c.events ∧
      (c.sendChunks rest).2.inbound = c.inbound ∧ (c.sendChunks rest).2.sendWindow.config = c.sendWindow.config
  | c, [] => ⟨rfl, rfl, rfl, rfl⟩
  | c, chunk :: rest => by
    unfold sendChunks
    cases hchunk : c.sendChunk chunk with
    | none => exact ⟨rfl, rfl, rfl, rfl⟩
    | some d =>
      obtain ⟨window, hadd, rfl⟩ := Option.map_eq_some_iff.mp hchunk
      have hcfg : window.config = c.sendWindow.config := by
        unfold SendWindow.add at hadd
        split at hadd
        · cases hadd
        cases hadd
        rfl
      obtain ⟨hst, hev, hin, hrest⟩ := sendChunks_kept _ rest
      exact ⟨hst, hev, hin, hrest.trans hcfg⟩

theorem onData_of_not (h : packet.header.isData = false) : c.onData packet = c := by
  rw [onData, h, Bool.false_and, if_neg Bool.false_ne_true]

theorem events_onPing (c : ConstrainedConnection) (header : ConstrainedHeader) : (c.onPing header).events = c.events := by
  unfold onPing
  split <;> rfl

theorem ackPacket_onPing (c : ConstrainedConnection) (header : ConstrainedHeader) :
    (c.onPing header).ackPacket = c.ackPacket ∧ c.outbound ⊆ (c.onPing header).outbound := by
  unfold onPing
  split
  · exact ⟨rfl, subset_append_left _ _⟩
  · exact ⟨rfl, List.Subset.refl _⟩

theorem events_onAck (c : ConstrainedConnection) (header : ConstrainedHeader) : (c.onAck header).events = c.events := by
  unfold onAck
  split <;> rfl

theorem closed_notMem_onData (h : closed ∉ c.events) : closed ∉ (c.onData packet).events := by
  unfold onData
  split
  · split
    · intro hmem
      rcases mem_append.mp hmem with hmem | hmem
      · exact h hmem
      obtain ⟨_, -, hnot⟩ := mem_map.mp hmem
      cases hnot
    · exact h
  · exact h

end ConstrainedConnection

namespace Link

/-- No end resets the connection, and nothing times out. -/
def Calm (self : Link) : Event → Prop
  | .reset _ => False
  | .poll role elapsed => ¬ (self.ends role).conn.Expires elapsed
  | .send role data elapsed => ∀ result ∈ (self.ends role).conn.send data, ¬ result.2.Expires elapsed
  | .deliver index elapsed => ∀ flight ∈ self.net[index]?, flight.packet.header.isRst = false ∧
    ¬ { ((self.ends flight.target).conn.processPacket flight.packet).2 with events := [] }.Expires elapsed
  | _ => True

/-- The responder sends nothing. FIN comes to the responder after all data before it, and no data comes to an end that has
    closed. -/
def Orderly (self : Link) : Event → Prop
  | .send role _ _ => role = .initiator
  | .deliver index _ => ∀ flight ∈ self.net[index]?,
    (flight.target = .responder → flight.packet.header.isFin = true →
      (self.ends .responder).conn.state = .established ∨ (self.ends .responder).conn.state = .finWait →
      flight.packet.header.seq = (self.ends .responder).conn.receiveWindow.nextExpected) ∧
    (flight.packet.header.isData = true → (self.ends flight.target).finAt = none)
  | _ => True

/-- Runs without resets and timeouts in which packets arrive in time. -/
def Steady (self : Link) (event : Event) : Prop := self.Timely event ∧ self.Calm event

def Graceful (self : Link) (event : Event) : Prop := self.Steady event ∧ self.Orderly event

end Link

structure Endpoint.Shut (r : Role) (e peer : Endpoint) : Prop where
  quiet : r = .responder → e.sent = []
  events : e.conn.events = []
  reported : e.closedReported = true → e.conn.state.Past ∧ ∃ k, peer.finAt = some k ∧ e.accepted = peer.sent.take k
  unfinished : e.finAt = none → e.closedReported = false → ¬ e.conn.state.Past

section
variable {r : Role} {e e' peer peer' : Endpoint}

theorem Endpoint.Shut.grow (h : e.Shut r peer) (hgr : peer.Grows peer')
    (hfin : ∀ k, peer.finAt = some k → k ≤ peer.sent.length) : e.Shut r peer' := by
  refine { h with reported := fun hrep => ?_ }
  obtain ⟨hpast, k, hk, hacc⟩ := h.reported hrep
  obtain ⟨more, hmore⟩ := hgr.sent
  refine ⟨hpast, k, hgr.finAt k hk, hacc.trans ?_⟩
  rw [← hmore, take_append_of_le_length (hfin k hk)]

theorem Endpoint.Shut.keep (h : e.Shut r peer) (hsent : r = .responder → e'.sent = e.sent) (hfin : e'.finAt = e.finAt)
    (hrep : e'.closedReported = e.closedReported) (hacc : e'.accepted = e.accepted)
    (hst : e'.conn.state = e.conn.state) (hev : e'.conn.events = e.conn.events) : e'.Shut r peer where
  quiet hr := (hsent hr).trans (h.quiet hr)
  events := hev.trans h.events
  reported := by
    rw [hrep, hst, hacc]
    exact h.reported
  unfinished := by
    rw [hfin, hrep, hst]
    exact h.unfinished

theorem Endpoint.Shut.of_open (hsent : r = .responder → e.sent = []) (hev : e.conn.events = [])
    (hrep : e.closedReported = false) (hst : ¬ e.conn.state.Past) : e.Shut r peer :=
  ⟨hsent, hev, fun h => absurd h (Bool.eq_false_iff.mp hrep), fun _ _ => hst⟩

theorem Endpoint.Shut.of_reported (hsent : r = .responder → e.sent = []) (hev : e.conn.events = [])
    (hrep : e.closedReported = true) (hst : e.conn.state.Past) {k : Nat} (hk : peer.finAt = some k)
    (hacc : e.accepted = peer.sent.take k) : e.Shut r peer :=
  ⟨hsent, hev, fun _ => ⟨hst, k, hk, hacc⟩, fun _ h => absurd hrep (Bool.eq_false_iff.mp h)⟩

theorem Endpoint.Shut.reported_eq_false (h : e.Shut r peer) (hst : ¬ e.conn.state.Past) : e.closedReported = false :=
  Bool.eq_false_iff.mpr fun hrep => hst (h.reported hrep).1

theorem Endpoint.Shut.past (h : e.Shut r peer) (hpast : e.conn.state.Past) {conn : ConstrainedConnection}
    {closedReported : Bool} (hst : conn.state.Past) (hev : conn.events = []) (hin : conn.inbound = e.conn.inbound)
    (hrep : closedReported = e.closedReported) : Endpoint.Shut r { e with conn, closedReported } peer := by
  subst hrep
  refine ⟨h.quiet, hev, fun hrep => ⟨hst, ?_⟩, fun hnone hnot => absurd hpast (h.unfinished hnone hnot)⟩
  obtain ⟨-, k, hk, hacc⟩ := h.reported hrep
  exact ⟨k, hk, (congrArg (e.received ++ ·) hin).trans hacc⟩

/-- A packet is processed; if it is a FIN, all the data before it was received. -/
theorem Endpoint.Shut.processed (h : e.Shut r peer) {p : ConstrainedPacket} {conn d : ConstrainedConnection}
    (hrst : p.header.isRst = false) (hproc : Processed e.conn p d)
    (hfin : p.header.isFin = true → e.conn.state = .established ∨ e.conn.state = .finWait →
      p.header.isData = false ∧ ∃ k, peer.finAt = some k ∧ e.accepted = peer.sent.take k)
    (hst : conn.state = d.state) (hev : conn.events = []) (hin : conn.inbound = d.inbound) :
    Endpoint.Shut r { e with conn, closedReported := e.closedReported || d.events.contains .closed } peer := by
  have hsil : d.events.contains .closed = false → (e.closedReported || d.events.contains .closed) = e.closedReported := by
    intro hnot
    rw [hnot, Bool.or_false]
  have hnone : e.conn.events.contains .closed = false := by rw [h.events]; rfl
  cases hproc with
  | ignored =>
    exact h.keep (fun _ => rfl) rfl (hsil hnone) (congrArg (e.received ++ ·) hin) hst
      (hev.trans h.events.symm)
  | reset hreset => exact absurd hreset (Bool.eq_false_iff.mp hrst)
  | connected hsyn _ =>
    have hopen := h.reported_eq_false (by rw [hsyn]; exact id)
    have hnot : (e.conn.events ++ [connected]).contains .closed = false := by rw [h.events]; rfl
    exact .of_open h.quiet hev ((hsil hnot).trans hopen) (by rw [hst]; exact id)
  | accepted hsynR _ =>
    have hopen := h.reported_eq_false (by rw [hsynR]; exact id)
    have hnot : (e.conn.events ++ [connected]).contains .closed = false := by rw [h.events]; rfl
    exact .of_open h.quiet hev ((hsil hnot).trans hopen) (by rw [hst]; exact id)
  | established hest _ =>
    have hopen := h.reported_eq_false (by rw [hest]; exact id)
    have hnot : closed ∉ ((e.conn.onAck p.header).onData p).events := by
      refine closed_notMem_onData ?_
      rw [events_onAck, h.events]
      exact not_mem_nil
    rw [← events_onPing _ p.header, ← contains_iff_mem, Bool.not_eq_true] at hnot
    refine .of_open h.quiet hev ((hsil hnot).trans hopen) ?_
    rw [hst, state_onPing, state_onData, state_onAck, hest]
    exact id
  | finReceived hest hisFin =>
    obtain ⟨hdata, k, hk, hacc⟩ := hfin hisFin (.inl hest)
    have hpast : conn.state.Past := by
      rw [hst, state_onPing]
      trivial
    refine .of_reported h.quiet hev ?_ hpast hk ?_
    · rw [events_onPing, ConstrainedConnection.emit]
      simp
    · rw [inbound_onPing, onData_of_not hdata] at hin
      exact (congrArg (e.received ++ ·) (hin.trans (inbound_onAck _ _))).trans hacc
  | finAcked hfinWait _ _ =>
    exact h.past (by rw [hfinWait]; trivial) (by rw [hst]; trivial) hev hin (hsil hnone)
  | finBoth hfinWait hisFin =>
    obtain ⟨-, k, hk, hacc⟩ := hfin hisFin (.inr hfinWait)
    refine .of_reported h.quiet hev ?_ (by rw [hst]; trivial) hk ((congrArg (e.received ++ ·) hin).trans hacc)
    rw [ConstrainedConnection.emit]
    simp
  | done hclg =>
    exact h.past (by rw [hclg]; trivial) (by rw [hst]; trivial) hev hin (hsil hnone)

end

namespace Link
variable {l l' : Link} {r : Role} {event : Event} {strict : Role → Prop} {idx : Role → Index} {elapsed : Elapsed}

def Shut (self : Link) : Prop := ∀ r, (self.ends r).Shut r (self.ends r.other)

section
variable (h : l.Shut) (hlinked : Linked strict idx l)
include h hlinked

theorem Shut.update {e' : Endpoint} {packets : List ConstrainedPacket}
    (hgr : (l.ends r).Grows e') (hshut : e'.Shut r (l.ends r.other)) : ((l.setEnd r e').transmit r packets).Shut := by
  intro q
  rw [transmit_ends]
  by_cases hqr : q = r
  · subst hqr
    rw [setEnd_self, setEnd_other]
    exact hshut
  obtain rfl := Role.eq_other hqr
  have hoth := h r.other
  rw [Role.other_other] at hoth
  rw [setEnd_other, Role.other_other, setEnd_self]
  exact hoth.grow hgr fun k hk => ((hlinked.ends r).finAt k hk).1

theorem Shut.recv (r : Role) : (l.recv r).Shut := by
  rw [← transmit_nil (l.recv r) r]
  exact h.update hlinked (.of_conn rfl rfl rfl) ((h r).keep (fun _ => rfl) rfl rfl (accepted_recv _) rfl rfl)

theorem Shut.close (r : Role) : (l.close r).Shut := by
  rcases close_cases l r with heq | ⟨state, hnot, hpast, heq⟩
  · rw [heq]
    exact h
  have hrep := (h r).reported_eq_false hnot
  have hnone : ∀ k, (l.ends r).finAt = some k → some (l.ends r).sent.length = some k :=
    fun k hk => absurd ((hlinked.ends r).finAt k hk).2 hnot
  rw [heq]
  exact h.update hlinked ⟨prefix_refl _, hnone, rfl⟩
    ⟨(h r).quiet, (h r).events, fun hcl => absurd hcl (Bool.eq_false_iff.mp hrep), nofun⟩

theorem Shut.poll (hcalm : ¬ (l.ends r).conn.Expires elapsed) : (l.poll r elapsed).Shut := by
  have hpld := poll_cases (l.ends r).conn elapsed
  cases hres : (l.ends r).conn.poll elapsed with
  | mk packets conn =>
    rw [hres] at hpld
    obtain ⟨hst, -, hin, -, -⟩ := polled_of_not_expires hpld hcalm
    have hwin := congrArg ArqConfig.windowSize (window_poll hpld)
    obtain ⟨live, heq⟩ := poll_eq hres
    rw [heq]
    exact h.update hlinked (.of_conn rfl rfl hwin) ((h r).keep (fun _ => rfl) rfl rfl
      (congrArg ((l.ends r).received ++ ·) hin) hst (h r).events.symm)

theorem Shut.send {data : Bytes} (hr : r = .initiator)
    (hcalm : ∀ result ∈ (l.ends r).conn.send data, ¬ result.2.Expires elapsed) (hsend : l.send r data elapsed = some l') :
    l'.Shut := by
  rcases send_cases hsend with rfl | ⟨-, -, result, sent, conn, packets, hres, hsent, rfl, hconn⟩
  · exact h
  have hkept := sendChunks_kept (l.ends r).conn (chunks (l.ends r).conn.config.mss data.length data)
  rw [hsent] at hkept
  obtain ⟨hst, hev, hin, hcfg⟩ := hkept
  have hpoll : conn.state = sent.state ∧ conn.events = sent.events ∧ conn.inbound = sent.inbound ∧
      conn.sendWindow.config = sent.sendWindow.config := by
    rcases hconn with ⟨rfl, -⟩ | hpld
    · exact ⟨rfl, rfl, rfl, rfl⟩
    obtain ⟨h1, h2, h3, -, -⟩ := polled_of_not_expires hpld (hcalm _ hres)
    exact ⟨h1, h2, h3, window_poll hpld⟩
  refine h.update hlinked ⟨prefix_append _ _, fun _ hk => hk, ?_⟩ ((h r).keep (fun hrsp => ?_) rfl rfl ?_ ?_ ?_)
  · exact congrArg ArqConfig.windowSize (hpoll.2.2.2.trans hcfg)
  · cases hr.symm.trans hrsp
  · exact congrArg ((l.ends r).received ++ ·) (hpoll.2.2.1.trans hin)
  · exact hpoll.1.trans hst
  · exact hpoll.2.1.trans hev

theorem Shut.fin_accepted {f : Flight} (hf : f ∈ l.net) (htime : ∀ r, (l.ends r).sent.length ≤ f.marks r + 64)
    (hord : f.target = .responder → f.packet.header.seq = (l.ends .responder).conn.receiveWindow.nextExpected)
    (hfin : f.packet.header.isFin = true) :
    f.packet.header.isData = false ∧ ∃ k, (l.ends f.target.other).finAt = some k ∧
      (l.ends f.target).accepted = (l.ends f.target.other).sent.take k := by
  obtain ⟨k, hk, hseq, hdata, hmarks⟩ := (hlinked.net f hf).fin hfin
  refine ⟨hdata, k, hk, ?_⟩
  have hloc := hlinked.ends f.target
  rw [hloc.accepted]
  cases htgt : f.target with
  | initiator =>
    rw [Role.other, (h .responder).quiet rfl, take_nil, take_nil, drop_nil]
  | responder =>
    have hle := ((hlinked.ends f.target.other).finAt k hk).1
    have hpeer := hlinked.peer_le f.target
    have hsize := (hlinked.ends f.target.other).sendSize
    have htold := hloc.told_le
    have hnext := hloc.next_le
    have hlen := htime f.target.other
    have hexpected := hloc.tracks.nextExpected
    rw [htgt] at hle hpeer hsize htold hnext hlen hexpected hmarks
    have hsame := hseq.symm.trans ((hord htgt).trans hexpected)
    rw [Role.first] at hnext
    rw [number_inj (by omega) (by omega)] at hsame
    rw [hsame, Role.first, drop_zero]

theorem Shut.deliver {index : Nat} {f : Flight}
    (hf : l.net[index]? = some f) (hgrace : l.Graceful (.deliver index elapsed)) :
    (l.deliver f.target f.packet elapsed).Shut := by
  obtain ⟨⟨htime, hcalm⟩, hord⟩ := hgrace
  obtain ⟨hrst, hexp⟩ := hcalm f hf
  obtain ⟨d, packets, conn, hd, hproc, hpld, heq⟩ := deliver_cases l f.target f.packet elapsed
  rw [hd] at hexp
  obtain ⟨hst, hev, hin, -, -⟩ := polled_of_not_expires hpld hexp
  have hcfg := window_processed hproc
  have hwin := congrArg ArqConfig.windowSize ((window_poll hpld).trans hcfg)
  rw [heq]
  refine h.update hlinked (.of_conn rfl rfl hwin)
    ((h f.target).processed hrst hproc (fun hfin hopen => ?_) hst hev hin)
  refine h.fin_accepted hlinked (mem_of_getElem? hf) (htime f hf) (fun htgt => ?_) hfin
  exact (hord f hf).1 htgt hfin (htgt ▸ hopen)

end

theorem Opened.shut (h : Opened l) : l.Shut := by
  obtain ⟨_, hinitiate, haccept⟩ := h
  cases hinitiate
  cases haccept
  intro r
  cases r with
  | initiator => exact .of_open nofun rfl rfl id
  | responder => exact .of_open (fun _ => rfl) rfl rfl id

theorem Shut.step (h : l.Shut) (hlinked : Linked strict idx l) (hgrace : l.Graceful event)
    (hstep : l.step event = some l') : l'.Shut := by
  cases step_cases hstep with
  | idle => exact h
  | send r data elapsed _ hsend => exact h.send hlinked hgrace.2 hgrace.1.2 hsend
  | recv r => exact h.recv hlinked r
  | close r => exact h.close hlinked r
  | reset r => exact hgrace.1.2.elim
  | poll r elapsed => exact h.poll hlinked hgrace.1.2
  | deliver index f elapsed hf => exact h.deliver hlinked hf hgrace

theorem Graceful.shut (h : Reaches Link.step Graceful Opened l) : (∃ idx, Linked (strictIf False) idx l) ∧ l.Shut := by
  refine h.invariant (P := fun l => (∃ idx, Linked (strictIf False) idx l) ∧ l.Shut)
    (fun _ hopn => ⟨⟨_, hopn.linked _⟩, hopn.shut⟩) ?_
  rintro s event t ⟨⟨idx, hlinked⟩, hshut⟩ hgrace hstep
  exact ⟨hlinked.step hgrace.1.1 nofun hstep, hshut.step hlinked hgrace hstep⟩

/-- The chunk that is expected next arrives at `r`, and is accepted and acknowledged. -/
structure Accepts (l l' : Link) (r : Role) (chunk : Bytes) : Prop where
  accepted : ∃ more, (l'.ends r).accepted = (l.ends r).accepted ++ chunk :: more
  acknowledged : ∃ f ∈ l'.net, f.target = r.other ∧ f.packet = (l'.ends r).conn.ackPacket

theorem Shut.accepts (h : l.Shut) (hlinked : Linked strict idx l) {index : Nat} {f : Flight}
    (hf : l.net[index]? = some f) (hgrace : l.Graceful (.deliver index elapsed)) (hdata : f.packet.header.isData = true)
    (hrep : (l.ends f.target).closedReported = false) (hsyn : (l.ends f.target).conn.state ≠ .synSent)
    (hsynR : (l.ends f.target).conn.state ≠ .synReceived)
    (hseq : f.packet.header.seq = (l.ends f.target).conn.receiveWindow.nextExpected) :
    Accepts l (l.deliver f.target f.packet elapsed) f.target f.packet.payload := by
  obtain ⟨⟨-, hcalm⟩, hord⟩ := hgrace
  obtain ⟨hrst, hexp⟩ := hcalm f hf
  have hgen := hlinked.net f (mem_of_getElem? hf)
  have hst : (l.ends f.target).conn.state = .established := by
    have hopen := (h f.target).unfinished ((hord f hf).2 hdata) hrep
    cases hcase : (l.ends f.target).conn.state with
    | established => rfl
    | synSent => exact absurd hcase hsyn
    | synReceived => exact absurd hcase hsynR
    | closed | finWait | closing | timeWait => exact absurd (by rw [hcase]; trivial) hopen
  have hfin : f.packet.header.isFin = false := by
    refine Bool.eq_false_iff.mpr fun hfin => ?_
    obtain ⟨-, -, -, hnot, -⟩ := hgen.fin hfin
    exact Bool.false_ne_true (hnot.symm.trans hdata)
  have hne : f.packet.payload ≠ [] := by
    obtain ⟨k, -, hk, -⟩ := hgen.data hdata
    exact (hlinked.ends f.target.other).nonempty _ (mem_of_getElem? hk)
  obtain ⟨more, hin, hout⟩ := onData_next (c := (l.ends f.target).conn.onAck f.packet.header) hdata hne (by
      rw [receiveWindow_onAck]
      exact hseq)
  obtain ⟨d, packets, conn, hd, -, hpld, heq⟩ := deliver_cases l f.target f.packet elapsed
  rw [hd] at hexp
  obtain ⟨-, -, hconn, hack, hpkts⟩ := polled_of_not_expires hpld hexp
  obtain rfl : d = _ :=
    congrArg Prod.snd (hd.symm.trans (processPacket_established hst hrst hfin))
  rw [heq]
  refine ⟨⟨more, ?_⟩, ?_⟩
  · rw [transmit_ends, setEnd_self, Endpoint.accepted, Endpoint.accepted, append_assoc]
    refine congrArg ((l.ends f.target).received ++ ·) (hconn.trans ?_)
    exact (inbound_onPing _ _).trans (hin.trans (by rw [inbound_onAck]))
  · obtain ⟨hping, hque⟩ := ackPacket_onPing
      (((l.ends f.target).conn.onAck f.packet.header).onData f.packet) f.packet.header
    have hmem : conn.ackPacket ∈ packets := by
      rw [hack]
      refine hpkts (hque ?_)
      rw [hout]
      exact mem_append_right _ (mem_singleton.mpr hping)
    rw [transmit_ends, setEnd_self]
    exact ⟨_, mem_append_right _ (mem_map_of_mem hmem), rfl, rfl⟩

/-- The end of a connection is reported only after all that was sent before FIN has been accepted in order; and until
    then, the chunk that is expected next is accepted and acknowledged when it arrives. -/
theorem close_loses_nothing (h : Reaches step Graceful Opened l) :
    (∀ r, (l.ends r).closedReported = true →
      ∃ k, (l.ends r.other).finAt = some k ∧ (l.ends r).accepted = (l.ends r.other).sent.take k) ∧
    ∀ index elapsed f, l.net[index]? = some f → l.Graceful (.deliver index elapsed) → f.packet.header.isData = true →
      f.packet.header.seq = (l.ends f.target).conn.receiveWindow.nextExpected → (l.ends f.target).live = true →
      (l.ends f.target).conn.state ≠ .synSent → (l.ends f.target).conn.state ≠ .synReceived →
      (l.ends f.target).closedReported = false →
      ∃ l', l.step (.deliver index elapsed) = some l' ∧ Accepts l l' f.target f.packet.payload := by
  obtain ⟨⟨idx, hlinked⟩, hshut⟩ := Graceful.shut h
  refine ⟨fun r hreported => ((hshut r).reported hreported).2, ?_⟩
  intro index elapsed f hf hgraceful hdata hseq hlive hsynSent hsynReceived hreported
  refine ⟨_, ?_, hshut.accepts hlinked hf hgraceful hdata hreported hsynSent hsynReceived hseq⟩
  rw [Link.step, hf]
  simp [hlive]

instance (l : Link) : (event : Event) → Decidable (l.Calm event) := fun e => by
  delta Calm
  induction e using Event.casesOn <;> infer_instance

instance (l : Link) : (event : Event) → Decidable (l.Orderly event) := fun e => by
  delta Orderly
  induction e using Event.casesOn <;> infer_instance

instance (l : Link) (event : Event) : Decidable (l.Steady event) := inferInstanceAs (Decidable (_ ∧ _))

instance (l : Link) (event : Event) : Decidable (l.Graceful event) := inferInstanceAs (Decidable (_ ∧ _))

structure Ending where
  finAt : Option Nat
  sent : List Bytes
  accepted : List Bytes
  closedReported : Bool
  state : ConnectionState
  packets : Nat
  deriving DecidableEq

def ending (r : Role) (l : Link) : Ending :=
  ⟨(l.ends r).finAt, (l.ends r).sent, (l.ends r.other).accepted, (l.ends r.other).closedReported,
    (l.ends r.other).conn.state, l.net.length⟩

def Expected (l : Link) (index : Nat) (chunk : Bytes) : Prop :=
  l.net[index]?.isSome = true ∧ ∀ f ∈ l.net[index]?, f.target = .responder ∧ f.packet.payload = chunk ∧
    f.packet.header.isData = true ∧
    f.packet.header.seq = (l.ends .responder).conn.receiveWindow.nextExpected ∧ (l.ends .responder).live = true ∧
    (l.ends .responder).conn.state = .established ∧ (l.ends .responder).closedReported = false

instance (l : Link) (index : Nat) (chunk : Bytes) : Decidable (l.Expected index chunk) :=
  inferInstanceAs (Decidable (_ ∧ ∀ f ∈ l.net[index]?, _ ∧ _ ∧ _ ∧ _ ∧ _ ∧ _ ∧ _))

/-- A chunk arrives, and then FIN. -/
theorem close_loses_nothing_one :
    (∃ l, Reaches step Graceful Opened l ∧ ending .initiator l = ⟨some 1, [[1]], [[1]], true, .closing, 7⟩ ∧
      ∃ k, (l.ends .initiator).finAt = some k ∧ (l.ends .responder).accepted = (l.ends .initiator).sent.take k) ∧
    ∃ l l', Reaches step Graceful Opened l ∧ l.step (.deliver 3 noTime) = some l' ∧ Accepts l l' .responder [1] := by
  constructor
  · obtain ⟨l, hreach, hending⟩ := @reaches_plain Graceful _ (handshake ++ [.send .initiator [1] noTime,
      .deliver 3 noTime, .close .initiator, .deliver 5 noTime])
      (ending .initiator · = ⟨some 1, [[1]], [[1]], true, .closing, 7⟩) _ (by decide +kernel)
    exact ⟨l, hreach, hending, (close_loses_nothing hreach).1 .responder (congrArg Ending.closedReported hending)⟩
  · obtain ⟨l, hreach, hgraceful, hsome, hexpected⟩ := @reaches_plain Graceful _
      (handshake ++ [.send .initiator [1] noTime]) (fun l => l.Graceful (.deliver 3 noTime) ∧ l.Expected 3 [1]) _
      (by decide +kernel)
    obtain ⟨f, hf⟩ := Option.isSome_iff_exists.mp hsome
    obtain ⟨htarget, hpayload, hdata, hseq, hlive, hstate, hreported⟩ := hexpected f hf
    rw [← htarget] at hseq hlive hstate hreported
    obtain ⟨l', hstep, haccepts⟩ := (close_loses_nothing hreach).2 3 noTime f hf hgraceful hdata hseq hlive
      (by rw [hstate]; decide) (by rw [hstate]; decide) hreported
    rw [htarget, hpayload] at haccepts
    exact ⟨l, l', hreach, hstep, haccepts⟩

/-- FIN overtakes a chunk, and the end of the connection is reported without it. And an end that has closed ignores a
    chunk, although the other end has not finished. -/
theorem close_loses_chunk :
    (∃ l, Reaches step Steady Opened l ∧ ending .initiator l = ⟨some 1, [[1]], [], true, .closing, 6⟩) ∧
    ∃ l, Reaches step Steady Opened l ∧ ending .initiator l = ⟨none, [[1]], [], false, .closing, 5⟩ ∧
      (l.ends .responder).finAt = some 0 := by
  constructor
  · exact reaches_plain (handshake ++ [.send .initiator [1] noTime, .close .initiator, .deliver 4 noTime])
      (by decide +kernel)
  · exact reaches_plain (handshake ++ [.close .responder, .send .initiator [1] noTime, .deliver 4 noTime]) (by decide +kernel)

end Link
end SaorsaTransport.Constrained
