import SaorsaTransport.Theorems.Constrained.Engine
import SaorsaTransport.Theorems.Constrained.Windows

/-! The joint invariant of the two ends of a constrained connection and the packets in transit. Handshake packets
    acknowledge chunks that do not exist yet, so up to two chunks leave a send window too early, unless an end is
    strict. -/

namespace SaorsaTransport.Constrained
open Library ConstrainedHeader ConnectionState ConstrainedConnection List Function

structure Index where
  gone : Nat
  base : Nat
  next : Nat
  cum : Nat
  told : Nat

def Endpoint.window (self : Endpoint) : Nat := self.conn.sendWindow.config.windowSize

structure Queued (strict : Prop) (told next : Nat) (e peer : Endpoint) (low : Nat) (packet : ConstrainedPacket) : Prop where
  data : packet.header.isData = true →
    ∃ k, packet.header.seq = number k ∧ e.sent[k]? = some packet.payload ∧ low ≤ k ∧ e.sent.length ≤ k + e.window
  ack : packet.header.isAck = true → peer.finAt.isSome ∨
    ∃ c, packet.header.ack = number c ∧ told ≤ c + 1 ∧ c + 1 ≤ max next 2 ∧ (strict → c + 1 ≤ next)
  syn : packet.header.isSyn = false
  fin : packet.header.isFin = false

structure Local (r : Role) (strict : Prop) (i : Index) (e peer : Endpoint) : Prop where
  sendSize : e.window < 64
  receiveSize : e.conn.receiveWindow.windowSize < 64
  nonempty : ∀ chunk ∈ e.sent, chunk ≠ []
  localSeq : e.conn.localSeq = number e.sent.length
  carries : e.conn.sendWindow.Carries e.sent i.gone i.base
  tracks : e.conn.receiveWindow.Tracks peer.sent i.next i.cum
  accepted : e.accepted = (peer.sent.take i.next).drop r.first
  next_le : i.next ≤ max peer.sent.length r.first
  le_cum : i.next ≤ i.cum + 1
  cum_le : i.cum + 1 ≤ max i.next 2
  cum_eq : r.first < i.next → i.cum + 1 = i.next
  told_le : i.told ≤ i.next
  finAt : ∀ k, e.finAt = some k → k ≤ e.sent.length ∧ e.conn.state.Past
  synSent : e.conn.state = .synSent → r = .initiator ∧ i.next = 0
  synReceived : e.conn.state = .synReceived → r = .responder
  established : e.conn.state = .established → r.first ≤ i.next
  queued : ∀ p ∈ e.conn.outbound, Queued strict i.told i.next e peer 0 p

def Settled (strict : Prop) (i : Index) (e peer : Endpoint) : Prop :=
  e.conn.state ≠ .closed → i.told = i.next ∧ ∀ p ∈ e.conn.outbound, Queued strict i.told i.next e peer i.gone p

structure Departs (strict : Prop) (told next : Nat) (e peer : Endpoint) (packet : ConstrainedPacket) : Prop where
  data : packet.header.isData = true →
    ∃ k, packet.header.seq = number k ∧ e.sent[k]? = some packet.payload ∧ e.sent.length ≤ k + e.window
  ack : packet.header.isAck = true → peer.finAt.isSome ∨
    ∃ c, packet.header.ack = number c ∧ c + 1 ≤ max told 2 ∧ peer.sent.length ≤ c + peer.window + 2 ∧
      (strict → c + 1 ≤ next)
  syn : packet.header.isSyn = false
  fin : packet.header.isFin = true →
    e.finAt = some e.sent.length ∧ packet.header.seq = number e.sent.length ∧ packet.header.isData = false

namespace Link

structure Genuine (strict : Role → Prop) (idx : Role → Index) (l : Link) (f : Flight) : Prop where
  data : f.packet.header.isData = true → ∃ k, f.packet.header.seq = number k ∧
    (l.ends f.target.other).sent[k]? = some f.packet.payload ∧ f.marks f.target.other ≤ k + (l.ends f.target.other).window
  ack : f.packet.header.isAck = true → (l.ends f.target).finAt.isSome ∨
    ∃ c, f.packet.header.ack = number c ∧ c + 1 ≤ max (idx f.target.other).told 2 ∧
      f.marks f.target ≤ c + (l.ends f.target).window + 2 ∧ (f.packet.header.isSyn = true → c = 1) ∧
      (strict f.target.other → f.packet.header.isSyn = false → c + 1 ≤ (idx f.target.other).next)
  synAck : f.packet.header.isSynAck = true → f.packet.header.seq = number 0
  fin : f.packet.header.isFin = true → ∃ k, (l.ends f.target.other).finAt = some k ∧
    f.packet.header.seq = number k ∧ f.packet.header.isData = false ∧ f.marks f.target.other = k

structure Linked (strict : Role → Prop) (idx : Role → Index) (l : Link) : Prop where
  ends : ∀ r, Local r (strict r) (idx r) (l.ends r) (l.ends r.other)
  settled : ∀ r, Settled (strict r) (idx r) (l.ends r) (l.ends r.other)
  told : ∀ r, (idx r).gone ≤ max (idx r.other).told 2
  honest : ∀ r, strict r → (idx r.other).gone ≤ (idx r).next
  quiet : ∀ r, strict r → (l.ends r).sent = []
  net : ∀ f ∈ l.net, Genuine strict idx l f

end Link

section
variable {r : Role} {strict : Prop} {i j : Index} {e peer : Endpoint} {p : ConstrainedPacket} {state : ConnectionState}

theorem Local.new {conn : ConstrainedConnection} {id : ConnectionId} {addr : SocketAddr} {config : ConnectionConfig}
    {flag : Bool} (hconn : conn = (new id addr config flag).setState state)
    (hsize : config.arq.windowSize < 64) (hsynSent : state = .synSent → r = .initiator)
    (hsynR : state = .synReceived → r = .responder) (hest : state ≠ .established) (hpeer : peer.sent = []) :
    Local r strict ⟨0, 0, 0, 0, 0⟩ (.new conn) peer := by
  subst hconn
  exact {
    sendSize := hsize
    receiveSize := hsize
    nonempty := nofun
    localSeq := rfl
    carries := .new _
    tracks := .new _ _
    accepted := by
      rw [hpeer, take_nil, drop_nil]
      rfl
    next_le := zero_le
    le_cum := zero_le
    cum_le := by decide
    cum_eq := nofun
    told_le := le_rfl
    finAt := nofun
    synSent := fun h => ⟨hsynSent h, rfl⟩
    synReceived := hsynR
    established := fun h => absurd h hest
    queued := nofun }

theorem Link.Opened.linked {l : Link} (h : Opened l) (strict : Role → Prop) : Linked strict (fun _ => ⟨0, 0, 0, 0, 0⟩) l := by
  obtain @⟨id, _, _, _, _, _, _, hsize, hinitiate, haccept⟩ := h
  cases hinitiate
  cases haccept
  refine ⟨?_, ?_, fun _ => zero_le, fun _ _ => zero_le, ?_, ?_⟩
  · intro r
    cases r with
    | initiator => exact Local.new rfl (hsize .initiator) (fun _ => rfl) nofun nofun rfl
    | responder => exact Local.new rfl (hsize .responder) nofun (fun _ => rfl) nofun rfl
  · intro r _
    cases r <;> exact ⟨rfl, nofun⟩
  · intro r _
    cases r <;> rfl
  · intro f hf
    simp only [mem_cons, not_mem_nil, or_false] at hf
    rcases hf with rfl | rfl
    · obtain ⟨hdata, hack, hfin⟩ := syn_flags id
      refine ⟨fun h => absurd h (Bool.eq_false_iff.mp hdata), fun h => absurd h (Bool.eq_false_iff.mp hack), fun h => ?_,
        fun h => absurd h (Bool.eq_false_iff.mp hfin)⟩
      exact absurd (Bool.and_eq_true_iff.mp h).2 (Bool.eq_false_iff.mp hack)
    obtain ⟨hdata, hsyn, hfin⟩ := synAck_flags id (number 1)
    exact ⟨fun h => absurd h (Bool.eq_false_iff.mp hdata),
      fun _ => .inr ⟨1, rfl, by decide, zero_le, fun _ => rfl, fun _ h => absurd hsyn (Bool.eq_false_iff.mp h)⟩,
      fun _ => rfl, fun h => absurd h (Bool.eq_false_iff.mp hfin)⟩

/-- What the other end can see of an end: it accepts more chunks, and once it has closed it stays so. -/
structure Endpoint.Grows (e e' : Endpoint) : Prop where
  sent : e.sent <+: e'.sent
  finAt : ∀ k, e.finAt = some k → e'.finAt = some k
  window : e'.window = e.window

namespace Endpoint.Grows
variable {e' : Endpoint}

theorem isSome (h : Grows e e') (hfin : e.finAt.isSome) : e'.finAt.isSome := by
  obtain ⟨k, hk⟩ := Option.isSome_iff_exists.mp hfin
  exact Option.isSome_of_mem (h.finAt k hk)

theorem getElem? (h : Grows e e') {k : Nat} {chunk : Bytes} (hk : e.sent[k]? = some chunk) : e'.sent[k]? = some chunk := by
  obtain ⟨more, hmore⟩ := h.sent
  rw [← hmore, List.getElem?_append_left (List.getElem?_eq_some_iff.mp hk).1]
  exact hk

end Endpoint.Grows

theorem take_drop_append {sent more : List Bytes} {n first : Nat} (hn : n ≤ max sent.length first) :
    ((sent ++ more).take n).drop first = (sent.take n).drop first := by
  rcases le_total n sent.length with hle | hge
  · rw [take_append_of_le_length hle]
  have hfst : n ≤ first ∨ n ≤ sent.length := by omega
  rcases hfst with hfst | hle
  · rw [drop_of_length_le (by rw [length_take]; omega), drop_of_length_le (by rw [length_take]; omega)]
  · rw [take_append_of_le_length hle]

variable {told next low : Nat} {conn : ConstrainedConnection} {peer' : Endpoint}

theorem Queued.grow (h : Queued strict told next e peer low p)
    (hgr : peer.Grows peer') : Queued strict told next e peer' low p :=
  { h with ack := fun hack => (h.ack hack).imp_left hgr.isSome }

theorem Local.grow (h : Local r strict i e peer) (hgr : peer.Grows peer') : Local r strict i e peer' := by
  obtain ⟨more, hmore⟩ := hgr.sent
  exact { h with
    tracks := hmore ▸ h.tracks.append more
    accepted := by rw [← hmore, take_drop_append h.next_le]; exact h.accepted
    next_le := by
      have := h.next_le
      rw [← hmore, length_append]
      omega
    queued := fun p hp => (h.queued p hp).grow hgr }

theorem Settled.grow (h : Settled strict i e peer) (hgr : peer.Grows peer') :
    Settled strict i e peer' := fun hopen => ⟨(h hopen).1, fun p hp => ((h hopen).2 p hp).grow hgr⟩

namespace Link
variable {l : Link} {strict : Role → Prop} {idx : Role → Index} {e' : Endpoint} {packets : List ConstrainedPacket}

theorem setEnd_self (l : Link) (r : Role) (e : Endpoint) : (l.setEnd r e).ends r = e := update_self ..

theorem setEnd_other (l : Link) (r : Role) (e : Endpoint) : (l.setEnd r e).ends r.other = l.ends r.other :=
  Function.update_of_ne r.other_ne ..

theorem Genuine.update {f : Flight} (h : Genuine strict idx l f) {r : Role} {i' : Index}
    (hgr : (l.ends r).Grows e') (htold : (idx r).told ≤ i'.told) (hnext : (idx r).next ≤ i'.next) :
    Genuine strict (Function.update idx r i') (l.setEnd r e') f := by
  by_cases htgt : f.target = r
  · -- The packet comes from the other end.
    have hoth : f.target.other = r.other := congrArg _ htgt
    refine ⟨fun hdata => ?_, fun hack => ?_, h.synAck, fun hfin => ?_⟩
    · rw [hoth, setEnd_other, ← hoth]
      exact h.data hdata
    · rw [hoth, Function.update_of_ne r.other_ne, htgt, setEnd_self, ← hoth]
      refine (h.ack hack).imp (fun hdone => hgr.isSome (htgt ▸ hdone)) ?_
      rintro ⟨c, hc, hle, hmarks, hrest⟩
      exact ⟨c, hc, hle, by rw [hgr.window]; exact htgt ▸ hmarks, hrest⟩
    · rw [hoth, setEnd_other, ← hoth]
      exact h.fin hfin
  have hoth := Role.eq_other htgt
  have hself : f.target.other = r := by rw [hoth, Role.other_other]
  refine ⟨fun hdata => ?_, fun hack => ?_, h.synAck, fun hfin => ?_⟩
  · rw [hself, setEnd_self]
    obtain ⟨k, hseq, hk, hmarks⟩ := h.data hdata
    rw [hself] at hk hmarks
    exact ⟨k, hseq, hgr.getElem? hk, by rw [hgr.window]; exact hmarks⟩
  · rw [hself, update_self, hoth, setEnd_other, ← hoth]
    refine (h.ack hack).imp_right ?_
    rintro ⟨c, hc, hle, hmarks, hsyn, hstr⟩
    rw [hself] at hle hstr
    exact ⟨c, hc, hle.trans (max_le_max_right 2 htold), hmarks, hsyn, fun hs hnot => (hstr hs hnot).trans hnext⟩
  · rw [hself, setEnd_self]
    obtain ⟨k, hk, hrest⟩ := h.fin hfin
    rw [hself] at hk hrest
    exact ⟨k, hgr.finAt k hk, hrest⟩

theorem Role.forall_of {P : Role → Prop} (r : Role) (h : P r) (h' : P r.other) (q : Role) : P q := by
  by_cases hq : q = r
  · exact hq ▸ h
  · exact Role.eq_other hq ▸ h'

theorem Linked.update (h : Linked strict idx l) {r : Role} {i : Index}
    (hloc : Local r (strict r) i e' (l.ends r.other)) (hset : Settled (strict r) i e' (l.ends r.other))
    (hgr : (l.ends r).Grows e') (htold : (idx r).told ≤ i.told) (hnext : (idx r).next ≤ i.next)
    (hgone : i.gone ≤ max (idx r.other).told 2) (hhonest : strict r.other → i.gone ≤ (idx r.other).next)
    (hqt : strict r → e'.sent = []) (hpkts : ∀ p ∈ packets, Departs (strict r) i.told i.next e' (l.ends r.other) p) :
    Linked strict (Function.update idx r i) ((l.setEnd r e').transmit r packets) := by
  have hself : ((l.setEnd r e').transmit r packets).ends r = e' := setEnd_self l r e'
  have hoth : ((l.setEnd r e').transmit r packets).ends r.other = l.ends r.other := setEnd_other l r e'
  have hidx : Function.update idx r i r.other = idx r.other := Function.update_of_ne r.other_ne ..
  have hends := h.ends r.other
  have hset' := h.settled r.other
  have htold' := h.told r.other
  rw [Role.other_other] at hends hset' htold'
  refine ⟨Role.forall_of r ?_ ?_, Role.forall_of r ?_ ?_, Role.forall_of r ?_ ?_,
    Role.forall_of r (fun hq => ?_) fun hq => ?_, Role.forall_of r (fun hq => ?_) fun hq => ?_, fun f hf => ?_⟩
  · rw [update_self, hself, hoth]
    exact hloc
  · rw [hidx, hoth, Role.other_other, hself]
    exact hends.grow hgr
  · rw [update_self, hself, hoth]
    exact hset
  · rw [hidx, hoth, Role.other_other, hself]
    exact hset'.grow hgr
  · rw [update_self, hidx]
    exact hgone
  · rw [hidx, Role.other_other, update_self]
    exact htold'.trans (max_le_max_right 2 htold)
  · rw [update_self, hidx]
    exact (h.honest r hq).trans hnext
  · rw [Role.other_other, update_self, hidx]
    exact hhonest hq
  · rw [hself]
    exact hqt hq
  · rw [hoth]
    exact h.quiet _ hq
  · rcases mem_append.mp hf with hf | hf
    · have := (h.net f hf).update hgr htold hnext
      exact ⟨this.data, this.ack, this.synAck, this.fin⟩
    obtain ⟨p, hp, rfl⟩ := mem_map.mp hf
    obtain ⟨hdata, hack, hsyn, hfin⟩ := hpkts p hp
    refine ⟨fun h => ?_, fun h => ?_, fun h => ?_, fun h => ?_⟩ <;> dsimp only
    · rw [Role.other_other, hself, setEnd_self]
      exact hdata h
    · rw [Role.other_other, hoth, setEnd_other, update_self]
      refine (hack h).imp_right ?_
      rintro ⟨c, hc, hle, hmarks, hstr⟩
      exact ⟨c, hc, hle, hmarks, fun h => absurd h (Bool.eq_false_iff.mp hsyn), fun hs _ => hstr hs⟩
    · exact absurd (Bool.and_eq_true_iff.mp h).1 (Bool.eq_false_iff.mp hsyn)
    · rw [Role.other_other, hself, setEnd_self]
      exact ⟨_, (hfin h).1, (hfin h).2.1, (hfin h).2.2, rfl⟩

end Link

theorem Queued.congr (h : Queued strict told next e peer low p)
    (hsent : e'.sent = e.sent) (hwin : e'.window = e.window) : Queued strict told next e' peer low p := by
  refine ⟨fun hdata => ?_, h.ack, h.syn, h.fin⟩
  rw [hsent, hwin]
  exact h.data hdata

structure ConnectionState.Later (s s' : ConnectionState) : Prop where
  past : s.Past → s'.Past
  synSent : s' = .synSent → s = .synSent
  synReceived : s' = .synReceived → s = .synReceived
  established : s' = .established → s = .established

theorem ConnectionState.Later.refl (s : ConnectionState) : Later s s := ⟨id, id, id, id⟩

theorem ConnectionState.later_of_past {s s' : ConnectionState} (h : s'.Past) : Later s s' := by
  refine ⟨fun _ => h, ?_, ?_, ?_⟩ <;> rintro rfl <;> exact h.elim

theorem Local.keep (h : Local r strict i e peer) {gone base : Nat} (htold : told ≤ i.next)
    (hseq : conn.localSeq = e.conn.localSeq) (hrcv : conn.receiveWindow = e.conn.receiveWindow)
    (hin : conn.inbound = e.conn.inbound) (hcfg : conn.sendWindow.config = e.conn.sendWindow.config)
    (hcar : conn.sendWindow.Carries e.sent gone base) (hst : e.conn.state.Later conn.state)
    (hque : ∀ p ∈ conn.outbound, Queued strict told i.next e peer 0 p) :
    Local r strict { i with gone, base, told } { e with conn } peer where
  __ := h
  sendSize := by
    show conn.sendWindow.config.windowSize < 64
    rw [hcfg]
    exact h.sendSize
  receiveSize := by
    rw [hrcv]
    exact h.receiveSize
  localSeq := hseq.trans h.localSeq
  carries := hcar
  tracks := by
    rw [hrcv]
    exact h.tracks
  accepted := by
    show e.received ++ conn.inbound = _
    rw [hin]
    exact h.accepted
  told_le := htold
  finAt k hk := ⟨(h.finAt k hk).1, hst.past (h.finAt k hk).2⟩
  synSent hs := h.synSent (hst.synSent hs)
  synReceived hs := h.synReceived (hst.synReceived hs)
  established hs := h.established (hst.established hs)
  queued p hp := (hque p hp).congr rfl (congrArg ArqConfig.windowSize hcfg)

theorem Departs.bare (h : p.header.Bare) : Departs strict told next e peer p :=
  ⟨fun hdata => absurd hdata (Bool.eq_false_iff.mp h.data), fun hack => absurd hack (Bool.eq_false_iff.mp h.ack), h.syn,
    fun hfin => absurd hfin (Bool.eq_false_iff.mp h.fin)⟩

theorem Queued.departs (h : Queued strict told next e peer low p)
    (hpeer : peer.sent.length ≤ max told 2 + peer.window) : Departs strict next next e peer p := by
  refine ⟨fun hdata => ?_, fun hack => ?_, h.syn, fun hfin => absurd hfin (Bool.eq_false_iff.mp h.fin)⟩
  · obtain ⟨k, hseq, hk, -, hlen⟩ := h.data hdata
    exact ⟨k, hseq, hk, hlen⟩
  · refine (h.ack hack).imp_right ?_
    rintro ⟨c, hc, htold, hle, hstr⟩
    exact ⟨c, hc, hle, by omega, hstr⟩

theorem Local.departs_retransmit (h : Local r strict i e peer) (hpeer : peer.sent.length ≤ max i.told 2 + peer.window)
    (hqt : strict → e.sent = []) {k : Nat} {chunk : Bytes} (hgone : i.gone ≤ k) (hk : e.sent[k]? = some chunk)
    (id : ConnectionId) :
    Departs strict i.next i.next e peer (.data id (number k) e.conn.receiveWindow.cumulativeAck chunk) := by
  obtain ⟨hsyn, hfin, -⟩ := data_flags id (number k) e.conn.receiveWindow.cumulativeAck
  have hroom := h.carries.room
  have hcum := h.le_cum
  have htold := h.told_le
  refine ⟨fun _ => ⟨k, rfl, hk, ?_⟩, fun _ => .inr ⟨i.cum, h.tracks.cumulativeAck, h.cum_le, by omega, fun hs => ?_⟩, hsyn,
    fun hf => absurd hf (Bool.eq_false_iff.mp hfin)⟩
  · rw [Endpoint.window]
    omega
  · rw [hqt hs] at hk
    cases hk

theorem Local.poll (h : Local r strict i e peer) (hpeer : peer.sent.length ≤ max i.told 2 + peer.window)
    (hqt : strict → e.sent = []) {elapsed : Elapsed}
    (hpoll : ConstrainedConnection.Polled e.conn elapsed packets conn) :
    ∃ told, i.told ≤ told ∧ Local r strict { i with told } { e with conn } peer ∧
      Settled strict { i with told } { e with conn } peer ∧
      ∀ p ∈ packets, Departs strict told i.next { e with conn } peer p := by
  cases hpoll with
  | expired message sendWindow _ hwin =>
    have hcar : sendWindow.Carries e.sent i.gone i.base ∧ sendWindow.config = e.conn.sendWindow.config := by
      rcases hwin with rfl | rfl
      · exact ⟨h.carries, rfl⟩
      · exact ⟨h.carries.getRetransmissions _, rfl⟩
    exact ⟨i.told, le_rfl, h.keep h.told_le rfl rfl rfl hcar.2 hcar.1 (later_of_past trivial) h.queued,
      fun hopen => absurd rfl hopen, nofun⟩
  | sent retransmits sendWindow hretx =>
    have hcar : sendWindow.Carries e.sent i.gone i.base ∧ sendWindow.config = e.conn.sendWindow.config := by
      obtain rfl : (e.conn.sendWindow.getRetransmissions elapsed.overdue).2 = sendWindow := by rw [hretx]
      exact ⟨h.carries.getRetransmissions _, rfl⟩
    have hwin : ∀ {p}, Departs strict i.next i.next e peer p → Departs strict i.next i.next
        { e with conn := { e.conn with sendWindow, outbound := [] } } peer p := by
      rintro p ⟨hdata, hack, hsyn, hfin⟩
      refine ⟨fun hd => ?_, hack, hsyn, hfin⟩
      obtain ⟨k, hseq, hk, hlen⟩ := hdata hd
      exact ⟨k, hseq, hk, by rw [Endpoint.window, ← hcar.2] at hlen; exact hlen⟩
    refine ⟨i.next, h.told_le, h.keep le_rfl rfl rfl rfl hcar.2 hcar.1 (.refl _) nofun,
      fun _ => ⟨rfl, nofun⟩, fun p hp => hwin ?_⟩
    rcases mem_append.mp hp with hp | hp
    · rcases mem_append.mp hp with hp | hp
      · obtain ⟨x, hx, rfl⟩ := mem_map.mp hp
        obtain ⟨k, hgone, hk, hseq⟩ := h.carries.mem_retransmits (by rw [hretx]) hx
        rw [hseq]
        exact h.departs_retransmit hpeer hqt hgone hk _
      unfold keepalive at hp
      split at hp
      · obtain rfl := mem_singleton.mp hp
        exact .bare (bare_ping _ _)
      · cases hp
    · exact (h.queued p hp).departs hpeer

structure Arrives (strict : Prop) (i j : Index) (e peer : Endpoint) (packet : ConstrainedPacket) : Prop where
  data : packet.header.isData = true → ∃ k, packet.header.seq = number k ∧ peer.sent[k]? = some packet.payload ∧
    i.next ≤ k + 128 ∧ k < i.next + 128
  ack : packet.header.isAck = true → e.finAt.isSome ∨
    ∃ c, packet.header.ack = number c ∧ c + 1 ≤ max j.told 2 ∧ c + 1 ≤ max e.sent.length 2 ∧
      (i.gone < e.sent.length → i.base ≤ c + 128) ∧
      (strict → e.conn.state = .established → min (c + 1) e.sent.length ≤ j.next)
  synAck : packet.header.isSynAck = true → packet.header.seq = number 0
  fin : packet.header.isFin = true → peer.finAt.isSome

/-- Chunks leave the send window only if the packets of the other end say so. -/
structure Allowed (strict : Prop) (j : Index) (gone gone' : Nat) : Prop where
  told : gone ≤ max j.told 2 → gone' ≤ max j.told 2
  honest : strict → gone ≤ j.next → gone' ≤ j.next

theorem Allowed.refl (strict : Prop) (j : Index) (gone : Nat) : Allowed strict j gone gone := ⟨id, fun _ => id⟩

theorem Queued.bare (h : p.header.Bare) : Queued strict told next e peer low p :=
  ⟨fun hdata => absurd hdata (Bool.eq_false_iff.mp h.data), fun hack => absurd hack (Bool.eq_false_iff.mp h.ack), h.syn, h.fin⟩

variable {strictPeer : Prop} {header : ConstrainedHeader}

theorem Local.onAck (h : Local r strict i e peer) (hst : e.conn.state = .established)
    (harr : Arrives strictPeer i j e peer p) :
    ∃ gone base, Allowed strictPeer j i.gone gone ∧
      Local r strict { i with gone, base } { e with conn := e.conn.onAck p.header } peer := by
  unfold ConstrainedConnection.onAck
  split
  · next hack =>
    rcases harr.ack hack with hdone | ⟨c, hc, htold, hlen, hlow, hhonest⟩
    · obtain ⟨k, hk⟩ := Option.isSome_iff_exists.mp hdone
      have hpast := (h.finAt k hk).2
      rw [hst] at hpast
      exact hpast.elim
    obtain ⟨-, base, hcar⟩ := h.carries.acknowledge h.sendSize hlen hlow
    refine ⟨_, base, ⟨fun hgone => ?_, fun hs hgone => ?_⟩, h.keep h.told_le rfl rfl rfl rfl (hc ▸ hcar) (.refl _) h.queued⟩
    · omega
    · have := hhonest hs hst
      omega
  · exact ⟨i.gone, i.base, .refl _ _ _, h⟩

theorem take_drop_take {sent : List Bytes} {first n m : Nat} (hfst : first ≤ n) (hm : n ≤ m) :
    (sent.take n).drop first ++ (sent.take m).drop n = (sent.take m).drop first := by
  have hspl := take_append_drop (n - first) ((sent.take m).drop first)
  rw [drop_drop, Nat.add_sub_cancel' hfst, ← drop_take, take_take, min_eq_left hm] at hspl
  exact hspl

theorem Queued.advance {next' : Nat} (h : Queued strict told next e peer low p) (hnext : next ≤ next') :
    Queued strict told next' e peer low p := by
  refine { h with ack := fun hack => (h.ack hack).imp_right ?_ }
  rintro ⟨c, hc, htold, hle, hs⟩
  exact ⟨c, hc, htold, hle.trans (max_le_max_right 2 hnext), fun hstr => (hs hstr).trans hnext⟩

theorem Local.onData (h : Local r strict i e peer) (hst : e.conn.state = .established)
    (harr : p.header.isData = true → ∃ k, p.header.seq = number k ∧ peer.sent[k]? = some p.payload ∧
      i.next ≤ k + 128 ∧ k < i.next + 128) :
    ∃ next cum, i.next ≤ next ∧ Local r strict { i with next, cum } { e with conn := e.conn.onData p } peer := by
  unfold ConstrainedConnection.onData
  split
  · next hdata =>
    obtain ⟨k, hseq, hk, hlow, hhigh⟩ := harr (Bool.and_eq_true_iff.mp hdata).1
    obtain ⟨hsize, hrcv⟩ := h.tracks.receive h.receiveSize hk hlow hhigh
    rw [← hseq] at hsize hrcv
    cases hres : e.conn.receiveWindow.receive p.header.seq p.payload with
    | mk out receiveWindow =>
      rw [hres] at hsize hrcv
      have hsize' := hsize.trans_lt h.receiveSize
      rcases hrcv with ⟨deliverable, m, rfl, rfl, hlt, hm, hdel, htrk, -⟩ | ⟨rfl, -, htrk, -⟩
      · have hack : Queued strict i.told m e peer 0
            (.control (.ackOnly e.conn.connectionId e.conn.localSeq receiveWindow.cumulativeAck)) := by
          obtain ⟨hnot, hsyn, hfin⟩ := ackOnly_flags e.conn.connectionId e.conn.localSeq
            receiveWindow.cumulativeAck
          have htold := h.told_le
          refine ⟨fun hd => absurd hd (Bool.eq_false_iff.mp hnot), fun _ => .inr ⟨m - 1, htrk.cumulativeAck, ?_, ?_, ?_⟩,
            hsyn, hfin⟩
          · omega
          · omega
          · intro _
            omega
        refine ⟨m, m - 1, hlt.le, { h with
          receiveSize := hsize'
          tracks := htrk
          accepted := ?_
          next_le := hm.trans (le_max_left _ _)
          le_cum := by show m ≤ m - 1 + 1; omega
          cum_le := by show m - 1 + 1 ≤ max m 2; omega
          cum_eq := fun _ => by show m - 1 + 1 = m; omega
          told_le := h.told_le.trans hlt.le
          established := fun hs => (h.established hs).trans hlt.le
          synSent := fun hs => absurd (hst.symm.trans hs) (by decide)
          queued := fun q hq => ?_ }⟩
        · show e.received ++ (e.conn.inbound ++ deliverable.map Prod.snd) = _
          rw [hdel, map_snd_numbered, ← append_assoc]
          exact (congrArg (· ++ _) h.accepted).trans (take_drop_take (h.established hst) hlt.le)
        · rcases mem_append.mp hq with hq | hq
          · exact ((h.queued q hq).advance hlt.le).congr rfl rfl
          rw [mem_singleton.mp hq]
          exact hack.congr rfl rfl
      exact ⟨i.next, i.cum, le_rfl, { h with
        receiveSize := hsize', tracks := htrk, queued := fun q hq => (h.queued q hq).congr rfl rfl }⟩
  · exact ⟨i.next, i.cum, le_rfl, h⟩

theorem mem_onPing {c : ConstrainedConnection} (h : p ∈ (c.onPing header).outbound) : p ∈ c.outbound ∨ p.header.Bare := by
  unfold onPing at h
  split at h
  · refine (mem_append.mp h).imp_right fun h => ?_
    rw [mem_singleton.mp h]
    exact bare_pong _ _
  · exact .inl h

section
variable (h : Local r strict i e peer)
include h

/-- The windows and the queue after data or FIN in an established connection; FIN is acknowledged as soon as it comes. -/
theorem Local.finish
    (hconn : conn = e.conn ∨ ∃ id seq ack, peer.finAt.isSome = true ∧
      conn = (((e.conn.setState .closing).push (.control (.ackOnly id seq ack))).emit .closed)) :
    Local r strict i { e with conn := conn.onPing header } peer := by
  have hst : e.conn.state.Later conn.state := by
    rcases hconn with rfl | ⟨_, _, _, _, rfl⟩
    · exact .refl _
    · exact later_of_past trivial
  have hque : ∀ q ∈ conn.outbound, Queued strict i.told i.next e peer 0 q := by
    rcases hconn with rfl | ⟨id, seq, ack, hdone, rfl⟩
    · exact h.queued
    intro q hq
    rcases mem_append.mp hq with hq | hq
    · exact h.queued q hq
    obtain ⟨hdata, hsyn, hfin⟩ := ackOnly_flags id seq ack
    rw [mem_singleton.mp hq]
    exact ⟨fun hd => absurd hd (Bool.eq_false_iff.mp hdata), fun _ => .inl hdone, hsyn, hfin⟩
  have hsame : (conn.onPing header).localSeq = e.conn.localSeq ∧ (conn.onPing header).receiveWindow = e.conn.receiveWindow ∧
      (conn.onPing header).inbound = e.conn.inbound ∧ (conn.onPing header).sendWindow = e.conn.sendWindow ∧
      (conn.onPing header).state = conn.state := by
    unfold onPing
    rcases hconn with rfl | ⟨_, _, _, _, rfl⟩ <;> split <;> exact ⟨rfl, rfl, rfl, rfl, rfl⟩
  obtain ⟨hseq, hrcv, hin, hsend, hkept⟩ := hsame
  refine h.keep h.told_le hseq hrcv hin (by rw [hsend]) (hsend ▸ h.carries) (hkept ▸ hst) fun q hq => ?_
  rcases mem_onPing hq with hq | hq
  · exact hque q hq
  · exact .bare hq

theorem Local.setState {events : List ConnectionEvent} (hst : e.conn.state.Later state) :
    Local r strict i { e with conn := { e.conn.setState state with events } } peer :=
  h.keep h.told_le rfl rfl rfl rfl h.carries hst h.queued

theorem Local.connected (hst : e.conn.state = .synSent) (hstr : strict → r = .responder)
    (harr : Arrives strictPeer i j e peer p) (hsyn : p.header.isSynAck = true) :
    Local r strict { i with next := 1, cum := 1 } { e with
      conn := (({ e.conn.setState .established with
          receiveWindow := e.conn.receiveWindow.resetWithSeq p.header.seq.next }.push
        (.control (.ackOnly e.conn.connectionId e.conn.localSeq p.header.seq.next))).emit .connected) } peer := by
  obtain ⟨rfl, hnext⟩ := h.synSent hst
  have hone : p.header.seq.next = number 1 := by rw [harr.synAck hsyn, next_number]
  have hle : i.next ≤ 1 := by omega
  rw [hone]
  exact { h with
    tracks := .resetWithSeq _ _ 1
    accepted := by
      refine h.accepted.trans ?_
      rw [hnext, take_zero, drop_nil]
      exact (drop_of_length_le (by rw [length_take]; exact min_le_left _ _)).symm
    next_le := le_max_right _ _
    le_cum := Nat.le_succ _
    cum_le := le_rfl
    cum_eq := fun hlt => absurd hlt (lt_irrefl 1)
    told_le := h.told_le.trans hle
    finAt := fun k hk => by
      have := (h.finAt k hk).2
      rw [hst] at this
      exact this.elim
    synSent := nofun
    synReceived := nofun
    established := fun _ => le_rfl
    queued := fun q hq => by
      rcases mem_append.mp hq with hq | hq
      · exact ((h.queued q hq).advance hle).congr rfl rfl
      obtain ⟨hdata, hsyn, hfin⟩ := ackOnly_flags e.conn.connectionId e.conn.localSeq (number 1)
      have htold := h.told_le
      rw [mem_singleton.mp hq]
      exact ⟨fun hd => absurd hd (Bool.eq_false_iff.mp hdata),
        fun _ => .inr ⟨1, rfl, by show i.told ≤ 2; omega, le_rfl, fun hs => nomatch hstr hs⟩, hsyn, hfin⟩ }

theorem Local.processed (hstr : strict → r = .responder)
    (harr : Arrives strictPeer i j e peer p) (hconn : ConstrainedConnection.Processed e.conn p conn) :
    ∃ i' : Index, i'.told = i.told ∧ i.next ≤ i'.next ∧ Allowed strictPeer j i.gone i'.gone ∧
      Local r strict i' { e with conn } peer := by
  have hest : e.conn.state = .established → ∃ i' : Index, i'.told = i.told ∧ i.next ≤ i'.next ∧
      Allowed strictPeer j i.gone i'.gone ∧
      Local r strict i' { e with conn := (e.conn.onAck p.header).onData p } peer := by
    intro hst
    obtain ⟨gone, base, hallowed, hloc⟩ := h.onAck hst harr
    obtain ⟨next, cum, hnext, hloc⟩ := hloc.onData ((state_onAck _ _).trans hst) harr.data
    exact ⟨⟨gone, base, next, cum, i.told⟩, rfl, hnext, hallowed, hloc⟩
  cases hconn with
  | ignored => exact ⟨i, rfl, le_rfl, .refl _ _ _, h⟩
  | reset => exact ⟨i, rfl, le_rfl, .refl _ _ _, h.setState (later_of_past trivial)⟩
  | connected hst hsyn =>
    refine ⟨{ i with next := 1, cum := 1 }, rfl, ?_, .refl _ _ _, h.connected hst hstr harr hsyn⟩
    rw [(h.synSent hst).2]
    exact zero_le
  | accepted hst hack =>
    have hrole := h.synReceived hst
    refine ⟨i, rfl, le_rfl, .refl _ _ _, { h with
      finAt := fun k hk => ?_
      synSent := nofun
      synReceived := nofun
      established := fun _ => by rw [hrole]; exact zero_le
      queued := fun q hq => (h.queued q hq).congr rfl rfl }⟩
    have := (h.finAt k hk).2
    rw [hst] at this
    exact this.elim
  | established hst hfin =>
    obtain ⟨i', htold, hnext, hallowed, hloc⟩ := hest hst
    exact ⟨i', htold, hnext, hallowed, hloc.finish (.inl rfl)⟩
  | finReceived hst hfin =>
    obtain ⟨i', htold, hnext, hallowed, hloc⟩ := hest hst
    exact ⟨i', htold, hnext, hallowed, hloc.finish (.inr ⟨_, _, _, harr.fin hfin, rfl⟩)⟩
  | finAcked hst hack hfin =>
    have hpast : ConnectionState.closing.Past := trivial
    exact ⟨i, rfl, le_rfl, .refl _ _ _, h.setState (later_of_past hpast)⟩
  | finBoth hst hfin =>
    exact ⟨i, rfl, le_rfl, .refl _ _ _, h.setState (later_of_past trivial)⟩
  | done hst =>
    have hpast : ConnectionState.timeWait.Past := trivial
    exact ⟨i, rfl, le_rfl, .refl _ _ _, h.setState (later_of_past hpast)⟩

end

end

/-! Every call at one of the two engines keeps the joint invariant, as long as packets arrive in time and, for a strict
    end, are candid. -/

open Link ArqConfig

section
variable {r : Role} {strict strictPeer : Prop} {i j : Index} {e peer : Endpoint} {p : ConstrainedPacket}

variable {told next : Nat} {conn : ConstrainedConnection}

theorem Queued.weaken {low : Nat} (h : Queued strict told next e peer low p) : Queued strict told next e peer 0 p := by
  refine ⟨fun hdata => ?_, h.ack, h.syn, h.fin⟩
  obtain ⟨k, hseq, hk, -, hlen⟩ := h.data hdata
  exact ⟨k, hseq, hk, zero_le, hlen⟩

theorem Queued.sendChunk (h : Queued strict told next e peer i.gone p) {e' : Endpoint} {chunk : Bytes}
    (hsent : e'.sent = e.sent ++ [chunk]) (hwin : e'.window = e.window) (hroom : e.sent.length < i.gone + e.window) :
    Queued strict told next e' peer i.gone p := by
  refine ⟨fun hdata => ?_, h.ack, h.syn, h.fin⟩
  obtain ⟨k, hseq, hk, hlow, hlen⟩ := h.data hdata
  rw [hsent, hwin, length_append]
  refine ⟨k, hseq, ?_, hlow, by simp only [length_singleton]; omega⟩
  rw [List.getElem?_append_left (List.getElem?_eq_some_iff.mp hk).1]
  exact hk

structure Ready (r : Role) (strict : Prop) (i : Index) (e peer : Endpoint) : Prop extends Local r strict i e peer where
  ahead : ∀ p ∈ e.conn.outbound, Queued strict i.told i.next e peer i.gone p

theorem Ready.sendChunk (h : Ready r strict i e peer) (hstr : ¬ strict) {chunk : Bytes} (hchunk : chunk ≠ [])
    (hconn : e.conn.sendChunk chunk = some conn) :
    Ready r strict i { e with conn, sent := e.sent ++ [chunk] } peer ∧ conn.state = e.conn.state ∧
      conn.sendWindow.config = e.conn.sendWindow.config := by
  obtain ⟨sendWindow, hadd, rfl⟩ := Option.map_eq_some_iff.mp hconn
  rw [h.localSeq] at hadd
  obtain ⟨hcar, hcfg⟩ := h.carries.add hadd
  have hroom : e.sent.length < i.gone + e.window := by
    have := hcar.room
    rw [length_append, hcfg] at this
    exact this
  have hwin : sendWindow.config.windowSize = e.window := congrArg windowSize hcfg
  have hahead : ∀ p ∈ e.conn.outbound ++ [.data e.conn.connectionId e.conn.localSeq e.conn.receiveWindow.cumulativeAck chunk],
      Queued strict i.told i.next { e with
        conn := { e.conn with localSeq := e.conn.localSeq.next, sendWindow }.push
          (.data e.conn.connectionId e.conn.localSeq e.conn.receiveWindow.cumulativeAck chunk)
        sent := e.sent ++ [chunk] } peer i.gone p := by
    intro p hp
    rcases mem_append.mp hp with hp | hp
    · exact (h.ahead p hp).sendChunk rfl hwin hroom
    obtain ⟨hsyn, hfin, -⟩ := data_flags e.conn.connectionId e.conn.localSeq e.conn.receiveWindow.cumulativeAck
    rw [mem_singleton.mp hp]
    refine ⟨fun _ => ⟨e.sent.length, h.localSeq, ?_, h.carries.gone_le, ?_⟩,
      fun _ => .inr ⟨i.cum, h.tracks.cumulativeAck, h.told_le.trans h.le_cum, h.cum_le, fun hs => absurd hs hstr⟩,
      hsyn, hfin⟩
    · exact List.getElem?_concat_length ..
    · show (e.sent ++ [chunk]).length ≤ e.sent.length + sendWindow.config.windowSize
      have := h.carries.gone_le
      rw [length_append, hwin, length_singleton]
      omega
  refine ⟨{ h.toLocal with
    sendSize := hwin.trans_lt h.sendSize
    nonempty := ?_
    localSeq := ?_
    carries := hcar
    finAt := fun k hk => ⟨?_, (h.finAt k hk).2⟩
    queued := fun p hp => (hahead p hp).weaken
    ahead := hahead }, rfl, hcfg⟩
  · intro x hx
    rcases mem_append.mp hx with hx | hx
    · exact h.nonempty x hx
    rw [mem_singleton.mp hx]
    exact hchunk
  · show e.conn.localSeq.next = number (e.sent ++ [chunk]).length
    rw [h.localSeq, next_number, length_append, length_singleton]
  · rw [length_append]
    exact Nat.le_add_right_of_le (h.finAt k hk).1

theorem Ready.sendChunks (hstr : ¬ strict) : ∀ (chunks : List Bytes) {e : Endpoint}, Ready r strict i e peer →
    (∀ chunk ∈ chunks, chunk ≠ []) → ∃ more, Ready r strict i
      { e with conn := (e.conn.sendChunks chunks).2, sent := e.sent ++ more } peer ∧
      (e.conn.sendChunks chunks).2.state = e.conn.state ∧
      (e.conn.sendChunks chunks).2.sendWindow.config = e.conn.sendWindow.config
  | [], e, h, _ => ⟨[], by rw [append_nil]; exact h, rfl, rfl⟩
  | chunk :: chunks, e, h, hch => by
    unfold ConstrainedConnection.sendChunks
    cases hconn : e.conn.sendChunk chunk with
    | none => exact ⟨[], by rw [append_nil]; exact h, rfl, rfl⟩
    | some conn =>
      obtain ⟨hrdy, hst, hcfg⟩ := h.sendChunk hstr (hch chunk mem_cons_self) hconn
      obtain ⟨more, hmore, hst', hcfg'⟩ := Ready.sendChunks hstr chunks hrdy fun x hx =>
        hch x (mem_cons_of_mem _ hx)
      exact ⟨chunk :: more, by rw [append_assoc] at hmore; exact hmore, hst'.trans hst, hcfg'.trans hcfg⟩

theorem newChunks_eq {before after : ConstrainedConnection} {sent more : List Bytes} {gone base base' : Nat}
    (hpre : before.sendWindow.Carries sent gone base) (haft : after.sendWindow.Carries (sent ++ more) gone base') :
    Endpoint.newChunks before after = more := by
  have hlen := hpre.length
  have hch : after.sendWindow.unacked.map (·.data) = (sent ++ more).drop gone := by
    rw [← map_snd_numbered gone ((sent ++ more).drop gone), ← haft.entries, map_map]
    rfl
  rw [Endpoint.newChunks, map_drop, hch, drop_drop, hlen, drop_left]

variable {events : List ConnectionEvent} {live closedReported : Bool}

theorem Local.relabel (h : Local r strict i e peer) :
    Local r strict i { e with conn := { e.conn with events }, live, closedReported } peer :=
  { h with queued := fun p hp => (h.queued p hp).congr rfl rfl }

theorem Settled.relabel (h : Settled strict i e peer) :
    Settled strict i { e with conn := { e.conn with events }, live, closedReported } peer :=
  fun hopen => ⟨(h hopen).1, fun p hp => ((h hopen).2 p hp).congr rfl rfl⟩

theorem Departs.relabel (h : Departs strict told next e peer p) :
    Departs strict told next { e with conn := { e.conn with events }, live, closedReported } peer p :=
  { h with }

theorem Endpoint.Grows.of_conn {e' : Endpoint} (hsent : e'.sent = e.sent) (hfin : e'.finAt = e.finAt)
    (hwin : e'.window = e.window) : e.Grows e' :=
  ⟨hsent ▸ prefix_refl _, fun _ hk => hfin.trans hk, hwin⟩

end

namespace Link
variable {l : Link} {strict : Role → Prop} {idx : Role → Index} {r : Role}

theorem Linked.peer_le (h : Linked strict idx l) (r : Role) :
    (l.ends r.other).sent.length ≤ max (idx r).told 2 + (l.ends r.other).window := by
  have hroom := (h.ends r.other).carries.room
  have htold := h.told r.other
  rw [Role.other_other] at htold
  rw [Endpoint.window]
  omega

variable {elapsed : Elapsed} {c d : ConstrainedConnection} {packets : List ConstrainedPacket}

theorem window_poll (h : ConstrainedConnection.Polled c elapsed packets d) : d.sendWindow.config = c.sendWindow.config := by
  cases h with
  | expired message sendWindow _ hwin => rcases hwin with rfl | rfl <;> rfl
  | sent retransmits sendWindow hretx =>
    obtain rfl : (c.sendWindow.getRetransmissions elapsed.overdue).2 = sendWindow := by rw [hretx]
    rfl

theorem Linked.honest_other (h : Linked strict idx l) (r : Role) (hs : strict r.other) :
    (idx r).gone ≤ (idx r.other).next := by
  have := h.honest r.other hs
  rwa [Role.other_other] at this

theorem poll_eq
    (h : (l.ends r).conn.poll elapsed = (packets, conn)) : ∃ live, l.poll r elapsed =
      (l.setEnd r { l.ends r with conn := { conn with events := [] }, live }).transmit r packets := by
  rw [poll, h]
  exact ⟨_, rfl⟩

theorem Linked.poll (h : Linked strict idx l) (r : Role) (elapsed : Elapsed) : ∃ idx', Linked strict idx' (l.poll r elapsed) := by
  have hpoll := poll_cases (l.ends r).conn elapsed
  cases hres : (l.ends r).conn.poll elapsed with
  | mk packets conn =>
    rw [hres] at hpoll
    have hwin := window_poll hpoll
    obtain ⟨told, htold, hloc, hstl, hdep⟩ := (h.ends r).poll (h.peer_le r) (h.quiet r) hpoll
    obtain ⟨live, heq⟩ := poll_eq hres
    rw [heq]
    exact ⟨_, h.update hloc.relabel hstl.relabel (.of_conn rfl rfl (congrArg windowSize hwin)) htold
      le_rfl (h.told r) (h.honest_other r) (h.quiet r) fun p hp => (hdep p hp).relabel⟩

theorem transmit_nil (l : Link) (r : Role) : l.transmit r [] = l := by
  rw [transmit, map_nil, append_nil]

theorem accepted_recv (e : Endpoint) : e.received ++ e.conn.recv.1.toList ++ e.conn.recv.2.inbound = e.accepted := by
  rw [Endpoint.accepted, ConstrainedConnection.recv, append_assoc]
  cases e.conn.inbound <;> rfl

theorem Linked.recv (h : Linked strict idx l) (r : Role) : ∃ idx', Linked strict idx' (l.recv r) := by
  have hloc := h.ends r
  rw [← transmit_nil (l.recv r) r]
  exact ⟨_, h.update { hloc with
      accepted := (accepted_recv _).trans hloc.accepted
      queued := fun p hp => (hloc.queued p hp).congr rfl rfl }
    (fun hopen => ⟨(h.settled r hopen).1, fun p hp => ((h.settled r hopen).2 p hp).congr rfl rfl⟩)
    (.of_conn rfl rfl rfl) le_rfl le_rfl (h.told r) (h.honest_other r) (h.quiet r) nofun⟩

theorem Linked.reset (h : Linked strict idx l) (r : Role) : ∃ idx', Linked strict idx' (l.reset r) := by
  have heq : l.reset r = (l.setEnd r { l.ends r with conn := (l.ends r).conn.setState .closed, live := false }).transmit r
      [.control (.reset (l.ends r).conn.connectionId)] := by
    rw [← force_recvRst]
    rfl
  have hpast : ConnectionState.closed.Past := trivial
  have hloc : Local r (strict r) (idx r) { l.ends r with conn := (l.ends r).conn.setState .closed } (l.ends r.other) :=
    (h.ends r).setState (ConnectionState.later_of_past hpast)
  rw [heq]
  refine ⟨_, h.update hloc.relabel (fun hopen => absurd rfl hopen) (.of_conn rfl rfl rfl) le_rfl
    le_rfl (h.told r) (h.honest_other r) (h.quiet r) fun p hp => ?_⟩
  rw [mem_singleton.mp hp]
  exact .bare (bare_reset _)

theorem close_cases (l : Link) (r : Role) :
    l.close r = l ∨ ∃ state, ¬ (l.ends r).conn.state.Past ∧ state.Past ∧
      l.close r = (l.setEnd r { l.ends r with
        conn := (l.ends r).conn.setState state, finAt := some (l.ends r).sent.length }).transmit r
          [.control (.fin (l.ends r).conn.connectionId (l.ends r).conn.localSeq (l.ends r).conn.receiveWindow.cumulativeAck)] := by
  rcases ConstrainedConnection.close_cases (l.ends r).conn with ⟨e, herr⟩ | ⟨state, hnot, hpast, hok⟩
  · rw [close, herr]
    exact .inl rfl
  rw [close, hok]
  exact .inr ⟨state, hnot, hpast, rfl⟩

theorem Linked.close (h : Linked strict idx l) (r : Role)
    (hcand : strict r → (l.ends r).accepted ≠ [] ∧ r = .responder) : ∃ idx', Linked strict idx' (l.close r) := by
  rcases close_cases l r with heq | ⟨state, hnot, hpast, heq⟩
  · rw [heq]
    exact ⟨idx, h⟩
  have hloc := h.ends r
  have hopen : (l.ends r).conn.state ≠ .closed := fun hc => hnot (by rw [hc]; trivial)
  have hstl := h.settled r hopen
  have hnone : (l.ends r).finAt = none := by
    cases hfin : (l.ends r).finAt with
    | none => rfl
    | some k => exact absurd (hloc.finAt k hfin).2 hnot
  have hset : Local r (strict r) (idx r) { l.ends r with conn := (l.ends r).conn.setState state } (l.ends r.other) :=
    hloc.setState (ConnectionState.later_of_past hpast)
  have hpeer := h.peer_le r
  have hcum := hloc.le_cum
  rw [heq]
  refine ⟨_, h.update (i := idx r) { hset with
      finAt := fun k hk => ⟨(Option.some.inj hk) ▸ le_rfl, hpast⟩
      queued := fun p hp => (hset.queued p hp).congr rfl rfl }
    (fun _ => ⟨hstl.1, fun p hp => (hstl.2 p hp).congr rfl rfl⟩)
    ⟨prefix_refl _, fun k hk => (by rw [hnone] at hk; cases hk), rfl⟩ le_rfl le_rfl (h.told r)
    (h.honest_other r) (h.quiet r) fun p hp => ?_⟩
  rw [mem_singleton.mp hp]
  obtain ⟨hdata, hsyn⟩ := fin_flags (l.ends r).conn.connectionId (l.ends r).conn.localSeq
    (l.ends r).conn.receiveWindow.cumulativeAck
  refine ⟨fun hd => absurd hd (Bool.eq_false_iff.mp hdata),
    fun _ => .inr ⟨(idx r).cum, hloc.tracks.cumulativeAck, ?_, ?_, fun hs => ?_⟩, hsyn, fun _ => ⟨rfl, hloc.localSeq, hdata⟩⟩
  · rw [hstl.1]
    exact hloc.cum_le
  · omega
  · -- A strict end has received something, so what it acknowledges is what it has received.
    obtain ⟨hne, rfl⟩ := hcand hs
    refine (hloc.cum_eq (Nat.pos_of_ne_zero fun hzero => hne ?_)).le
    rw [hloc.accepted, hzero, take_zero, drop_nil]

theorem send_cases {data : Bytes} {l' : Link} (h : l.send r data elapsed = some l') :
    l' = l ∨ (l.ends r).conn.state ≠ .closed ∧ 0 < (l.ends r).conn.config.mss ∧
      ∃ result sent conn packets, (l.ends r).conn.send data = some (result, sent) ∧
        (l.ends r).conn.sendChunks (chunks (l.ends r).conn.config.mss data.length data) = (result, sent) ∧
        l' = (l.setEnd r { l.ends r with
          conn, sent := (l.ends r).sent ++ Endpoint.newChunks (l.ends r).conn conn }).transmit r packets ∧
        (conn = sent ∧ packets = [] ∨ ConstrainedConnection.Polled sent elapsed packets conn) := by
  obtain ⟨⟨result, conn⟩, hsend, rfl⟩ := Option.map_eq_some_iff.mp h
  obtain ⟨⟨sent, c⟩, hres, heq⟩ := Option.map_eq_some_iff.mp hsend
  have hsent := hres
  unfold ConstrainedConnection.send at hsent
  split at hsent
  · cases hsent
    cases heq
    left
    have hnone : Endpoint.newChunks (l.ends r).conn (l.ends r).conn = [] := by
      rw [Endpoint.newChunks, drop_length, map_nil]
    simp only [hnone, append_nil, transmit_nil]
    exact congrArg (mk · l.net) (Function.update_eq_self _ _)
  next hcan =>
  split at hsent
  · cases hsent
  next hmss =>
  have hopen : (l.ends r).conn.state ≠ .closed := by
    intro hcl
    rw [hcl] at hcan
    exact hcan rfl
  refine .inr ⟨hopen, Nat.pos_of_ne_zero hmss, sent, c, conn, _, hres, Option.some.inj hsent, rfl, ?_⟩
  cases sent with
  | error e =>
    cases heq
    exact .inl ⟨rfl, rfl⟩
  | ok u =>
    cases heq
    exact .inr (poll_cases c elapsed)

theorem Linked.send (h : Linked strict idx l) {data : Bytes} {l' : Link} (hstr : ¬ strict r)
    (hsend : l.send r data elapsed = some l') : ∃ idx', Linked strict idx' l' := by
  rcases send_cases hsend with rfl | ⟨hopen, hmss, result, sent, conn, packets, -, hsent, rfl, hconn⟩
  · exact ⟨idx, h⟩
  obtain ⟨hstl, hahead⟩ := h.settled r hopen
  have hrdy : Ready r (strict r) (idx r) (l.ends r) (l.ends r.other) := { h.ends r with ahead := hahead }
  obtain ⟨more, hmore, hst, hcfg⟩ := hrdy.sendChunks hstr
    (chunks (l.ends r).conn.config.mss data.length data) fun _ hx => ne_nil_of_mem_chunks hmss hx
  rw [hsent] at hmore hst hcfg
  rcases hconn with ⟨rfl, rfl⟩ | hpoll
  · have hnew := newChunks_eq (h.ends r).carries hmore.carries
    rw [hnew]
    refine ⟨_, h.update (i := idx r) hmore.toLocal (fun _ => ⟨hstl, hmore.ahead⟩)
      ⟨prefix_append _ _, fun _ hk => hk, congrArg windowSize hcfg⟩ le_rfl le_rfl
      (h.told r) (h.honest_other r) (fun hs => absurd hs hstr) nofun⟩
  obtain ⟨told, htold, hloc, hstl', hdep⟩ := hmore.toLocal.poll (h.peer_le r) (fun hs => absurd hs hstr) hpoll
  have hnew := newChunks_eq (h.ends r).carries hloc.carries
  have hwin := (window_poll hpoll).trans hcfg
  rw [hnew]
  exact ⟨_, h.update hloc hstl' ⟨prefix_append _ _, fun _ hk => hk, congrArg windowSize hwin⟩ htold le_rfl
    (h.told r) (h.honest_other r) (fun hs => absurd hs hstr) hdep⟩

theorem Linked.arrives (h : Linked strict idx l) {f : Flight} (hf : f ∈ l.net)
    (htime : ∀ r, (l.ends r).sent.length ≤ f.marks r + 64)
    (hcand : strict f.target.other → f.packet.header.isSynAck = true → (l.ends f.target).conn.state = .established →
      min 2 (l.ends f.target).sent.length ≤ (idx f.target.other).next) :
    Arrives (strict f.target.other) (idx f.target) (idx f.target.other) (l.ends f.target) (l.ends f.target.other) f.packet := by
  have hgen := h.net f hf
  have hloc := h.ends f.target
  have hoth := h.ends f.target.other
  have hpeer := h.peer_le f.target
  have htold := hloc.told_le
  have hsize := hloc.sendSize
  have hsize' := hoth.sendSize
  rw [Role.other_other] at hoth
  refine ⟨fun hdata => ?_, fun hack => (hgen.ack hack).imp_right ?_, hgen.synAck, fun hfin => ?_⟩
  · obtain ⟨k, hseq, hk, hmarks⟩ := hgen.data hdata
    have hlt := (List.getElem?_eq_some_iff.mp hk).1
    have hnext := hloc.next_le
    have hfst := f.target.first_le
    have hlen := htime f.target.other
    exact ⟨k, hseq, hk, by omega, by omega⟩
  · rintro ⟨c, hc, hle, hmarks, hsyn, hstr⟩
    have hnext := hoth.next_le
    have hfst := f.target.other.first_le
    have htold' := hoth.told_le
    have hlen := htime f.target
    have hbase := hloc.carries.base_le
    refine ⟨c, hc, hle, by omega, fun hlt => by omega, fun hs hest => ?_⟩
    cases hsyn' : f.packet.header.isSyn with
    | false =>
      have := hstr hs hsyn'
      omega
    | true =>
      obtain rfl := hsyn hsyn'
      exact hcand hs (by rw [isSynAck, hsyn', hack]; rfl) hest
  · obtain ⟨k, hk, -⟩ := hgen.fin hfin
    exact Option.isSome_of_mem hk

theorem deliver_cases (l : Link) (r : Role) (packet : ConstrainedPacket) (elapsed : Elapsed) :
    ∃ d packets conn, (l.ends r).conn.processPacket packet = (.ok (), d) ∧
      ConstrainedConnection.Processed (l.ends r).conn packet d ∧
      ConstrainedConnection.Polled { d with events := [] } elapsed packets conn ∧
      l.deliver r packet elapsed = (l.setEnd r { l.ends r with
        conn, closedReported := (l.ends r).closedReported || d.events.contains .closed }).transmit r packets := by
  obtain ⟨d, hd, hproc⟩ := processPacket_cases (l.ends r).conn packet
  refine ⟨d, _, _, hd, hproc, poll_cases { d with events := [] } elapsed, ?_⟩
  rw [deliver, incoming, hd]

theorem window_processed {packet : ConstrainedPacket}
    (h : ConstrainedConnection.Processed c packet d) : d.sendWindow.config = c.sendWindow.config := by
  have hping : ∀ c : ConstrainedConnection, (c.onPing packet.header).sendWindow.config = c.sendWindow.config := by
    intro c
    unfold onPing
    split <;> rfl
  have hdata : ((c.onAck packet.header).onData packet).sendWindow.config = c.sendWindow.config := by
    have hack : (c.onAck packet.header).sendWindow.config = c.sendWindow.config := by
      unfold onAck
      split <;> rfl
    rw [← hack]
    unfold onData
    split
    · split <;> rfl
    · rfl
  cases h with
  | established | finReceived => exact (hping _).trans hdata
  | ignored | reset | connected | accepted | finAcked | finBoth | done => rfl

theorem Linked.deliver (h : Linked strict idx l) (hrsp : ∀ r, strict r → r = .responder) {f : Flight} (hf : f ∈ l.net)
    (elapsed : Elapsed) (htime : ∀ r, (l.ends r).sent.length ≤ f.marks r + 64)
    (hcand : strict f.target.other → f.packet.header.isSynAck = true → (l.ends f.target).conn.state = .established →
      min 2 (l.ends f.target).sent.length ≤ (idx f.target.other).next) :
    ∃ idx', Linked strict idx' (l.deliver f.target f.packet elapsed) := by
  obtain ⟨d, packets, conn, -, hproc, hpoll, heq⟩ := deliver_cases l f.target f.packet elapsed
  obtain ⟨i, htold, hnext, hallowed, hloc⟩ :=
    (h.ends f.target).processed (hrsp _) (h.arrives hf htime hcand) hproc
  have hclr : Local f.target (strict f.target) i { l.ends f.target with conn := { d with events := [] } }
      (l.ends f.target.other) := hloc.relabel
  obtain ⟨told, htold', hloc', hstl, hdep⟩ :=
    hclr.poll (by rw [htold]; exact h.peer_le f.target) (h.quiet f.target) hpoll
  have hcfg := window_processed hproc
  have hwin := (window_poll hpoll).trans hcfg
  rw [heq]
  exact ⟨_, h.update (i := { i with told }) (r := f.target) hloc'.relabel hstl.relabel
    (.of_conn rfl rfl (congrArg windowSize hwin)) (htold ▸ htold') hnext (hallowed.told (h.told f.target))
    (fun hs => hallowed.honest hs (h.honest_other f.target hs)) (h.quiet f.target) fun p hp => (hdep p hp).relabel⟩

/-- The responder's packets do not acknowledge a chunk of the initiator that it has not received: it sends no chunks and
    closes only after it has received one, and its SYN-ACK does not come again before the first two are received. -/
def Candid (self : Link) : Event → Prop
  | .send role _ _ => role = .initiator
  | .close role => role = .initiator ∨ (self.ends role).accepted ≠ []
  | .deliver index _ => ∀ flight ∈ self.net[index]?, flight.target = .initiator → flight.packet.header.isSynAck = true →
    (self.ends .initiator).conn.state = .established →
      min 2 (self.ends .initiator).sent.length ≤ (self.ends .responder).accepted.length
  | _ => True

instance (l : Link) : (event : Event) → Decidable (l.Candid event) := fun e => by
  delta Candid
  induction e using Event.casesOn <;> infer_instance

theorem Local.length_accepted {strict : Prop} {i : Index} {e peer : Endpoint} (h : Local .responder strict i e peer) :
    e.accepted = peer.sent.take i.next ∧ e.accepted.length = i.next := by
  have heq : e.accepted = peer.sent.take i.next := h.accepted
  have hle : i.next ≤ peer.sent.length := by
    have := h.next_le
    rwa [Role.first, Nat.max_zero] at this
  exact ⟨heq, by rw [heq, length_take, min_eq_left hle]⟩

def strictIf (candid : Prop) (r : Role) : Prop := candid ∧ r = .responder

variable {candid : Prop} {event : Event} {l' : Link}

inductive Stepped (l : Link) : Event → Link → Prop
  | idle (event : Event) : Stepped l event l
  | send (r : Role) (data : Bytes) (elapsed : Elapsed) (l' : Link) : l.send r data elapsed = some l' →
    Stepped l (.send r data elapsed) l'
  | recv (r : Role) : Stepped l (.recv r) (l.recv r)
  | close (r : Role) : Stepped l (.close r) (l.close r)
  | reset (r : Role) : Stepped l (.reset r) (l.reset r)
  | poll (r : Role) (elapsed : Elapsed) : Stepped l (.poll r elapsed) (l.poll r elapsed)
  | deliver (index : Nat) (f : Flight) (elapsed : Elapsed) : l.net[index]? = some f →
    Stepped l (.deliver index elapsed) (l.deliver f.target f.packet elapsed)

theorem step_cases (h : l.step event = some l') : Stepped l event l' := by
  have hif : ∀ {live : Bool} {next : Link}, Stepped l event next → (if live then next else l) = l' → Stepped l event l' := by
    rintro live next hnext rfl
    cases live with
    | true => exact hnext
    | false => exact .idle event
  cases event with
  | send r data elapsed =>
    cases hlive : (l.ends r).live with
    | true => exact .send r data elapsed l' (by rwa [step, hlive] at h)
    | false =>
      rw [step, hlive] at h
      cases h
      exact .idle _
  | recv r => exact hif (.recv r) (Option.some.inj h)
  | close r => exact hif (.close r) (Option.some.inj h)
  | reset r => exact hif (.reset r) (Option.some.inj h)
  | poll r elapsed => exact hif (.poll r elapsed) (Option.some.inj h)
  | deliver index elapsed =>
    cases hf : l.net[index]? with
    | none =>
      rw [step, hf] at h
      cases h
      exact .idle _
    | some f =>
      rw [step, hf] at h
      exact hif (.deliver index f elapsed hf) (Option.some.inj h)

theorem Linked.step (h : Linked (strictIf candid) idx l) (htime : l.Timely event) (hcand : candid → l.Candid event)
    (hstep : l.step event = some l') : ∃ idx', Linked (strictIf candid) idx' l' := by
  cases step_cases hstep with
  | idle => exact ⟨idx, h⟩
  | send r data elapsed _ hsend =>
    refine h.send (fun hs => ?_) hsend
    obtain rfl := hcand hs.1
    exact nomatch hs.2
  | recv r => exact h.recv r
  | close r =>
    refine h.close r fun hs => ⟨?_, hs.2⟩
    rcases hcand hs.1 with hini | hne
    · exact nomatch hs.2.symm.trans hini
    · exact hne
  | reset r => exact h.reset r
  | poll r elapsed => exact h.poll r elapsed
  | deliver index f elapsed hf =>
    refine h.deliver (fun _ hs => hs.2) (mem_of_getElem? hf) elapsed (htime f hf) fun hs hsynAck hst => ?_
    have htgt : f.target = .initiator := by
      rw [← Role.other_other f.target, hs.2]
      rfl
    have hle := hcand hs.1 f hf htgt hsynAck (by rw [← htgt]; exact hst)
    rw [(Local.length_accepted (h.ends .responder)).2] at hle
    rw [htgt]
    exact hle

theorem linked_of_reaches {allow : Link → Event → Prop} (hallow : ∀ l event, allow l event → l.Timely event)
    (hcand : candid → ∀ l event, allow l event → l.Candid event) (h : Reaches step allow Opened l) :
    ∃ idx, Linked (strictIf candid) idx l := by
  refine h.invariant (P := fun l => ∃ idx, Linked (strictIf candid) idx l) (fun _ hopn => ⟨_, hopn.linked _⟩) ?_
  rintro s event t ⟨idx, hs⟩ hallowed hstep
  exact hs.step (hallow s event hallowed) (fun hc => hcand hc s event hallowed) hstep

end Link
end SaorsaTransport.Constrained
