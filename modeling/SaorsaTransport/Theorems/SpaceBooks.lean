import SaorsaTransport.Theorems.PathLedger

/-! Every packet that is sent leaves its space once: it is acknowledged, lost, or abandoned. The number of the MTU probe in
    flight is one of the data space, but it is compared with those of all spaces, and copied from path to path. -/

namespace SaorsaTransport
open Library List Function

namespace MtuDiscovery
variable (m : MtuDiscovery)

def Quiets (m m' : MtuDiscovery) : Prop := ∀ pn, m'.inFlightMtuProbe = some pn → m.inFlightMtuProbe = some pn

theorem Quiets.refl : m.Quiets m := fun _ h => h

theorem Quiets.of_none {m' : MtuDiscovery} (h : m'.inFlightMtuProbe = none) : m.Quiets m' := fun _ h' => by
  rw [h] at h'
  cases h'

theorem onProbeLost_probe : m.onProbeLost.inFlightMtuProbe = none := by
  obtain ⟨currentMtu, state, detector⟩ := m
  cases state with
  | none => rfl
  | some state =>
    obtain ⟨phase, peerMax, config⟩ := state
    cases phase <;> rfl

theorem onAcked_probe (space : SpaceId) (pn len : Nat) : m.Quiets (m.onAcked space pn len) ∧
    (space = .data → (m.onAcked space pn len).inFlightMtuProbe ≠ some pn) := by
  unfold onAcked
  split
  · next hspace => exact ⟨Quiets.refl m, fun h => absurd h hspace⟩
  obtain ⟨currentMtu, state, detector⟩ := m
  cases state with
  | none => exact ⟨fun _ h => (nomatch h), fun _ h => (nomatch h)⟩
  | some state =>
    obtain ⟨phase, peerMax, config⟩ := state
    cases phase with
    | initial | complete next => exact ⟨fun _ h => (nomatch h), fun _ h => (nomatch h)⟩
    | searching search =>
      unfold EnabledMtuDiscovery.onProbeAcked
      dsimp only
      by_cases hpn : search.inFlightProbe = some pn
      · rw [if_pos hpn]
        exact ⟨fun _ h => (nomatch h), fun _ h => (nomatch h)⟩
      rw [if_neg hpn]
      exact ⟨fun _ h => h, fun _ => hpn⟩

theorem blackHoleDetected_probe (now : Nat) : m.Quiets (m.blackHoleDetected now) := by
  unfold blackHoleDetected
  split
  split
  · refine Quiets.of_none m ?_
    cases m.state <;> rfl
  · exact Quiets.refl m

theorem reset_probe (currentMtu minMtu : Nat) : (m.reset currentMtu minMtu).inFlightMtuProbe = none := by
  unfold reset inFlightMtuProbe
  cases m.state <;> rfl

theorem new_probe (initialMtu minMtu : Nat) (peerMax : Option Nat) (config : MtuDiscoveryConfig) :
    (new initialMtu minMtu peerMax config).inFlightMtuProbe = none := by
  cases peerMax <;> rfl

theorem pollTransmit_probe (now nextPn : Nat) :
    ((m.pollTransmit now nextPn).2 = none → m.Quiets (m.pollTransmit now nextPn).1) ∧
      ∀ size, (m.pollTransmit now nextPn).2 = some size →
        (m.pollTransmit now nextPn).1.inFlightMtuProbe = some nextPn := by
  obtain ⟨currentMtu, state, detector⟩ := m
  cases state with
  | none => exact ⟨fun _ _ h => h, nofun⟩
  | some state =>
    have hactivate : ∀ pn, (state.activate now currentMtu).inFlightProbe = some pn → state.inFlightProbe = some pn := by
      intro pn hpn
      unfold EnabledMtuDiscovery.activate at hpn
      split at hpn
      · cases hpn
      · split at hpn
        · exact hpn
        · cases hpn
      · exact hpn
    have hpoll : (mk currentMtu (some state) detector).pollTransmit now nextPn =
        ({ currentMtu, state := some (state.pollTransmit now currentMtu nextPn).1, blackHoleDetector := detector },
          (state.pollTransmit now currentMtu nextPn).2) := rfl
    rw [hpoll]
    unfold EnabledMtuDiscovery.pollTransmit EnabledMtuDiscovery.search
    dsimp only
    split
    · next search hph =>
      split
      · exact ⟨fun _ pn hpn => hactivate pn hpn, nofun⟩
      split
      · exact ⟨nofun, fun _ _ => rfl⟩
      split
      · exact ⟨nofun, fun _ _ => rfl⟩
      · exact ⟨fun _ _ hpn => (nomatch hpn), nofun⟩
    · exact ⟨fun _ pn hpn => hactivate pn hpn, nofun⟩

end MtuDiscovery

theorem Pending.merge_empty (p : Pending) : p.merge .empty = p := by
  simp [Pending.merge, Pending.empty, Retransmits.merge, Retransmits.empty]

namespace Recovery

def Connection.probe (c : Connection) : Option Nat := c.path.mtud.inFlightMtuProbe

variable {c c' d : Connection} {space : SpaceId} {gone gone' queued queued' : List (Nat × SentPacket)}

def requeued (lost : List (Nat × SentPacket)) (pending : Pending) : Pending :=
  lost.foldl (fun pending e => pending.merge e.2.retransmits) pending

structure Departs (space : SpaceId) (gone queued : List (Nat × SentPacket)) (c c' : Connection) : Prop where
  others : ∀ s, s ≠ space → c'.spaces s = c.spaces s
  sent : (c'.spaces space).sentPackets.entries =
    (c.spaces space).sentPackets.entries.filter fun e => gone.all fun x => decide (x.1 ≠ e.1)
  next : (c'.spaces space).nextPacketNumber = (c.spaces space).nextPacketNumber
  largest : (c'.spaces space).largestAckedPacket = (c.spaces space).largestAckedPacket
  pending : (c'.spaces space).pending = requeued queued (c.spaces space).pending
  retransmitted : c'.retransmitted = c.retransmitted ++ queued.flatMap (·.2.streamFrames)
  established : c'.established = c.established
  prevMtud : c'.prevPath.map (·.mtud) = c.prevPath.map (·.mtud)
  probe : ∀ pn, c'.probe = some pn → c.probe = some pn ∧ (space = .data → ∀ e ∈ gone, e.1 ≠ pn)

namespace Departs

theorem mem (h : Departs space gone queued c c') {e : Nat × SentPacket} :
    e ∈ (c'.spaces space).sentPackets ↔ e ∈ (c.spaces space).sentPackets ∧ ∀ x ∈ gone, x.1 ≠ e.1 := by
  rw [BTreeMap.mem_def, h.sent, mem_filter, BTreeMap.mem_def]
  simp

theorem trans (h : Departs space gone queued c c') (h' : Departs space gone' queued' c' d) :
    Departs space (gone ++ gone') (queued ++ queued') c d where
  others s hs := (h'.others s hs).trans (h.others s hs)
  sent := by
    rw [h'.sent, h.sent, filter_filter]
    refine filter_congr fun e _ => ?_
    rw [all_append, Bool.and_comm]
  next := h'.next.trans h.next
  largest := h'.largest.trans h.largest
  pending := by
    rw [h'.pending, h.pending]
    exact foldl_append.symm
  retransmitted := by rw [h'.retransmitted, h.retransmitted, flatMap_append, append_assoc]
  established := h'.established.trans h.established
  prevMtud := h'.prevMtud.trans h.prevMtud
  probe pn hpn := by
    obtain ⟨hpn', hgone'⟩ := h'.probe pn hpn
    obtain ⟨hpn, hgone⟩ := h.probe pn hpn'
    refine ⟨hpn, fun hspace e he => ?_⟩
    rcases mem_append.mp he with he | he
    · exact hgone hspace e he
    · exact hgone' hspace e he

theorem stay {lossTime : Option Nat} (hsp : d.spaces = update c.spaces space { c.spaces space with lossTime })
    (hretx : d.retransmitted = c.retransmitted) (hest : d.established = c.established)
    (hprev : d.prevPath.map (·.mtud) = c.prevPath.map (·.mtud)) (hprb : c.path.mtud.Quiets d.path.mtud) :
    Departs space [] [] c d := by
  have hself : d.spaces space = { c.spaces space with lossTime } := by rw [hsp, update_self]
  refine ⟨fun s hs => by rw [hsp, update_of_ne hs], ?_, by rw [hself], by rw [hself], by rw [hself]; rfl,
    by rw [hretx, flatMap_nil, append_nil], hest, hprev, fun pn hpn => ⟨hprb pn hpn, nofun⟩⟩
  rw [hself]
  exact (filter_eq_self.mpr fun _ _ => rfl).symm

theorem refl (space : SpaceId) (c : Connection) : Departs space [] [] c c :=
  .stay (update_eq_self _ _).symm rfl rfl rfl (MtuDiscovery.Quiets.refl _)

theorem single {value : PacketSpace} {pn : Nat} (packet : SentPacket) (hsp : d.spaces = update c.spaces space value)
    (hsent : value.sentPackets = (c.spaces space).sentPackets.remove pn)
    (hnext : value.nextPacketNumber = (c.spaces space).nextPacketNumber)
    (hmax : value.largestAckedPacket = (c.spaces space).largestAckedPacket)
    (hpend : value.pending = requeued queued (c.spaces space).pending)
    (hretx : d.retransmitted = c.retransmitted ++ queued.flatMap (·.2.streamFrames))
    (hest : d.established = c.established) (hprev : d.prevPath.map (·.mtud) = c.prevPath.map (·.mtud))
    (hprb : c.path.mtud.Quiets d.path.mtud) (hpn : space = .data → d.probe ≠ some pn) :
    Departs space [(pn, packet)] queued c d := by
  have hself : d.spaces space = value := by rw [hsp, update_self]
  refine ⟨fun s hs => by rw [hsp, update_of_ne hs], ?_, by rw [hself, hnext], by rw [hself, hmax],
    by rw [hself, hpend], hretx, hest, hprev, fun n hn => ⟨hprb n hn, fun hspace e he => ?_⟩⟩
  · rw [hself, hsent]
    refine filter_congr fun e _ => ?_
    simp [eq_comm]
  · obtain rfl := mem_singleton.mp he
    rintro rfl
    exact hpn hspace hn

theorem congr (h : Departs space gone queued c d) (hgone : ∀ k, (∀ x ∈ gone, x.1 ≠ k) ↔ ∀ x ∈ gone', x.1 ≠ k)
    (hque : ∀ pending, requeued queued pending = requeued queued' pending)
    (hfr : queued.flatMap (·.2.streamFrames) = queued'.flatMap (·.2.streamFrames)) :
    Departs space gone' queued' c d where
  __ := h
  sent := by
    rw [h.sent]
    refine filter_congr fun e _ => ?_
    rw [Bool.eq_iff_iff]
    simpa using hgone e.1
  pending := h.pending.trans (hque _)
  retransmitted := by rw [h.retransmitted, hfr]
  probe pn hpn := ⟨(h.probe pn hpn).1, fun hspace => (hgone pn).mp ((h.probe pn hpn).2 hspace)⟩

theorem blackHole (h : Departs space gone queued c d) (now : Nat) :
    Departs space gone queued c (d.setMtud (d.path.mtud.blackHoleDetected now)) := by
  have hstay : Departs space [] [] d (d.setMtud (d.path.mtud.blackHoleDetected now)) :=
    .stay (update_eq_self _ _).symm rfl rfl rfl (d.path.mtud.blackHoleDetected_probe now)
  have hboth := h.trans hstay
  rwa [append_nil, append_nil] at hboth

end Departs

structure Taken (value : PacketSpace) (pn : Nat) (packet : SentPacket) (r : PacketSpace × Option SentPacket) : Prop where
  packet : r.2 = some packet
  sent : r.1.sentPackets = value.sentPackets.remove pn
  next : r.1.nextPacketNumber = value.nextPacketNumber
  largest : r.1.largestAckedPacket = value.largestAckedPacket
  pending : r.1.pending = value.pending

abbrev Yields {α : Type} (P : α → Prop) (x : Except Panic α) : Prop := Holds P (fun _ => True) x

variable {pn : Nat} {packet : SentPacket}

theorem take_taken {value : PacketSpace} (hmem : (pn, packet) ∈ value.sentPackets) :
    Yields (Taken value pn packet) (value.take pn) := by
  unfold PacketSpace.take
  rw [BTreeMap.get_eq_some.mpr hmem]
  dsimp only
  cases checkedSub value.inFlight packet.size with
  | none => trivial
  | some inFlight => exact ⟨rfl, rfl, rfl, rfl, rfl⟩

theorem ackPacket_departs (hmem : (pn, packet) ∈ (c.spaces space).sentPackets) :
    Yields (Departs space [(pn, packet)] [] c) (Connection.ackPacket space c pn) := by
  refine (take_taken hmem).bind fun r hr => ?_
  obtain ⟨value, info⟩ := r
  obtain rfl := hr.packet
  have hack := c.path.mtud.onAcked_probe space pn packet.size
  refine (removeInFlight_same _ pn packet).imp fun d hd => ?_
  refine .single packet hd.spaces hr.sent hr.next hr.largest hr.pending ?_ hd.established hd.prevMtud ?_ ?_
  · rw [hd.retransmitted, flatMap_nil, append_nil]
    rfl
  · rw [hd.mtud]
    exact hack.1
  · unfold Connection.probe
    rw [hd.mtud]
    exact hack.2

theorem losePacket_departs (hmem : (pn, packet) ∈ (c.spaces space).sentPackets) (hprb : space = .data → c.probe ≠ some pn) :
    Yields (Departs space [(pn, packet)] [(pn, packet)] c) (Connection.losePacket space c pn) := by
  refine (take_taken hmem).bind fun r hr => ?_
  obtain ⟨value, info⟩ := r
  obtain rfl := hr.packet
  refine (removeInFlight_same _ pn packet).bind fun d hd => ?_
  have hself : d.spaces space = value := by
    rw [hd.spaces]
    exact setSpace_self c space value
  have hupdate : ∀ a, update d.spaces space a = update c.spaces space a := fun a => by
    rw [hd.spaces]
    exact update_idem _ _ _
  refine Departs.single packet (hupdate _) ?_ ?_ ?_ ?_ ?_ hd.established hd.prevMtud ?_ ?_
  · rw [hself, hr.sent]
  · rw [hself, hr.next]
  · rw [hself, hr.largest]
  · rw [hself, hr.pending]
    rfl
  · rw [flatMap_singleton]
    exact congrArg (· ++ packet.streamFrames) hd.retransmitted
  · intro n hn
    have hn : d.path.mtud.inFlightMtuProbe = some n := hn
    rw [hd.mtud] at hn
    exact hn
  · intro hspace hn
    have hn : d.path.mtud.inFlightMtuProbe = some pn := hn
    rw [hd.mtud] at hn
    exact hprb hspace hn

theorem loseProbe_departs (hmem : (pn, packet) ∈ (c.spaces .data).sentPackets) :
    Yields (Departs .data [(pn, packet)] [] c) (c.loseProbe pn) := by
  refine (take_taken hmem).bind fun r hr => ?_
  obtain ⟨value, info⟩ := r
  obtain rfl := hr.packet
  refine (removeInFlight_same _ pn packet).bind fun d hd => ?_
  have hnone := d.path.mtud.onProbeLost_probe
  refine Departs.single packet hd.spaces hr.sent hr.next hr.largest hr.pending ?_ hd.established hd.prevMtud
    (MtuDiscovery.Quiets.of_none _ hnone) fun _ hn => nomatch hnone.symm.trans hn
  rw [flatMap_nil, append_nil]
  exact hd.retransmitted

theorem Departs.forEach {f : Connection → Nat → Except Panic Connection} {q : Nat × SentPacket → List (Nat × SentPacket)}
    {P : Connection → Nat × SentPacket → Prop}
    (hP : ∀ c d gone queued e, Departs space gone queued c d → P c e → P d e)
    (hf : ∀ c e, e ∈ (c.spaces space).sentPackets → P c e → Yields (Departs space [e] (q e) c) (f c e.1)) :
    ∀ (es : List (Nat × SentPacket)) {c : Connection}, (∀ e ∈ es, e ∈ (c.spaces space).sentPackets ∧ P c e) →
      es.Pairwise (·.1 < ·.1) → Yields (Departs space es (es.flatMap q) c) (Library.forEach f c (es.map Prod.fst))
  | [], c, _, _ => Departs.refl space c
  | e :: es, c, hes, hsort => by
    obtain ⟨hlt, hsort⟩ := pairwise_cons.mp hsort
    refine (hf c e (hes e mem_cons_self).1 (hes e mem_cons_self).2).bind fun d hd => ?_
    have hleft : ∀ x ∈ es, x ∈ (d.spaces space).sentPackets ∧ P d x := fun x hx => by
      obtain ⟨hmem, hx'⟩ := hes x (mem_cons_of_mem _ hx)
      refine ⟨hd.mem.mpr ⟨hmem, fun y hy => ?_⟩, hP _ _ _ _ x hd hx'⟩
      obtain rfl := mem_singleton.mp hy
      exact (hlt x hx).ne
    exact (Departs.forEach hP hf es hleft hsort).imp fun d' hd' => hd.trans hd'

theorem ackPackets_departs {es : List (Nat × SentPacket)} (hes : ∀ e ∈ es, e ∈ (c.spaces space).sentPackets)
    (hsort : es.Pairwise (·.1 < ·.1)) :
    Yields (Departs space es [] c) (Library.forEach (Connection.ackPacket space) c (es.map Prod.fst)) := by
  have hall := Departs.forEach (q := fun _ => []) (P := fun _ _ => True) (fun _ _ _ _ _ _ h => h)
    (fun c e hmem _ => ackPacket_departs hmem) es (fun e he => ⟨hes e he, trivial⟩) hsort
  rwa [flatMap_eq_nil_iff.mpr fun _ _ => rfl] at hall

theorem losePackets_departs {es : List (Nat × SentPacket)}
    (hes : ∀ e ∈ es, e ∈ (c.spaces space).sentPackets ∧ (space = .data → c.probe ≠ some e.1))
    (hsort : es.Pairwise (·.1 < ·.1)) :
    Yields (Departs space es es c) (Library.forEach (Connection.losePacket space) c (es.map Prod.fst)) := by
  have hall := Departs.forEach (q := fun e => [e]) (P := fun c e => space = .data → c.probe ≠ some e.1)
    (fun _ _ _ _ _ hd hP hspace hpn => hP hspace (hd.probe _ hpn).1)
    (fun c e hmem hP => losePacket_departs hmem hP) es hes hsort
  simpa using hall

theorem requeued_filter {p : Nat × SentPacket → Bool} : ∀ {lost : List (Nat × SentPacket)},
    (∀ e ∈ lost, p e = false → e.2.retransmits = .empty) → ∀ pending,
      requeued (lost.filter p) pending = requeued lost pending := by
  intro lost h pending
  unfold requeued
  rw [foldl_filter]
  refine foldl_ext _ _ _ fun pending e he => ?_
  cases hp : p e with
  | true => rfl
  | false => rw [h e he hp, Pending.merge_empty, if_neg nofun]

theorem flatMap_filter {p : Nat × SentPacket → Bool} : ∀ {lost : List (Nat × SentPacket)},
    (∀ e ∈ lost, p e = false → e.2.streamFrames = []) →
      (lost.filter p).flatMap (·.2.streamFrames) = lost.flatMap (·.2.streamFrames)
  | [], _ => rfl
  | e :: lost, h => by
    have ih := flatMap_filter (p := p) fun x hx => h x (mem_cons_of_mem e hx)
    cases hp : p e with
    | true => rw [filter_cons_of_pos hp, flatMap_cons, flatMap_cons, ih]
    | false => rw [filter_cons_of_neg (by simp [hp]), flatMap_cons, h e mem_cons_self hp, ih, nil_append]

/-- Detection in a space is fit for the MTU probe in flight: the probe has nothing to retransmit, and no packet of a space
    other than the data space is taken for it. -/
structure Apart (c : Connection) (space : SpaceId) : Prop where
  data : space = .data → ∀ pn packet, c.probe = some pn → (pn, packet) ∈ (c.spaces .data).sentPackets →
    packet.retransmits = .empty ∧ packet.streamFrames = []
  other : space ≠ .data → ∀ pn packet, c.probe = some pn → (pn, packet) ∉ (c.spaces space).sentPackets

theorem Departs.loseProbe {lost : List (Nat × SentPacket)} (h : Apart c space)
    (hlost : ∀ e ∈ lost, e ∈ (c.spaces space).sentPackets)
    (hd : Departs space (lost.filter fun e => some e.1 != c.probe) (lost.filter fun e => some e.1 != c.probe) c d) :
    Yields (Departs space lost lost c) (match (lost.map Prod.fst).find? fun pn => some pn == c.probe with
      | some pn => d.loseProbe pn
      | none => .ok d) := by
  cases hfind : (lost.map Prod.fst).find? fun pn => some pn == c.probe with
  | none =>
    have hall : lost.filter (fun e => some e.1 != c.probe) = lost := filter_eq_self.mpr fun e he => by
      have := find?_eq_none.mp hfind e.1 (mem_map_of_mem he)
      simpa using this
    rwa [hall] at hd
  | some pn =>
    have hbeq := find?_some hfind
    have hprb := (beq_iff_eq.mp hbeq).symm
    obtain ⟨e, he, rfl⟩ := mem_map.mp (mem_of_find?_eq_some hfind)
    have hspace : space = .data := by
      by_contra hne
      exact h.other hne e.1 e.2 hprb (hlost e he)
    subst hspace
    -- Whatever is not lost with the others is the probe, which has nothing to retransmit.
    have hplain : ∀ x ∈ lost, (some x.1 != c.probe) = false → x.2.retransmits = .empty ∧ x.2.streamFrames = [] := by
      intro x hx hne
      have heq : some x.1 = c.probe := by simpa using hne
      exact h.data rfl x.1 x.2 heq.symm (hlost x hx)
    have hmem : (e.1, e.2) ∈ (d.spaces .data).sentPackets := hd.mem.mpr ⟨hlost e he, fun x hx heq => by
      have hne := (mem_filter.mp hx).2
      simp [hprb, heq] at hne⟩
    refine (loseProbe_departs hmem).imp fun d' hd' => (hd.trans hd').congr (fun k => ?_) (fun pending => ?_) ?_
    · constructor
      · intro hk x hx
        by_cases hxe : some x.1 = c.probe
        · have hxe : x.1 = e.1 := Option.some.inj (hxe.trans hprb)
          rw [hxe]
          exact hk e (mem_append_right _ (mem_singleton_self _))
        · exact hk x (mem_append_left _ (mem_filter.mpr ⟨hx, by simpa using hxe⟩))
      · intro hk x hx
        rcases mem_append.mp hx with hx | hx
        · exact hk x (mem_filter.mp hx).1
        obtain rfl := mem_singleton.mp hx
        exact hk e he
    · rw [append_nil]
      exact requeued_filter (fun x hx hne => (hplain x hx hne).1) pending
    · rw [append_nil]
      exact flatMap_filter fun x hx hne => (hplain x hx hne).2

theorem detectLostPackets_departs (config : PathConfig) (now lossDelay : Nat) (h : Apart c space) :
    Yields (fun d => ∃ largest, (c.spaces space).largestAckedPacket = some largest ∧
      Departs space (c.overdue config space (now - lossDelay) largest) (c.overdue config space (now - lossDelay) largest) c d)
      (c.detectLostPackets config space now lossDelay) := by
  have hsub : Yields (fun lost => lost = now - lossDelay) (orPanic .unwrap (checkedSub now lossDelay)) := by
    cases hlost : checkedSub now lossDelay with
    | none => trivial
    | some lost =>
      have := checkedSub_eq_some.mp hlost
      exact (by omega : lost = now - lossDelay)
  have hmax : Yields (fun largest => (c.spaces space).largestAckedPacket = some largest)
      (orPanic .unwrap (c.spaces space).largestAckedPacket) := by
    cases (c.spaces space).largestAckedPacket with
    | none => trivial
    | some largest => rfl
  refine hsub.bind fun lostSendTime hlost => hmax.bind fun largest hmax => ?_
  subst hlost
  have hmem : ∀ e ∈ c.overdue config space (now - lossDelay) largest, e ∈ (c.spaces space).sentPackets := fun e he =>
    (mem_filter.mp he).1
  have hsort : (c.overdue config space (now - lossDelay) largest).Pairwise (·.1 < ·.1) :=
    (c.spaces space).sentPackets.sorted.filter _
  generalize hover : c.overdue config space (now - lossDelay) largest = lost at hmem hsort ⊢
  generalize c.nextLossTime config space (now - lossDelay) largest lossDelay = lossTime
  have hsta : Departs space [] [] c (c.setSpace space { c.spaces space with lossTime }) :=
    .stay rfl rfl rfl rfl (MtuDiscovery.Quiets.refl _)
  have hfil : (lost.map Prod.fst).filter (fun pn => some pn != c.path.mtud.inFlightMtuProbe) =
      (lost.filter fun e => some e.1 != c.probe).map Prod.fst := by
    rw [filter_map]
    rfl
  dsimp only
  rw [hfil]
  refine (losePackets_departs (fun e he => ?_) (hsort.filter _)).bind fun d hd => ?_
  · obtain ⟨he, hne⟩ := mem_filter.mp he
    exact ⟨hsta.mem.mpr ⟨hmem e he, nofun⟩, fun _ heq => by
      have heq : c.probe = some e.1 := heq
      simp [heq] at hne⟩
  · have hd := hsta.trans hd
    have hd' : Departs space (lost.filter fun e => some e.1 != c.probe) (lost.filter fun e => some e.1 != c.probe) c
        (if ((lost.filter fun e => some e.1 != c.probe).map Prod.fst).isEmpty = true then d
        else d.setMtud (d.path.mtud.blackHoleDetected now)) := by
      split
      · exact hd
      · exact hd.blackHole now
    exact (Departs.loseProbe h hmem hd').imp fun _ hd'' => ⟨largest, hmax, hover ▸ hd''⟩

/-! The books of a packet number space: its bytes in flight, and its count of packets without an acknowledgment to
    come. -/

open BTreeMap

namespace PacketSpace

def outstandingBytes (self : PacketSpace) : Nat := self.sentPackets.total fun e => e.2.size

def after (last : Option Nat) (number : Nat) : Bool := last.all fun n => n < number

def sentAfter (self : PacketSpace) (last : Option Nat) : Nat := self.sentPackets.total fun e => (after last e.1).toNat

/-- The books of a space are exact, where `last` is the last ACK-eliciting packet that was sent. -/
structure Exact (last : Option Nat) (v : PacketSpace) : Prop where
  inFlight : v.inFlight = v.outstandingBytes
  tail : v.unackedNonAckElicitingTail = v.sentAfter last
  behind : ∀ e ∈ v.sentPackets, after last e.1 = true ↔ v.largestAckElicitingSent < e.1
  quiet : ∀ e ∈ v.sentPackets, v.largestAckElicitingSent < e.1 → e.2.ackEliciting = false
  below : ∀ e ∈ v.sentPackets, e.1 < v.nextPacketNumber
  lastBelow : ∀ n ∈ last, n < v.nextPacketNumber
  largest : v.largestAckElicitingSent = 0 ∨ v.largestAckElicitingSent < v.nextPacketNumber

variable {last : Option Nat} {v v' : PacketSpace} {e : Nat × SentPacket} {number : Nat} {packet : SentPacket}

theorem Exact.empty (hsent : v.sentPackets = .empty) (hin : v.inFlight = 0) (htail : v.unackedNonAckElicitingTail = 0)
    (hlast : ∀ n ∈ last, n < v.nextPacketNumber)
    (hmax : v.largestAckElicitingSent = 0 ∨ v.largestAckElicitingSent < v.nextPacketNumber) : Exact last v where
  inFlight := by rw [hin, outstandingBytes, hsent, total_empty]
  tail := by rw [htail, sentAfter, hsent, total_empty]
  behind e he := absurd (hsent ▸ he) (not_mem_empty e)
  quiet e he := absurd (hsent ▸ he) (not_mem_empty e)
  below e he := absurd (hsent ▸ he) (not_mem_empty e)
  lastBelow := hlast
  largest := hmax

section
variable (h : Exact last v)
include h

theorem Exact.same (hsent : v'.sentPackets = v.sentPackets) (hin : v'.inFlight = v.inFlight)
    (htail : v'.unackedNonAckElicitingTail = v.unackedNonAckElicitingTail)
    (hmax : v'.largestAckElicitingSent = v.largestAckElicitingSent)
    (hnext : v.nextPacketNumber ≤ v'.nextPacketNumber) : Exact last v' where
  inFlight := by rw [hin, outstandingBytes, hsent, h.inFlight, outstandingBytes]
  tail := by rw [htail, sentAfter, hsent, h.tail, sentAfter]
  behind e he := by rw [hmax, h.behind e (hsent ▸ he)]
  quiet e he hlt := h.quiet e (hsent ▸ he) (hmax ▸ hlt)
  below e he := (h.below e (hsent ▸ he)).trans_le hnext
  lastBelow n hn := (h.lastBelow n hn).trans_le hnext
  largest := by rw [hmax]; exact h.largest.imp_right fun hlt => hlt.trans_le hnext

theorem Exact.checkedSub (he : e ∈ v.sentPackets) :
    ∃ inFlight, Library.checkedSub v.inFlight e.2.size = some inFlight ∧ v.inFlight = e.2.size + inFlight := by
  have htot := total_remove (w := fun e => e.2.size) he
  have heq := h.inFlight.trans htot
  exact ⟨_, checkedSub_eq_some.mpr heq, heq⟩

theorem Exact.remove (he : e ∈ v.sentPackets) {inFlight tail : Nat} (hin : v.inFlight = e.2.size + inFlight)
    (htail : v.unackedNonAckElicitingTail = (decide (v.largestAckElicitingSent < e.1)).toNat + tail) :
    Exact last { v with
      sentPackets := v.sentPackets.remove e.1, inFlight, unackedNonAckElicitingTail := tail } where
  inFlight := by
    have htot : v.outstandingBytes = e.2.size + (v.sentPackets.remove e.1).total fun e => e.2.size :=
      total_remove he
    exact Nat.add_left_cancel (hin.symm.trans (h.inFlight.trans htot))
  tail := by
    have htot : v.sentAfter last = (after last e.1).toNat + (v.sentPackets.remove e.1).total fun e =>
        (after last e.1).toNat := total_remove he
    have haft : after last e.1 = decide (v.largestAckElicitingSent < e.1) := by
      rw [Bool.eq_iff_iff, h.behind e he, decide_eq_true_eq]
    rw [haft] at htot
    exact Nat.add_left_cancel (htail.symm.trans (h.tail.trans htot))
  behind e' he' := h.behind e' (mem_remove.mp he').2
  quiet e' he' := h.quiet e' (mem_remove.mp he').2
  below e' he' := h.below e' (mem_remove.mp he').2
  lastBelow := h.lastBelow
  largest := h.largest

theorem Exact.tail_pos (he : e ∈ v.sentPackets)
    (hlt : v.largestAckElicitingSent < e.1) : 0 < v.unackedNonAckElicitingTail := by
  have hle : (after last e.1).toNat ≤ v.sentAfter last := le_total (w := fun e => (after last e.1).toNat) he
  rw [(h.behind e he).mpr hlt] at hle
  exact h.tail ▸ hle

theorem Exact.take (number : Nat) : ∃ r, v.take number = .ok r ∧ Exact last r.1 := by
  unfold PacketSpace.take
  cases hget : v.sentPackets.get number with
  | none => exact ⟨_, rfl, h⟩
  | some packet =>
    have hmem := get_eq_some.mp hget
    obtain ⟨inFlight, hsub, hin⟩ := h.checkedSub hmem
    simp only [hsub]
    refine ⟨_, rfl, h.remove hmem hin ?_⟩
    -- Behind the last ACK-eliciting packet there are no ACK-eliciting ones.
    by_cases hlt : v.largestAckElicitingSent < number
    · rw [if_pos ⟨by rw [h.quiet _ hmem hlt]; rfl, hlt⟩, decide_eq_true hlt, Bool.toNat_true]
      exact (Nat.add_sub_cancel' (h.tail_pos hmem hlt)).symm
    · rw [if_neg fun hc => hlt hc.2, decide_eq_false hlt, Bool.toNat_false, zero_add]

end

theorem forget_eq {inFlight : Nat} (hfst : v.sentPackets.firstGT v.largestAckElicitingSent = some e)
    (hsub : Library.checkedSub v.inFlight e.2.size = some inFlight) :
    v.forget = .ok ({ v with sentPackets := v.sentPackets.remove e.1, inFlight }, e.2.size) := by
  unfold PacketSpace.forget
  simp only [hfst, hsub]
  rfl

theorem Exact.oldest (h : Exact last v) (hpos : 0 < v.unackedNonAckElicitingTail) :
    ∃ (e : Nat × SentPacket) (inFlight : Nat), v.sentPackets.firstGT v.largestAckElicitingSent = some e ∧
      Library.checkedSub v.inFlight e.2.size = some inFlight ∧
      Exact last { v with
        sentPackets := v.sentPackets.remove e.1, inFlight
        unackedNonAckElicitingTail := v.unackedNonAckElicitingTail - 1 } := by
  cases hfst : v.sentPackets.firstGT v.largestAckElicitingSent with
  | none =>
    have hzero : v.sentAfter last = 0 := total_eq_zero fun e he => by
      have hle := firstGT_eq_none hfst e he
      have hnot : ¬after last e.1 = true := fun haft => not_lt.mpr hle ((h.behind e he).mp haft)
      rw [Bool.eq_false_iff.mpr hnot, Bool.toNat_false]
    exact absurd (h.tail.trans hzero) hpos.ne'
  | some e =>
    obtain ⟨hmem, hlt, -⟩ := firstGT_eq_some hfst
    obtain ⟨inFlight, hsub, hin⟩ := h.checkedSub hmem
    refine ⟨e, inFlight, rfl, hsub, h.remove hmem hin ?_⟩
    rw [decide_eq_true hlt, Bool.toNat_true]
    exact (Nat.add_sub_cancel' hpos).symm

section
variable (h : Exact last v)
include h

theorem Exact.track (hnext : v.nextPacketNumber ≤ number) (hack : packet.ackEliciting = false) (hpos : 0 < number) :
    Exact last ({ v with
      nextPacketNumber := number + 1
      unackedNonAckElicitingTail := v.unackedNonAckElicitingTail + 1 }.track number packet) := by
  have hnew : ∀ e ∈ v.sentPackets, e.1 ≠ number := fun e he => ((h.below e he).trans_le hnext).ne
  have hmax : v.largestAckElicitingSent < number := by
    rcases h.largest with hzero | hlt
    · exact hzero ▸ hpos
    · exact hlt.trans_le hnext
  have haft : after last number = true := by
    unfold after
    rw [Option.all_eq_true]
    exact fun n hn => decide_eq_true ((h.lastBelow n hn).trans_le hnext)
  refine ⟨?_, ?_, ?_, ?_, ?_, ?_, ?_⟩
  · show v.inFlight + packet.size = (v.sentPackets.insert number packet).total fun e => e.2.size
    rw [total_insert hnew, h.inFlight, outstandingBytes, add_comm]
  · show v.unackedNonAckElicitingTail + 1 = (v.sentPackets.insert number packet).total fun e => (after last e.1).toNat
    rw [total_insert hnew, haft, h.tail, sentAfter, Bool.toNat_true, add_comm]
  · intro e he
    rcases mem_insert.mp he with rfl | ⟨-, he⟩
    · exact iff_of_true haft hmax
    · exact h.behind e he
  · intro e he
    rcases mem_insert.mp he with rfl | ⟨-, he⟩
    · exact fun _ => hack
    · exact h.quiet e he
  · intro e he
    rcases mem_insert.mp he with rfl | ⟨-, he⟩
    · exact lt_add_one _
    · exact ((h.below e he).trans_le hnext).trans (lt_add_one _)
  · exact fun n hn => ((h.lastBelow n hn).trans_le hnext).trans (lt_add_one _)
  · exact .inr (hmax.trans (lt_add_one _))

theorem Exact.trackEliciting (packet : SentPacket) (hnext : v.nextPacketNumber ≤ number) :
    Exact (some number) ({ v with
      nextPacketNumber := number + 1
      unackedNonAckElicitingTail := 0
      largestAckElicitingSent := number }.track number packet) := by
  have hlt : ∀ e ∈ v.sentPackets, e.1 < number := fun e he => (h.below e he).trans_le hnext
  have hnew : ∀ e ∈ v.sentPackets, e.1 ≠ number := fun e he => (hlt e he).ne
  have hnone : ∀ e ∈ v.sentPackets.insert number packet, ¬number < e.1 := by
    intro e he
    rcases mem_insert.mp he with rfl | ⟨-, he⟩
    · exact lt_irrefl _
    · exact lt_asymm (hlt e he)
  refine ⟨?_, ?_, ?_, ?_, ?_, ?_, ?_⟩
  · show v.inFlight + packet.size = (v.sentPackets.insert number packet).total fun e => e.2.size
    rw [total_insert hnew, h.inFlight, outstandingBytes, add_comm]
  · refine (total_eq_zero fun e he => ?_).symm
    rw [after, Option.all_some, decide_eq_false (hnone e he), Bool.toNat_false]
  · exact fun e _ => by rw [after, Option.all_some, decide_eq_true_eq]; rfl
  · exact fun e he hgt => absurd hgt (hnone e he)
  · intro e he
    rcases mem_insert.mp he with rfl | ⟨-, he⟩
    · exact lt_add_one _
    · exact (hlt e he).trans (lt_add_one _)
  · rintro n hn
    cases hn
    exact lt_add_one _
  · exact .inr (lt_add_one _)

theorem Exact.sent (hnext : v.nextPacketNumber ≤ number) (hpos : packet.ackEliciting = true ∨ 0 < number) :
    ∃ r, { v with nextPacketNumber := number + 1 }.sent number packet = .ok r ∧
      Exact (if packet.ackEliciting then some number else last) r.1 := by
  unfold PacketSpace.sent
  cases hack : packet.ackEliciting with
  | true => exact ⟨_, rfl, h.trackEliciting packet hnext⟩
  | false =>
    have hpos : 0 < number := hpos.resolve_left (by rw [hack]; exact Bool.false_ne_true)
    simp only [Bool.false_eq_true, ↓reduceIte]
    split
    · next hfull =>
      have hpositive := Nat.zero_lt_of_lt hfull
      obtain ⟨e, inFlight, hfst, hsub, hexact⟩ := h.oldest hpositive
      rw [forget_eq (v := { v with nextPacketNumber := number + 1 }) hfst hsub]
      have htrk := hexact.track hnext hack hpos
      simp only [Nat.sub_add_cancel hpositive] at htrk
      exact ⟨_, rfl, htrk⟩
    · exact ⟨_, rfl, h.track hnext hack hpos⟩

theorem Exact.sent_ok (number : Nat) (packet : SentPacket) : ∃ r, v.sent number packet = .ok r := by
  unfold PacketSpace.sent
  split
  · exact ⟨_, rfl⟩
  split
  · next hfull =>
    obtain ⟨e, inFlight, hfst, hsub, -⟩ := h.oldest (Nat.zero_lt_of_lt hfull)
    rw [forget_eq hfst hsub]
    exact ⟨_, rfl⟩
  · exact ⟨_, rfl⟩

theorem Exact.replace (packet' : SentPacket) (hmem : (number, packet) ∈ v.sentPackets) (hsize : packet'.size = packet.size)
    (hack : packet'.ackEliciting = packet.ackEliciting) (pending : Pending) :
    Exact last { v with pending, sentPackets := v.sentPackets.insert number packet' } := by
  have hkind : ∀ e ∈ v.sentPackets.insert number packet', ∃ e' ∈ v.sentPackets, e'.1 = e.1 ∧
      e'.2.ackEliciting = e.2.ackEliciting := by
    intro e he
    rcases mem_insert.mp he with rfl | ⟨-, he⟩
    · exact ⟨_, hmem, rfl, hack.symm⟩
    · exact ⟨e, he, rfl, rfl⟩
  refine ⟨?_, ?_, fun e he => ?_, fun e he => ?_, fun e he => ?_, h.lastBelow, h.largest⟩
  · have htot : (v.sentPackets.insert number packet').total (fun e => e.2.size) = v.outstandingBytes :=
      total_replace hmem hsize
    exact h.inFlight.trans htot.symm
  · have htot : (v.sentPackets.insert number packet').total (fun e => (after last e.1).toNat) = v.sentAfter last :=
      total_replace hmem rfl
    exact h.tail.trans htot.symm
  · obtain ⟨e', he', hnum, -⟩ := hkind e he
    exact hnum ▸ h.behind e' he'
  · obtain ⟨e', he', hnum, hsame⟩ := hkind e he
    exact fun hlt => hsame ▸ h.quiet e' he' (hnum ▸ hlt)
  · obtain ⟨e', he', hnum, -⟩ := hkind e he
    exact hnum ▸ h.below e' he'

end

end PacketSpace

def Books (last : SpaceId → Option Nat) (c : Connection) : Prop := ∀ space, (c.spaces space).Exact (last space)

variable {last : SpaceId → Option Nat} {c d : Connection} {space : SpaceId} {value : PacketSpace}

section
variable (h : Books last c)
include h

theorem Books.of_spaces (hsp : d.spaces = c.spaces) : Books last d := fun space =>
  hsp ▸ h space

theorem Books.setSpace (hvalue : value.Exact (last space)) :
    Books last (c.setSpace space value) := fun other => setSpace_cases other hvalue h

theorem Books.take (space : SpaceId) (pn : Nat) :
    Holds (fun r => Books last (c.setSpace space r.1)) (fun _ => True) ((c.spaces space).take pn) := by
  obtain ⟨r, hr, hexact⟩ := (h space).take pn
  rw [hr]
  exact h.setSpace hexact

theorem Books.removeInFlight (pn : Nat) (packet : SentPacket) :
    Holds (Books last) (fun _ => True) (c.removeInFlight pn packet) :=
  (removeInFlight_same c pn packet).imp fun _ hd => h.of_spaces hd.spaces

end

theorem Books.settles (last : SpaceId → Option Nat) : Settles (fun _ => Books last) (fun _ => True) where
  unwrap := trivial
  setSpace space _ _ _ h := h.setSpace ((h space).same rfl rfl rfl rfl le_rfl)
  setMtud _ h := h.of_spaces rfl
  retransmitted _ h := h.of_spaces rfl
  take space pn h := h.take space pn
  remove h := h.removeInFlight _ _

theorem Books.abandonAll (h : Books last c) (es : List (Nat × SentPacket)) :
    Holds (Books last) (fun _ => True) (Library.forEach Connection.abandon c es) :=
  (abandonAll_same es).imp fun _ hd => h.of_spaces hd.spaces

theorem Books.emptied (h : Books last c) (space : SpaceId) (value : PacketSpace) (hsent : value.sentPackets = .empty)
    (hin : value.inFlight = 0) (htail : value.unackedNonAckElicitingTail = 0)
    (hmax : value.largestAckElicitingSent = (c.spaces space).largestAckElicitingSent)
    (hnext : value.nextPacketNumber = (c.spaces space).nextPacketNumber) : Books last (c.setSpace space value) :=
  h.setSpace (.empty hsent hin htail (hnext ▸ (h space).lastBelow) (hmax ▸ hnext ▸ (h space).largest))

theorem Books.discardSpace (h : Books last c) (htail : (c.spaces space).unackedNonAckElicitingTail = 0) :
    Holds (Books last) (fun _ => True) (c.discardSpace space) :=
  (h.emptied space { c.spaces space with lossTime := none, inFlight := 0, sentPackets := .empty }
    rfl rfl htail rfl rfl).abandonAll _

/-- Nothing of the data space is in flight, and nothing of it waits for an acknowledgment that need not come. -/
def Quiet (c : Connection) : Prop :=
  (c.spaces .data).inFlight = 0 ∧ (c.spaces .data).unackedNonAckElicitingTail = 0

instance (c : Connection) : Decidable (Quiet c) := inferInstanceAs (Decidable (_ ∧ _))

section
variable (h : Books last c)
include h

theorem Books.rejectZeroRtt (hqt : Quiet c) : Holds (Books last) (fun _ => True) c.rejectZeroRtt :=
  (h.emptied .data { c.spaces .data with pending := .empty, sentPackets := .empty }
    rfl hqt.1 hqt.2 rfl rfl).abandonAll _

theorem Books.requeueZeroRtt (hqt : Quiet c) : Holds (Books last) (fun _ => True) c.requeueZeroRtt := by
  refine Holds.forEach (fun _ => Books last) (fun d e _ hd => ?_) _
    (h.emptied .data { c.spaces .data with sentPackets := .empty } rfl hqt.1 hqt.2 rfl rfl)
  refine (hd.removeInFlight e.1 e.2).bind fun d' hd' => ?_
  exact hd'.setSpace ((hd' .data).same rfl rfl rfl rfl le_rfl)

theorem Books.restartInitial (hoth : ∀ space, space ≠ .initial → d.spaces space = c.spaces space)
    (hnext : (d.spaces .initial).nextPacketNumber = (c.spaces .initial).nextPacketNumber) (clientHello : Bytes) :
    Books last (d.restartInitial clientHello) := by
  intro space
  unfold Connection.restartInitial
  by_cases hspace : space = .initial
  · subst hspace
    rw [setSpace_self]
    refine .empty rfl rfl rfl ?_ (.inl rfl)
    exact hnext ▸ (h .initial).lastBelow
  rw [setSpace_of_ne _ hspace, hoth space hspace]
  exact h space

theorem Books.inferAck (pn : Nat) :
    Holds (fun d => Books last d ∧ d.spaces .data = c.spaces .data) (fun _ => True) (c.inferAck .initial pn) := by
  refine (h.take .initial pn).bind fun r hr => ?_
  obtain ⟨value, info⟩ := r
  have hdata : (c.setSpace .initial value).spaces .data = c.spaces .data := setSpace_of_ne value (by decide)
  cases info with
  | none => exact ⟨hr, hdata⟩
  | some packet =>
    exact (removeInFlight_same _ pn packet).imp fun d hd => ⟨hr.of_spaces hd.spaces, by rw [hd.spaces]; exact hdata⟩

theorem Books.onRetry (hqt : Quiet c) (clientHello : Bytes) :
    Holds (Books last) (fun _ => True) (c.onRetry clientHello) := by
  refine (h.inferAck 0).bind fun d ⟨hd, hdata⟩ => ?_
  refine (abandonAll_same (d.spaces .initial).sentPackets.entries).bind fun e he => ?_
  have hrestart : Books last (e.restartInitial clientHello) := by
    refine hd.restartInitial (fun space hspace => ?_) ?_ clientHello
    · rw [he.spaces, setSpace_of_ne _ hspace]
    · rw [he.spaces, setSpace_self]
  refine hrestart.requeueZeroRtt ?_
  have hspace : (e.restartInitial clientHello).spaces .data = c.spaces .data := by
    unfold Connection.restartInitial
    rw [setSpace_of_ne _ (by decide), he.spaces, setSpace_of_ne _ (by decide), hdata]
  exact ⟨by rw [hspace]; exact hqt.1, by rw [hspace]; exact hqt.2⟩

end

def record (last : SpaceId → Option Nat) (space : SpaceId) (number : Nat) (packet : SentPacket) : SpaceId → Option Nat :=
  if packet.ackEliciting then update last space (some number) else last

theorem sentOnPath_space {path : PathData} {r : PacketSpace × Nat} (h : value.sent number packet = .ok r) :
    Holds (fun x => x.2 = r.1) (fun _ => True) (sentOnPath path number packet value) := by
  unfold sentOnPath
  rw [h]
  exact (orPanic_holds trivial fun _ _ => trivial : Holds (fun _ => True) _ _).bind fun _ _ => rfl

section
variable (h : Books last c)
include h

theorem Books.record (hvalue : value.Exact (if packet.ackEliciting then some number else last space))
    (hoth : ∀ other, other ≠ space → d.spaces other = c.spaces other) (hself : d.spaces space = value) :
    Books (Recovery.record last space number packet) d := by
  intro other
  unfold Recovery.record
  by_cases ho : other = space
  · subst ho
    rw [hself]
    cases hack : packet.ackEliciting <;> simpa [hack] using hvalue
  rw [hoth other ho]
  cases packet.ackEliciting <;> simpa [ho] using h other

theorem Books.finishAndTrack {skip : Bool} (packet : SentPacket)
    (hpos : packet.ackEliciting = true ∨ 0 < c.txNumber space skip) :
    Holds (Books (Recovery.record last space (c.txNumber space skip) packet)) (fun _ => True)
      (c.finishAndTrack space skip packet) := by
  have hself : (c.allocate space skip).spaces space =
      { c.spaces space with nextPacketNumber := c.txNumber space skip + 1 } := update_self _ _ _
  obtain ⟨r, hsent, hexact⟩ := (h space).sent (le_txNumber space skip) hpos
  rw [← hself] at hsent
  refine (sentOnPath_space hsent).bind fun x hx => h.record hexact (fun other ho => ?_) ?_
  · rw [setSpace_of_ne _ ho]
    exact setSpace_of_ne _ ho
  · rw [setSpace_self, hx]

theorem Books.allocate (space : SpaceId) (skip : Bool) : Books last (c.allocate space skip) := by
  have hset : Books last (c.setSpace space { c.spaces space with nextPacketNumber := c.txNumber space skip + 1 }) :=
    h.setSpace ((h space).same rfl rfl rfl rfl ((le_txNumber space skip).trans (Nat.le_succ _)))
  exact hset.of_spaces rfl

theorem Books.maybeQueueProbe (streams : StreamsState) (space : SpaceId) :
    Books last (c.maybeQueueProbe streams space) := by
  unfold Connection.maybeQueueProbe
  dsimp only
  split
  · exact h
  split
  · exact h
  next number packet hfind =>
  have hmem : (number, packet) ∈ (c.spaces space).sentPackets := List.mem_of_find?_eq_some hfind
  exact h.setSpace ((h space).replace { packet with retransmits := .empty } hmem rfl rfl _)

end

structure Bookkept where
  conn : Connection
  lastEliciting : SpaceId → Option Nat

namespace Bookkept

def observe (s : Bookkept) : Event → SpaceId → Option Nat
  | .send space skip packet => record s.lastEliciting space (s.conn.txNumber space skip) packet
  | .mtuProbe now skip =>
    if s.conn.probes now skip then update s.lastEliciting .data (some (s.conn.txNumber .data skip))
    else s.lastEliciting
  | _ => s.lastEliciting

def step (config : PathConfig) (s : Bookkept) (e : Event) : Option Bookkept :=
  (s.conn.step config e).toOption.map fun conn => ⟨conn, s.observe e⟩

inductive Start (config : PathConfig) : Bookkept → Prop
  | intro (remote : SocketAddr) (allowMtud : Bool) : Start config ⟨.new remote allowMtud config, fun _ => none⟩

/-- The first packet of a space elicits an acknowledgment if it has the number zero, a space is discarded with no tail,
    and nothing of the data space is in flight when a Retry packet or the rejection of 0-RTT data comes. -/
def Careful (c : Connection) : Event → Prop
  | .send space skip packet => packet.ackEliciting = true ∨ 0 < c.txNumber space skip
  | .discardSpace space => space = .data ∨ (c.spaces space).unackedNonAckElicitingTail = 0
  | .retry _ => c.established = true ∨ Quiet c
  | .rejectZeroRtt => c.established = true ∨ Quiet c
  | _ => True

end Bookkept

theorem Books.sendMtuProbe (h : Books last c) (now : Nat) (skip : Bool) :
    Holds (Books (if c.probes now skip then update last .data (some (c.txNumber .data skip)) else last))
      (fun _ => True) (c.sendMtuProbe now skip) := by
  unfold Connection.sendMtuProbe Connection.probes
  cases c.established with
  | false => exact h
  | true =>
    rw [if_pos rfl]
    cases hpoll : c.path.mtud.pollTransmit now (c.txNumber .data skip) with
    | mk mtud size =>
      have hmtud := h.of_spaces rfl
      cases size with
      | none => exact hmtud
      | some size => exact hmtud.finishAndTrack ⟨now, size, true, .empty, []⟩ (.inl rfl)

theorem Books.step {s : Bookkept} (h : Books s.lastEliciting s.conn) (config : PathConfig) {e : Event}
    (hallow : Bookkept.Careful s.conn e) :
    Holds (Books (s.observe e)) (fun _ => True) (s.conn.step config e) := by
  cases e with
  | send space skip packet => exact h.finishAndTrack packet hallow
  | sendUntracked skip => exact h.allocate .data skip
  | mtuProbe now skip => exact h.sendMtuProbe now skip
  | queueProbe streams space => exact h.maybeQueueProbe streams space
  | ack space ack now lossDelay => exact (Books.settles _).onAckReceived h config space ack now lossDelay
  | lossDetection now lossDelay =>
    unfold Connection.step Connection.onLossDetectionTimeout
    dsimp only
    split
    · exact (Books.settles _).detectLostPackets h config _ now lossDelay
    · exact h
  | discardSpace space =>
    unfold Connection.step
    dsimp only
    split
    · exact h
    · next hdata => exact h.discardSpace (hallow.resolve_left hdata)
  | retry clientHello =>
    unfold Connection.step
    dsimp only
    split
    · exact h
    · next hest => exact h.onRetry (hallow.resolve_left hest) clientHello
  | rejectZeroRtt =>
    unfold Connection.step
    dsimp only
    split
    · exact h
    · next hest => exact h.rejectZeroRtt (hallow.resolve_left hest)
  | establish | migrate allowMtud peerMax remote token prevToken => exact h.of_spaces rfl
  | pathResponse token remote =>
    unfold Connection.step Connection.onPathResponse
    dsimp only
    split
    · exact h.of_spaces rfl
    · exact h
  | pathValidation =>
    unfold Connection.step Connection.onPathValidationTimeout
    dsimp only
    split
    · split
      · exact h.of_spaces rfl
      · exact h.of_spaces rfl
    · exact h
  | pathChanged => exact h.of_spaces rfl

namespace Bookkept
open Ledger (plainConfig plainPacket)

variable {config : PathConfig} {s : Bookkept}

instance (c : Connection) : ∀ e, Decidable (Careful c e) := fun e => by
  delta Careful
  induction e using Event.casesOn <;> infer_instance

theorem Start.books (h : Start config s) : Books s.lastEliciting s.conn := by
  obtain ⟨remote, allowMtud⟩ := h
  exact fun space => .empty rfl rfl rfl nofun (.inl rfl)

/-- In every space the bytes in flight are those of the outstanding packets, the tail counts the packets that were sent
    after the last ACK-eliciting one, and neither taking a packet nor sending one panics. -/
theorem space_books_exact (h : Reaches (step config) (fun s e => Careful s.conn e) (Start config) s) (space : SpaceId) :
    (s.conn.spaces space).inFlight = (s.conn.spaces space).outstandingBytes ∧
      (s.conn.spaces space).unackedNonAckElicitingTail = (s.conn.spaces space).sentAfter (s.lastEliciting space) ∧
      (∀ number, ∃ r, (s.conn.spaces space).take number = .ok r) ∧
      ∀ number packet, ∃ r, (s.conn.spaces space).sent number packet = .ok r := by
  have hbooks : Books s.lastEliciting s.conn := by
    refine h.invariant (P := fun s => Books s.lastEliciting s.conn) (fun _ hs => hs.books) fun s e t hs hallow hstep => ?_
    obtain ⟨conn, hconn, rfl⟩ := Option.map_eq_some_iff.mp hstep
    exact (hs.step config hallow).of_ok (eq_ok_of_toOption hconn)
  refine ⟨(hbooks space).inFlight, (hbooks space).tail, fun number => ?_, (hbooks space).sent_ok⟩
  obtain ⟨r, hr, -⟩ := (hbooks space).take number
  exact ⟨r, hr⟩

def freshClient : Bookkept := ⟨.new ⟨true, 1, 4433⟩ false plainConfig, fun _ => none⟩

def ackOnly : SentPacket := ⟨10, 0, false, .empty, []⟩

def paddedAck : SentPacket := ⟨10, 1200, false, .empty, []⟩

def view (s : Bookkept) (space : SpaceId) : Nat × Nat × Nat × Nat :=
  ((s.conn.spaces space).inFlight, (s.conn.spaces space).outstandingBytes,
    (s.conn.spaces space).unackedNonAckElicitingTail, (s.conn.spaces space).sentAfter (s.lastEliciting space))

theorem space_books_exact_handshake :
    ∃ s, Reaches (step plainConfig) (fun s e => Careful s.conn e) (Start plainConfig) s ∧
      s.view .handshake = (2400, 2400, 2, 2) ∧
      (s.conn.spaces .handshake).inFlight = (s.conn.spaces .handshake).outstandingBytes := by
  have hstart : Reaches (step plainConfig) (fun s e => Careful s.conn e) (Start plainConfig) freshClient :=
    .start (Start.intro _ _)
  obtain ⟨s, hreach, hview⟩ := hstart.exists_of_runFrom (P := (·.view .handshake = (2400, 2400, 2, 2)))
    [.send .handshake false (plainPacket 1200), .send .handshake false paddedAck, .send .handshake false ackOnly]
    (by decide +kernel)
  exact ⟨s, hreach, hview, (space_books_exact hreach .handshake).1⟩

/-- After a Retry packet and after the rejection of 0-RTT data the data space counts 1200 bytes in flight, with no
    packet outstanding; and the acknowledgment of a first packet that elicits none leaves one in the tail. -/
theorem space_books_wrong :
    (∃ s, Reaches (step plainConfig) (fun _ _ => True) (Start plainConfig) s ∧ s.view .data = (1200, 0, 0, 0)) ∧
    (∃ s, Reaches (step plainConfig) (fun _ _ => True) (Start plainConfig) s ∧ s.conn.established = true ∧
      s.view .data = (1200, 0, 0, 0)) ∧
    ∃ s, Reaches (step plainConfig) (fun _ _ => True) (Start plainConfig) s ∧ s.view .handshake = (0, 0, 1, 0) := by
  have hstart : Reaches (step plainConfig) (fun _ _ => True) (Start plainConfig) freshClient := .start (Start.intro _ _)
  refine ⟨?_, ?_, ?_⟩
  · exact hstart.exists_of_runFrom [.send .initial false (plainPacket 1200), .send .data false (plainPacket 1200), .retry []]
      (by decide +kernel)
  · exact hstart.exists_of_runFrom
      [.send .initial false (plainPacket 1200), .send .data false (plainPacket 1200), .rejectZeroRtt, .establish]
      (by decide +kernel)
  · exact hstart.exists_of_runFrom [.send .handshake false ackOnly, .ack .handshake ⟨0, [(0, 0)]⟩ 20 5] (by decide +kernel)

end Bookkept
end Recovery
end SaorsaTransport
