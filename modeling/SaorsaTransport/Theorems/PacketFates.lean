import SaorsaTransport.Theorems.SpaceBooks

/-! What becomes of packets over whole runs. -/

namespace SaorsaTransport.Recovery
open Library BTreeMap Recovery.Connection List Function

def Connection.outstanding (c : Connection) (space : SpaceId) (pn : Nat) : Bool :=
  ((c.spaces space).sentPackets.get pn).isSome

def Connection.prevProbe (c : Connection) : Option Nat := c.prevPath.bind (·.mtud.inFlightMtuProbe)

inductive Fate where
  | acked
  | lost
  | abandoned
  deriving DecidableEq

def Connection.deems (c : Connection) (config : PathConfig) (space : SpaceId) (now lossDelay : Nat)
    (e : Nat × SentPacket) : Bool :=
  (c.spaces space).largestAckedPacket.any fun largest =>
    e.1 < largest && deemedLost config (now - lossDelay) largest e

def Connection.accepts (c : Connection) (space : SpaceId) (ack : Connection.Ack) : Bool :=
  ack.largest < (c.spaces space).nextPacketNumber && !c.acksSkipped space ack && !(c.newlyAcked space ack).isEmpty

def fate (config : PathConfig) (c : Connection) : Event → SpaceId → Nat × SentPacket → Option Fate
  | .ack space ack now lossDelay, s, e =>
    if s = space ∧ c.accepts space ack then
      if ack.covers e.1 then some .acked
      else if (c.recordLargest space ack.largest).deems config space now lossDelay e then some .lost
      else none
    else none
  | .lossDetection now lossDelay, s, e =>
    match c.lossTimeAndSpace with
    | some (_, space) => if s = space ∧ c.deems config space now lossDelay e then some .lost else none
    | none => none
  | .discardSpace space, s, _ => if s = space ∧ space ≠ .data then some .abandoned else none
  -- A Retry packet acknowledges the first Initial packet.
  | .retry _, s, e =>
    if c.established ∨ s = .handshake then none else if s = .initial ∧ e.1 = 0 then some .acked else some .abandoned
  | .rejectZeroRtt, s, _ => if c.established = false ∧ s = .data then some .abandoned else none
  | _, _, _ => none

def sentBy (c : Connection) : Event → List (SpaceId × Nat)
  | .send space skip _ => [(space, c.txNumber space skip)]
  | .mtuProbe now skip => if c.probes now skip then [(.data, c.txNumber .data skip)] else []
  | _ => []

def detects (c : Connection) : Event → Option SpaceId
  | .ack space _ _ _ => some space
  | .lossDetection _ _ => c.lossTimeAndSpace.map Prod.snd
  | _ => none

def lostBy (config : PathConfig) (c : Connection) (e : Event) (space : SpaceId) : List (Nat × SentPacket) :=
  (c.spaces space).sentPackets.entries.filter fun x => fate config c e space x = some .lost

/-- One step is exact: packets leave for a reason, lost packets have their frames queued in their own space, and detection
    leaves the other spaces alone. -/
structure Exact (config : PathConfig) (c : Connection) (e : Event) (c' : Connection) : Prop where
  moves : ∀ s pn, c'.outstanding s pn = true ↔
    (∃ packet, (pn, packet) ∈ (c.spaces s).sentPackets ∧ fate config c e s (pn, packet) = none) ∨ (s, pn) ∈ sentBy c e
  queued : ∀ space, detects c e = some space →
    (c'.spaces space).pending = requeued (lostBy config c e space) (c.spaces space).pending ∧
      c'.retransmitted = c.retransmitted ++ (lostBy config c e space).flatMap (·.2.streamFrames)
  untouched : ∀ space, detects c e = some space → ∀ s, s ≠ space → c'.spaces s = c.spaces s

/-- The event is one that recovery can cope with: no packet is forgotten, no packet of an early space that is checked for
    loss has the number of the MTU probe in flight, and the connection does not return to a path that still waits for a
    probe of the past. -/
def Proper (c : Connection) : Event → Prop
  | .send space _ packet => packet.ackEliciting = true ∨
    (c.spaces space).unackedNonAckElicitingTail ≤ PacketSpace.maxUnackedNonAckElicitingTail
  | .pathValidation => c.pathValidation = true → ∀ pn ∈ c.prevProbe, c.outstanding .data pn = true
  | e => ∀ space ∈ detects c e, space ≠ .data → ∀ pn ∈ c.probe, c.outstanding space pn = false

instance (c : Connection) : ∀ e, Decidable (Proper c e) := fun e => by
  unfold Proper
  split <;> infer_instance

structure Recorded (c : Connection) : Prop where
  below : ∀ s e, e ∈ (c.spaces s).sentPackets → e.1 < (c.spaces s).nextPacketNumber
  probe : ∀ pn, c.probe = some pn → c.outstanding .data pn = true
  probeLt : ∀ pn, c.probe = some pn ∨ c.prevProbe = some pn → pn < (c.spaces .data).nextPacketNumber
  plain : ∀ pn packet, c.probe = some pn ∨ c.prevProbe = some pn → (pn, packet) ∈ (c.spaces .data).sentPackets →
    packet.retransmits = .empty ∧ packet.streamFrames = []
  /-- There are no probes before the handshake is complete. -/
  early : c.established = false → c.probe = none ∧ c.prevProbe = none

variable {c c' : Connection} {config : PathConfig} {space : SpaceId} {gone queued : List (Nat × SentPacket)}

variable {s : SpaceId} {pn : Nat} {d : Connection} {e : Event}

theorem outstanding_iff : c.outstanding s pn = true ↔ ∃ packet, (pn, packet) ∈ (c.spaces s).sentPackets := by
  unfold outstanding
  rw [Option.isSome_iff_exists]
  exact exists_congr fun _ => get_eq_some

/-! ### The invariant -/

theorem Recorded.shrink (h : Recorded c)
    (hsent : ∀ s e', e' ∈ (c'.spaces s).sentPackets → ∃ e ∈ (c.spaces s).sentPackets, e.1 = e'.1 ∧
      (e.2.retransmits = .empty → e'.2.retransmits = .empty) ∧ e.2.streamFrames = e'.2.streamFrames)
    (hnext : ∀ s, (c.spaces s).nextPacketNumber ≤ (c'.spaces s).nextPacketNumber)
    (hprb : ∀ pn, c'.probe = some pn → (c.probe = some pn ∨ c.prevProbe = some pn) ∧ c'.outstanding .data pn = true)
    (hprev : ∀ pn, c'.prevProbe = some pn → c.probe = some pn ∨ c.prevProbe = some pn)
    (hestab : c'.established = false → c.established = false) : Recorded c' := by
  have hkn : ∀ pn, c'.probe = some pn ∨ c'.prevProbe = some pn → c.probe = some pn ∨ c.prevProbe = some pn :=
    fun pn hpn => hpn.elim (fun hpn => (hprb pn hpn).1) (hprev pn)
  refine ⟨fun s e' he' => ?_, fun pn hpn => (hprb pn hpn).2, fun pn hpn => ?_, fun pn packet hpn hmem => ?_,
    fun hearly => ?_⟩
  · obtain ⟨e, he, heq, -⟩ := hsent s e' he'
    exact heq ▸ (h.below s e he).trans_le (hnext s)
  · exact (h.probeLt pn (hkn pn hpn)).trans_le (hnext .data)
  · obtain ⟨e, he, heq, hemp, hfr⟩ := hsent .data (pn, packet) hmem
    obtain rfl : e.1 = pn := heq
    obtain ⟨hretx, hstream⟩ := h.plain e.1 e.2 (hkn e.1 hpn) he
    exact ⟨hemp hretx, hfr ▸ hstream⟩
  · obtain ⟨hnone, hnone'⟩ := h.early (hestab hearly)
    have hno : ∀ pn, ¬ (c.probe = some pn ∨ c.prevProbe = some pn) := fun pn hpn => by
      rw [hnone, hnone'] at hpn
      rcases hpn with hpn | hpn <;> cases hpn
    exact ⟨Option.eq_none_iff_forall_ne_some.mpr fun pn hpn => hno pn (hkn pn (.inl hpn)),
      Option.eq_none_iff_forall_ne_some.mpr fun pn hpn => hno pn (hkn pn (.inr hpn))⟩

theorem prevProbe_congr (h : c'.prevPath.map (·.mtud) = c.prevPath.map (·.mtud)) : c'.prevProbe = c.prevProbe := by
  have hmap : ∀ d : Connection, d.prevProbe = (d.prevPath.map (·.mtud)).bind (·.inFlightMtuProbe) := fun d => by
    rw [Option.bind_map]
    rfl
  rw [hmap, hmap, h]

section
variable (hd : Departs space gone queued c c')
include hd

theorem Departs.prevProbe : c'.prevProbe = c.prevProbe := prevProbe_congr hd.prevMtud

theorem Departs.mem_of_mem {e : Nat × SentPacket} (he : e ∈ (c'.spaces s).sentPackets) : e ∈ (c.spaces s).sentPackets := by
  by_cases hs : s = space
  · subst hs
    exact (hd.mem.mp he).1
  · rwa [hd.others s hs] at he

theorem Departs.next_eq (s : SpaceId) : (c'.spaces s).nextPacketNumber = (c.spaces s).nextPacketNumber := by
  by_cases hs : s = space
  · rw [hs, hd.next]
  · rw [hd.others s hs]

end

theorem Recorded.departs (h : Recorded c) (hd : Departs space gone queued c c') : Recorded c' := by
  refine h.shrink (fun s e he => ⟨e, hd.mem_of_mem he, rfl, id, rfl⟩) (fun s => (hd.next_eq s).ge)
    (fun pn hpn => ?_) (fun pn hpn => .inr (hd.prevProbe ▸ hpn)) fun hearly => hd.established ▸ hearly
  obtain ⟨hpn, hgone⟩ := hd.probe pn hpn
  obtain ⟨packet, hmem⟩ := outstanding_iff.mp (h.probe pn hpn)
  refine ⟨.inl hpn, outstanding_iff.mpr ⟨packet, ?_⟩⟩
  by_cases hs : space = .data
  · subst hs
    exact hd.mem.mpr ⟨hmem, hgone rfl⟩
  · rwa [hd.others .data fun heq => hs heq.symm]

theorem Recorded.apart (h : Recorded c) (hprop : space ≠ .data → ∀ pn ∈ c.probe, c.outstanding space pn = false) :
    Apart c space where
  data _ pn packet hpn hmem := h.plain pn packet (.inl hpn) hmem
  other hspace pn packet hpn hmem := by
    have hout := outstanding_iff.mpr ⟨packet, hmem⟩
    rw [hprop hspace pn hpn] at hout
    cases hout

theorem Apart.departs (h : Apart c space) (hd : Departs space gone queued c c') : Apart c' space where
  data hspace pn packet hpn hmem := h.data hspace pn packet (hd.probe pn hpn).1 (hd.mem_of_mem hmem)
  other hspace pn packet hpn hmem := h.other hspace pn packet (hd.probe pn hpn).1 (hd.mem_of_mem hmem)

/-! ### Steps -/

structure Step (config : PathConfig) (c : Connection) (e : Event) (c' : Connection) : Prop where
  exact : Exact config c e c'
  recorded : Recorded c'
  next : ∀ s, (c.spaces s).nextPacketNumber ≤ (c'.spaces s).nextPacketNumber

theorem outstanding_congr (h : (d.spaces s).sentPackets = (c.spaces s).sentPackets)
    (pn : Nat) : d.outstanding s pn = c.outstanding s pn := by
  unfold outstanding
  rw [h]

theorem lostBy_eq_nil (hfate : ∀ s x, fate config c e s x = none) (space : SpaceId) : lostBy config c e space = [] :=
  filter_eq_nil_iff.mpr fun x _ => by simp [hfate]

theorem Exact.idle (hout : ∀ s pn, c'.outstanding s pn = c.outstanding s pn)
    (hfate : ∀ s x, fate config c e s x = none) (hsent : sentBy c e = [])
    (hpend : ∀ space, detects c e = some space → (c'.spaces space).pending = (c.spaces space).pending ∧
      c'.retransmitted = c.retransmitted)
    (huntouched : ∀ space, detects c e = some space → ∀ s, s ≠ space → c'.spaces s = c.spaces s) :
    Exact config c e c' where
  moves s pn := by
    rw [hout, hsent, outstanding_iff]
    simp [hfate]
  queued space hspace := by
    obtain ⟨hp, hr⟩ := hpend space hspace
    rw [lostBy_eq_nil hfate, flatMap_nil, append_nil]
    exact ⟨hp, hr⟩
  untouched := huntouched

theorem recordLargest_eq (space : SpaceId) (n : Nat) : ∃ largest, c.recordLargest space n =
    c.setSpace space { c.spaces space with largestAckedPacket := largest } := by
  unfold recordLargest
  dsimp only
  split
  · exact ⟨_, rfl⟩
  refine ⟨(c.spaces space).largestAckedPacket, ?_⟩
  unfold setSpace
  rw [update_eq_self]

structure Marked (space : SpaceId) (c c' : Connection) : Prop where
  others : ∀ s, s ≠ space → c'.spaces s = c.spaces s
  sent : ∀ s, (c'.spaces s).sentPackets = (c.spaces s).sentPackets
  next : ∀ s, (c.spaces s).nextPacketNumber ≤ (c'.spaces s).nextPacketNumber
  pending : (c'.spaces space).pending = (c.spaces space).pending
  retransmitted : c'.retransmitted = c.retransmitted
  probe : c'.probe = c.probe
  prevProbe : c'.prevProbe = c.prevProbe
  established : c'.established = c.established

theorem Marked.refl (space : SpaceId) (c : Connection) : Marked space c c :=
  ⟨fun _ _ => rfl, fun _ => rfl, fun _ => le_rfl, rfl, rfl, rfl, rfl, rfl⟩

theorem Marked.setSpace {value : PacketSpace} (hsent : value.sentPackets = (c.spaces space).sentPackets)
    (hnext : (c.spaces space).nextPacketNumber ≤ value.nextPacketNumber)
    (hpend : value.pending = (c.spaces space).pending) : Marked space c (c.setSpace space value) :=
  ⟨fun s hs => setSpace_of_ne _ hs, fun s => setSpace_cases s hsent fun _ => rfl,
    fun s => setSpace_cases s hnext fun _ => le_rfl, by rw [setSpace_self, hpend], rfl, rfl, rfl, rfl⟩

theorem recordLargest_marked (c : Connection) (space : SpaceId) (n : Nat) : Marked space c (c.recordLargest space n) := by
  obtain ⟨largest, heq⟩ := @recordLargest_eq c space n
  rw [heq]
  exact .setSpace rfl le_rfl rfl

theorem Recorded.marked (h : Recorded c) (hm : Marked space c c') : Recorded c' := by
  refine h.shrink (fun s e he => ⟨e, hm.sent s ▸ he, rfl, id, rfl⟩) hm.next (fun pn hpn => ?_)
    (fun pn hpn => .inr (hm.prevProbe ▸ hpn)) fun hearly => hm.established ▸ hearly
  rw [hm.probe] at hpn
  rw [outstanding_congr (hm.sent .data)]
  exact ⟨.inl hpn, h.probe pn hpn⟩

theorem Marked.step (hm : Marked space c c') (h : Recorded c) (hspace : ∀ s, detects c e = some s → s = space)
    (hfate : ∀ s x, fate config c e s x = none) (hsent : sentBy c e = []) : Step config c e c' := by
  refine ⟨.idle (fun s pn => outstanding_congr (hm.sent s) pn) hfate hsent (fun s hs => ?_) fun s hs => ?_, h.marked hm, hm.next⟩
  · obtain rfl := hspace s hs
    exact ⟨hm.pending, hm.retransmitted⟩
  · obtain rfl := hspace s hs
    exact hm.others

theorem overdue_eq {now lossDelay largest : Nat} (h : (c.spaces space).largestAckedPacket = some largest) :
    c.overdue config space (now - lossDelay) largest =
      (c.spaces space).sentPackets.entries.filter (c.deems config space now lossDelay) := by
  refine filter_congr fun e _ => ?_
  unfold deems
  rw [h]
  rfl

theorem Departs.step {acked lost : List (Nat × SentPacket)} (hm : Marked space c d)
    (hd : Departs space (acked ++ lost) lost d c') (h : Recorded c) (hdet : detects c e = some space)
    (hsent : sentBy c e = []) (hoth : ∀ s x, s ≠ space → fate config c e s x = none)
    (hmem : ∀ x ∈ acked ++ lost, x ∈ (c.spaces space).sentPackets)
    (hfate : ∀ x ∈ (c.spaces space).sentPackets, fate config c e space x = none ↔ x ∉ acked ++ lost)
    (hlost : lost = lostBy config c e space) : Step config c e c' := by
  refine ⟨⟨fun s pn => ?_, fun s hs => ?_, fun s hs s' hs' => ?_⟩, (h.marked hm).departs hd,
    fun s => (hm.next s).trans (hd.next_eq s).ge⟩
  · rw [outstanding_iff, hsent]
    simp only [not_mem_nil, or_false]
    refine exists_congr fun packet => ?_
    by_cases hs : s = space
    · subst hs
      rw [hd.mem, hm.sent]
      refine and_congr_right fun hx => Iff.trans ?_ (hfate _ hx).symm
      exact ⟨fun hne hx' => hne _ hx' rfl, fun hx' y hy heq => hx' (eq_of_key (hmem y hy) hx heq ▸ hy)⟩
    rw [hd.others s hs, hm.sent]
    simp [hoth s _ hs]
  · obtain rfl := Option.some.inj (hdet.symm.trans hs)
    rw [← hlost, hd.pending, hd.retransmitted, hm.pending, hm.retransmitted]
    exact ⟨rfl, rfl⟩
  · obtain rfl := Option.some.inj (hdet.symm.trans hs)
    rw [hd.others s' hs', hm.others s' hs']

theorem lossDetection_step (h : Recorded c) (config : PathConfig) (now lossDelay : Nat)
    (hprop : Proper c (.lossDetection now lossDelay)) :
    Yields (Step config c (.lossDetection now lossDelay)) (c.onLossDetectionTimeout config now lossDelay) := by
  unfold onLossDetectionTimeout
  cases hspace : c.lossTimeAndSpace with
  | none =>
    refine Marked.step (Marked.refl .data c) h (fun s hs => ?_) (fun s x => ?_) rfl
    · unfold detects at hs
      rw [hspace] at hs
      cases hs
    · unfold fate
      rw [hspace]
  | some due =>
    obtain ⟨time, space⟩ := due
    have hdet : detects c (.lossDetection now lossDelay) = some space := by
      unfold detects
      rw [hspace]
      rfl
    have hfate : ∀ s x, fate config c (.lossDetection now lossDelay) s x =
        if s = space ∧ c.deems config space now lossDelay x then some .lost else none := fun s x => by
      unfold fate
      rw [hspace]
    refine (detectLostPackets_departs config now lossDelay (h.apart (hprop space hdet))).imp fun d hd => ?_
    obtain ⟨largest, hmax, hd⟩ := hd
    rw [overdue_eq hmax] at hd
    refine Departs.step (Marked.refl space c) ((Departs.refl space c).trans hd) h hdet rfl (fun s x hs => ?_)
      (fun x hx => (mem_filter.mp hx).1) (fun x hx => ?_) ?_
    · rw [hfate, if_neg fun hs' => hs hs'.1]
    · rw [hfate]
      simp [mem_def.mp hx]
    · refine filter_congr fun x _ => ?_
      rw [hfate]
      simp

theorem acks_step {d1 d2 : Connection} {ack : Connection.Ack} {now lossDelay largest : Nat} (h : Recorded c)
    (hm : Marked space c d)
    (hd1 : Departs space ((c.spaces space).sentPackets.entries.filter fun x => ack.covers x.1) [] d d1)
    (hmax : (d1.spaces space).largestAckedPacket = some largest)
    (hd2 : Departs space (d1.overdue config space (now - lossDelay) largest)
      (d1.overdue config space (now - lossDelay) largest) d1 d2)
    (hdet : detects c e = some space) (hsent : sentBy c e = [])
    (hfate : ∀ s x, fate config c e s x = if s = space then
      if ack.covers x.1 then some .acked else if d.deems config space now lossDelay x then some .lost else none
      else none) : Step config c e d2 := by
  have hdeems : d1.deems config space now lossDelay = d.deems config space now lossDelay := by
    funext x
    unfold deems
    rw [hd1.largest]
  rw [overdue_eq hmax, hdeems] at hd2
  -- A packet that is outstanding stays so unless it is acknowledged.
  have hcov : ∀ x ∈ (c.spaces space).sentPackets,
      (((c.spaces space).sentPackets.entries.filter fun x => ack.covers x.1).all fun y => decide (y.1 ≠ x.1)) =
        !ack.covers x.1 := by
    intro x hx
    cases hack : ack.covers x.1 with
    | true =>
      refine all_eq_false.mpr ⟨x, mem_filter.mpr ⟨hx, hack⟩, ?_⟩
      simp
    | false =>
      refine all_eq_true.mpr fun y hy => decide_eq_true fun heq => ?_
      have hy := (mem_filter.mp hy).2
      rw [heq, hack] at hy
      cases hy
  have hleft : (d1.spaces space).sentPackets.entries =
      (c.spaces space).sentPackets.entries.filter fun x => !ack.covers x.1 := by
    rw [hd1.sent, hm.sent]
    exact filter_congr fun x hx => hcov x hx
  rw [hleft, filter_filter] at hd2
  refine Departs.step hm (hd1.trans hd2) h hdet hsent (fun s x hs => ?_) (fun x hx => ?_) (fun x hx => ?_) ?_
  · rw [hfate, if_neg hs]
  · rcases mem_append.mp hx with hx | hx
    · exact (mem_filter.mp hx).1
    · exact (mem_filter.mp hx).1
  · rw [hfate, if_pos rfl]
    have hx := mem_def.mp hx
    cases hack : ack.covers x.1 <;> simp [hack, hx]
  · refine filter_congr fun x _ => ?_
    rw [hfate, if_pos rfl]
    cases hack : ack.covers x.1 <;> simp

theorem ack_step (h : Recorded c) (config : PathConfig) (space : SpaceId) (ack : Connection.Ack) (now lossDelay : Nat)
    (hprop : Proper c (.ack space ack now lossDelay)) :
    Yields (Step config c (.ack space ack now lossDelay))
      ((c.onAckReceived config space ack now lossDelay).map Prod.fst) := by
  have hm := recordLargest_marked c space ack.largest
  have href : ∀ {d}, Marked space c d → c.accepts space ack = false →
      Step config c (.ack space ack now lossDelay) d := fun hd hacc =>
    hd.step h (fun s hs => (Option.some.inj hs).symm) (fun s x => if_neg fun hs => by simp [hacc] at hs) rfl
  have hskipped : (c.recordLargest space ack.largest).acksSkipped space ack = c.acksSkipped space ack := by
    obtain ⟨largest, heq⟩ := @recordLargest_eq c space ack.largest
    rw [heq]
    rfl
  have hnewly : (c.recordLargest space ack.largest).newlyAcked space ack = c.newlyAcked space ack := by
    unfold newlyAcked
    rw [hm.sent]
  unfold onAckReceived
  split
  · next hlg => exact href (Marked.refl space c) (by simp [accepts, hlg])
  next hlg =>
  dsimp only
  split
  · next hskip => exact href hm (by simp [accepts, ← hskipped, hskip])
  next hskip =>
  split
  · next hemp => exact href hm (by simp [accepts, ← hnewly, hemp])
  next hemp =>
  have hacc : c.accepts space ack = true := by
    rw [hskipped] at hskip
    rw [hnewly] at hemp
    simp only [accepts, Bool.and_eq_true, Bool.not_eq_true', decide_eq_true_eq]
    exact ⟨⟨not_le.mp hlg, Bool.eq_false_iff.mpr hskip⟩, Bool.eq_false_iff.mpr hemp⟩
  have hfate : ∀ s x, fate config c (.ack space ack now lossDelay) s x = if s = space then
      if ack.covers x.1 then some .acked
      else if (c.recordLargest space ack.largest).deems config space now lossDelay x then some .lost else none
      else none := fun s x => by
    unfold fate
    simp [hacc]
  rw [hnewly]
  have hapart : Apart (c.recordLargest space ack.largest) space := (h.marked hm).apart fun hspace pn hpn => by
    rw [hm.probe] at hpn
    rw [outstanding_congr (hm.sent space)]
    exact hprop space rfl hspace pn hpn
  generalize c.recordLargest space ack.largest = d at hm hfate hapart ⊢
  have hacked : Yields (Departs space ((c.spaces space).sentPackets.entries.filter fun x => ack.covers x.1) [] d)
      (forEach (ackPacket space) d (c.newlyAcked space ack)) :=
    ackPackets_departs (fun x hx => hm.sent space ▸ (mem_filter.mp hx).1)
      ((c.spaces space).sentPackets.sorted.filter _)
  refine Holds.map (hacked.bind fun d1 hd1 => (detectLostPackets_departs config now lossDelay
    (hapart.departs hd1)).bind fun d2 hd2 => ?_) fun r hr => hr
  obtain ⟨largest, hmax, hd2⟩ := hd2
  exact acks_step h hm hd1 hmax hd2 rfl rfl hfate

/-! ### Sending -/

structure Tracks (c : Connection) (space : SpaceId) (n : Nat) (packet : SentPacket) (value : PacketSpace)
    (c' : Connection) : Prop where
  spaces : c'.spaces = (c.setSpace space value).spaces
  sent : value.sentPackets = (c.spaces space).sentPackets.insert n packet
  next : value.nextPacketNumber = n + 1
  above : (c.spaces space).nextPacketNumber ≤ n
  mtud : c'.path.mtud = c.path.mtud
  prevPath : c'.prevPath = c.prevPath
  established : c'.established = c.established

theorem finishAndTrack_tracks {skip : Bool} {packet : SentPacket} (hkeep : packet.ackEliciting = true ∨
      (c.spaces space).unackedNonAckElicitingTail ≤ PacketSpace.maxUnackedNonAckElicitingTail) :
    Yields (fun c' => ∃ value, Tracks c space (c.txNumber space skip) packet value c')
      (c.finishAndTrack space skip packet) := by
  have hself : (c.allocate space skip).spaces space =
      { c.spaces space with nextPacketNumber := c.txNumber space skip + 1 } := update_self _ _ _
  unfold finishAndTrack sentOnPath PacketSpace.sent
  dsimp only
  rw [hself]
  split
  · exact ⟨_, update_idem _ _ _, rfl, rfl, le_txNumber space skip, rfl, rfl, rfl⟩
  next hack =>
  rw [if_neg (hkeep.resolve_left hack).not_gt]
  exact ⟨_, update_idem _ _ _, rfl, rfl, le_txNumber space skip, rfl, rfl, rfl⟩

section Tracks
variable {n : Nat} {packet : SentPacket} {value : PacketSpace}

section
variable (ht : Tracks c space n packet value c')
include ht

theorem Tracks.mem {s : SpaceId} {e : Nat × SentPacket}
    (he : e ∈ (c'.spaces s).sentPackets) : (s = space ∧ e = (n, packet)) ∨ e ∈ (c.spaces s).sentPackets := by
  rw [ht.spaces] at he
  exact (mem_send ht.sent he).imp_right (·.1)

theorem Tracks.mem_new : (n, packet) ∈ (c'.spaces space).sentPackets := by
  rw [ht.spaces, setSpace_self, ht.sent]
  exact mem_insert.mpr (.inl rfl)

theorem Tracks.mem_old (h : Recorded c) {s : SpaceId} {e : Nat × SentPacket}
    (he : e ∈ (c.spaces s).sentPackets) : e ∈ (c'.spaces s).sentPackets := by
  rw [ht.spaces]
  revert he
  refine setSpace_cases s (fun he => ?_) fun _ he => he
  rw [ht.sent]
  exact mem_insert.mpr (.inr ⟨((h.below space e he).trans_le ht.above).ne, he⟩)

theorem Tracks.next_le (s : SpaceId) : (c.spaces s).nextPacketNumber ≤ (c'.spaces s).nextPacketNumber := by
  rw [ht.spaces]
  refine setSpace_cases s ?_ fun _ => le_rfl
  rw [ht.next]
  exact ht.above.trans (Nat.le_succ n)

theorem Tracks.lt_next : n < (c'.spaces space).nextPacketNumber := by
  rw [ht.spaces, setSpace_self, ht.next]
  exact Nat.lt_succ_self n

theorem Tracks.outstanding (h : Recorded c) (s : SpaceId) (pn : Nat) :
    c'.outstanding s pn = true ↔ c.outstanding s pn = true ∨ (s, pn) = (space, n) := by
  rw [outstanding_iff, outstanding_iff]
  constructor
  · rintro ⟨packet', hmem⟩
    rcases ht.mem hmem with ⟨rfl, heq⟩ | hold
    · exact .inr (congrArg (Prod.mk s) (congrArg Prod.fst heq))
    · exact .inl ⟨packet', hold⟩
  · rintro (⟨packet', hmem⟩ | heq)
    · exact ⟨packet', ht.mem_old h hmem⟩
    · cases heq
      exact ⟨packet, ht.mem_new⟩

end

theorem Recorded.tracks (h : Recorded c) (ht : Tracks c space n packet value c') {d : Connection}
    (hsp : d.spaces = c'.spaces) (hprb : ∀ pn, d.probe = some pn → c.probe = some pn ∨
      (space = .data ∧ pn = n ∧ packet.retransmits = .empty ∧ packet.streamFrames = [] ∧ c.established = true))
    (hprev : d.prevProbe = c.prevProbe) (hestab : d.established = c.established) : Recorded d := by
  have hkn : ∀ pn, d.probe = some pn ∨ d.prevProbe = some pn → (c.probe = some pn ∨ c.prevProbe = some pn) ∨
      (space = .data ∧ pn = n ∧ packet.retransmits = .empty ∧ packet.streamFrames = [] ∧ c.established = true) := by
    rintro pn (hpn | hpn)
    · exact (hprb pn hpn).imp_left .inl
    · exact .inl (.inr (hprev ▸ hpn))
  have hout : ∀ s pn, d.outstanding s pn = c'.outstanding s pn := fun s pn =>
    outstanding_congr (by rw [hsp]) pn
  refine ⟨fun s e he => ?_, fun pn hpn => ?_, fun pn hpn => ?_, fun pn packet' hpn hmem => ?_, fun hearly => ?_⟩
  · rw [hsp] at he ⊢
    rcases ht.mem he with ⟨rfl, rfl⟩ | hold
    · exact ht.lt_next
    · exact (h.below s e hold).trans_le (ht.next_le s)
  · rw [hout, ht.outstanding h]
    rcases hprb pn hpn with hold | ⟨rfl, rfl, -⟩
    · exact .inl (h.probe pn hold)
    · exact .inr rfl
  · rw [hsp]
    rcases hkn pn hpn with hold | ⟨rfl, rfl, -⟩
    · exact (h.probeLt pn hold).trans_le (ht.next_le .data)
    · exact ht.lt_next
  · rw [hsp] at hmem
    rcases hkn pn hpn with hold | ⟨rfl, rfl, hretx, hfr, -⟩ <;> rcases ht.mem hmem with ⟨hs, heq⟩ | hmem
    · subst hs
      obtain rfl := congrArg Prod.fst heq
      exact absurd (h.probeLt _ hold) (not_lt.mpr ht.above)
    · exact h.plain pn packet' hold hmem
    · obtain rfl := congrArg Prod.snd heq
      exact ⟨hretx, hfr⟩
    · exact absurd (h.below _ _ hmem) (not_lt.mpr ht.above)
  · rw [hestab] at hearly
    obtain ⟨hnone, hnone'⟩ := h.early hearly
    refine ⟨Option.eq_none_iff_forall_ne_some.mpr fun pn hpn => ?_, hprev.trans hnone'⟩
    rcases hprb pn hpn with hold | ⟨-, -, -, -, htrue⟩
    · cases hnone.symm.trans hold
    · cases hearly.symm.trans htrue

theorem Tracks.exact (ht : Tracks c space n packet value c') (h : Recorded c) {e : Event} {d : Connection}
    (hsp : d.spaces = c'.spaces) (hfate : ∀ s x, fate config c e s x = none) (hsent : sentBy c e = [(space, n)])
    (hdet : detects c e = none) : Exact config c e d where
  moves s pn := by
    rw [outstanding_congr (c := c') (by rw [hsp]), ht.outstanding h, hsent, outstanding_iff]
    simp [hfate]
  queued space hspace := nomatch hdet.symm.trans hspace
  untouched space hspace := nomatch hdet.symm.trans hspace

end Tracks

theorem send_step (h : Recorded c) (config : PathConfig) {skip : Bool} {packet : SentPacket}
    (hprop : Proper c (.send space skip packet)) :
    Yields (Step config c (.send space skip packet)) (c.finishAndTrack space skip packet) := by
  refine (finishAndTrack_tracks hprop).imp fun c' ht => ?_
  obtain ⟨value, ht⟩ := ht
  refine ⟨ht.exact h rfl (fun _ _ => rfl) rfl rfl, h.tracks ht rfl (fun pn hpn => .inl ?_) ?_ ht.established, ht.next_le⟩
  · unfold Connection.probe at hpn
    rwa [ht.mtud] at hpn
  · unfold prevProbe
    rw [ht.prevPath]

theorem SameButCounters.probe (h : SameButCounters c c') : c'.probe = c.probe := by
  unfold Connection.probe
  rw [h.mtud]

theorem Step.idle (h : Recorded c) {e : Event} (hsp : c'.spaces = c.spaces)
    (hfate : ∀ s x, fate config c e s x = none) (hsent : sentBy c e = []) (hdet : detects c e = none)
    (hprb : ∀ pn, c'.probe = some pn → (c.probe = some pn ∨ c.prevProbe = some pn) ∧ c.outstanding .data pn = true)
    (hprev : ∀ pn, c'.prevProbe = some pn → c.probe = some pn ∨ c.prevProbe = some pn)
    (hestab : c'.established = false → c.established = false) : Step config c e c' := by
  have hout : ∀ s pn, c'.outstanding s pn = c.outstanding s pn := fun s pn => outstanding_congr (by rw [hsp]) pn
  have hnone : ∀ s, detects c e ≠ some s := fun s hs => nomatch hdet.symm.trans hs
  refine ⟨.idle hout hfate hsent (fun s hs => absurd hs (hnone s)) fun s hs => absurd hs (hnone s),
    h.shrink (fun s x hx => ⟨x, hsp ▸ hx, rfl, id, rfl⟩) (fun s => by rw [hsp]) (fun pn hpn => ?_) hprev
      hestab, fun s => by rw [hsp]⟩
  rw [hout]
  exact hprb pn hpn

theorem mtuProbe_step (h : Recorded c) (config : PathConfig) (now : Nat) (skip : Bool) :
    Yields (Step config c (.mtuProbe now skip)) (c.sendMtuProbe now skip) := by
  have hidle : ∀ mtud, c.probes now skip = false → c.path.mtud.Quiets mtud →
      Step config c (.mtuProbe now skip) (c.setMtud mtud) := fun mtud hprobes hquiets => by
    refine .idle h rfl (fun _ _ => rfl) ?_ rfl (fun pn hpn => ?_) (fun _ hpn => .inr hpn) fun hearly => hearly
    · simp [sentBy, hprobes]
    · exact ⟨.inl (hquiets pn hpn), h.probe pn (hquiets pn hpn)⟩
  have hpoll := c.path.mtud.pollTransmit_probe now (c.txNumber .data skip)
  unfold sendMtuProbe
  cases hestab : c.established with
  | false => exact hidle c.path.mtud (by simp [probes, hestab]) (MtuDiscovery.Quiets.refl _)
  | true =>
    rw [if_pos rfl]
    cases hres : c.path.mtud.pollTransmit now (c.txNumber .data skip) with
    | mk mtud size =>
      rw [hres] at hpoll
      cases size with
      | none => exact hidle mtud (by simp [probes, hres]) (hpoll.1 rfl)
      | some size =>
        have hprobes : sentBy c (.mtuProbe now skip) = [(.data, c.txNumber .data skip)] := by
          simp [sentBy, probes, hestab, hres]
        refine (@finishAndTrack_tracks (c.setMtud mtud) .data skip ⟨now, size, true, .empty, []⟩ (.inl rfl)).imp
          fun c' ht => ?_
        obtain ⟨value, ht⟩ := ht
        have ht' : Tracks c .data (c.txNumber .data skip) ⟨now, size, true, .empty, []⟩ value (c'.setMtud c.path.mtud) :=
          { ht with mtud := rfl }
        refine ⟨ht'.exact h rfl (fun _ _ => rfl) hprobes rfl, h.tracks ht' rfl (fun pn hpn => .inr ?_) ?_ ht.established,
          ht'.next_le⟩
        · unfold Connection.probe at hpn
          rw [ht.mtud] at hpn
          exact ⟨rfl, Option.some.inj (hpn.symm.trans (hpoll.2 size rfl)), rfl, rfl, hestab⟩
        · exact prevProbe_congr (congrArg _ ht.prevPath)

theorem replace_step (h : Recorded c) {value : PacketSpace} {number : Nat} {packet packet' : SentPacket}
    (hmem : (number, packet) ∈ (c.spaces space).sentPackets)
    (hsent : value.sentPackets = (c.spaces space).sentPackets.insert number packet')
    (hemp : packet'.retransmits = .empty) (hfr : packet.streamFrames = packet'.streamFrames)
    (hnext : value.nextPacketNumber = (c.spaces space).nextPacketNumber)
    (hfate : ∀ s x, fate config c e s x = none) (hnone : sentBy c e = []) (hdet : detects c e = none) :
    Step config c e (c.setSpace space value) := by
  have hout : ∀ s pn, (c.setSpace space value).outstanding s pn = c.outstanding s pn := by
    intro s pn
    rw [Bool.eq_iff_iff, outstanding_iff, outstanding_iff]
    constructor
    · rintro ⟨p, hp⟩
      rcases mem_send hsent hp with ⟨rfl, heq⟩ | ⟨hold, -⟩
      · obtain rfl : pn = number := congrArg Prod.fst heq
        exact ⟨packet, hmem⟩
      · exact ⟨p, hold⟩
    · rintro ⟨p, hp⟩
      by_cases hs : s = space
      · subst hs
        rw [setSpace_self, hsent]
        by_cases hpn : pn = number
        · exact ⟨packet', mem_insert.mpr (.inl (by rw [hpn]))⟩
        · exact ⟨p, mem_insert.mpr (.inr ⟨hpn, hp⟩)⟩
      · exact ⟨p, by rwa [setSpace_of_ne value hs]⟩
  have hno : ∀ s, detects c e ≠ some s := fun s hs => nomatch hdet.symm.trans hs
  have hle : ∀ s, (c.spaces s).nextPacketNumber ≤ ((c.setSpace space value).spaces s).nextPacketNumber := fun s =>
    setSpace_cases s hnext.ge fun _ => le_rfl
  refine ⟨.idle hout hfate hnone (fun s hs => absurd hs (hno s)) fun s hs => absurd hs (hno s),
    h.shrink (fun s x hx => ?_) hle (fun pn hpn => ?_) (fun _ hpn => .inr hpn) id, hle⟩
  · rcases mem_send hsent hx with ⟨rfl, rfl⟩ | ⟨hold, -⟩
    · exact ⟨(number, packet), hmem, rfl, fun _ => hemp, hfr⟩
    · exact ⟨x, hold, rfl, id, rfl⟩
  · rw [hout]
    exact ⟨.inl hpn, h.probe pn hpn⟩

theorem queueProbe_step (h : Recorded c) (config : PathConfig) (streams : StreamsState) (space : SpaceId) :
    Step config c (.queueProbe streams space) (c.maybeQueueProbe streams space) := by
  have hidle : Step config c (.queueProbe streams space) c :=
    .idle h rfl (fun _ _ => rfl) rfl rfl (fun pn hpn => ⟨.inl hpn, h.probe pn hpn⟩) (fun _ hpn => .inr hpn) id
  unfold maybeQueueProbe
  dsimp only
  split
  · exact hidle
  split
  · exact hidle
  next number packet hfind =>
  have hmem : (number, packet) ∈ (c.spaces space).sentPackets := mem_of_find?_eq_some hfind
  exact replace_step h hmem rfl rfl rfl rfl (fun _ _ => rfl) rfl rfl

/-! ### Abandoned packets -/

structure Empties (kept emptied : SpaceId → Prop) (c c' : Connection) : Prop where
  kept : ∀ s, kept s → (c'.spaces s).sentPackets = (c.spaces s).sentPackets
  emptied : ∀ s, emptied s → (c'.spaces s).sentPackets = .empty
  next : ∀ s, (c'.spaces s).nextPacketNumber = (c.spaces s).nextPacketNumber
  probe : c'.probe = c.probe
  prevProbe : c'.prevProbe = c.prevProbe
  established : c'.established = c.established

namespace Empties
variable {kept emptied : SpaceId → Prop} {d : Connection}

theorem refl (c : Connection) : Empties (fun _ => True) (fun _ => False) c c :=
  ⟨fun _ _ => rfl, fun _ h => h.elim, fun _ => rfl, rfl, rfl, rfl⟩

section
variable (he : Empties kept emptied c d)
include he

theorem same (hs : SameButCounters d c') : Empties kept emptied c c' where
  kept s hl := by rw [hs.spaces, he.kept s hl]
  emptied s hl := by rw [hs.spaces, he.emptied s hl]
  next s := by rw [hs.spaces, he.next s]
  probe := hs.probe.trans he.probe
  prevProbe := (prevProbe_congr hs.prevMtud).trans he.prevProbe
  established := hs.established.trans he.established

theorem setSpace {value : PacketSpace} (hnext : value.nextPacketNumber = (d.spaces space).nextPacketNumber) :
    Empties (fun s => kept s ∧ s ≠ space) (fun s => emptied s ∧ s ≠ space ∨ s = space ∧ value.sentPackets = .empty) c
      (d.setSpace space value) where
  __ := he
  kept s hl := by rw [setSpace_of_ne value hl.2, he.kept s hl.1]
  emptied s hl := by
    rcases hl with ⟨hl, hs⟩ | ⟨rfl, hsent⟩
    · rw [setSpace_of_ne value hs, he.emptied s hl]
    · rw [setSpace_self, hsent]
  next s := setSpace_cases s (hnext.trans (he.next _)) he.next

theorem imp {kept' emptied' : SpaceId → Prop} (hkept : ∀ s, kept' s → kept s)
    (hemptied : ∀ s, emptied' s → emptied s) : Empties kept' emptied' c d :=
  { he with kept := fun s hs => he.kept s (hkept s hs), emptied := fun s hs => he.emptied s (hemptied s hs) }

end

theorem step (he : Empties kept emptied c c') (hall : ∀ s, kept s ∨ emptied s) (h : Recorded c) {e : Event}
    (hdata : kept .data ∨ c.established = false) (hkept : ∀ s x, kept s → fate config c e s x = none)
    (hemptied : ∀ s x, emptied s → ∃ f, fate config c e s x = some f) (hsent : sentBy c e = [])
    (hdet : detects c e = none) : Step config c e c' := by
  have hmem : ∀ s x, x ∈ (c'.spaces s).sentPackets ↔ x ∈ (c.spaces s).sentPackets ∧ fate config c e s x = none := by
    intro s x
    rcases hall s with hs | hs
    · rw [he.kept s hs]
      exact (and_iff_left (hkept s x hs)).symm
    rw [he.emptied s hs]
    obtain ⟨f, hf⟩ := hemptied s x hs
    exact iff_of_false (not_mem_empty x) fun hx => nomatch hf.symm.trans hx.2
  have hno : ∀ s, detects c e ≠ some s := fun s hs => nomatch hdet.symm.trans hs
  refine ⟨⟨fun s pn => ?_, fun s hs => absurd hs (hno s), fun s hs => absurd hs (hno s)⟩,
    h.shrink (fun s x hx => ⟨x, ((hmem s x).mp hx).1, rfl, id, rfl⟩) (fun s => (he.next s).ge) (fun pn hpn => ?_)
      (fun pn hpn => .inr (he.prevProbe ▸ hpn)) fun hearly => he.established ▸ hearly,
    fun s => (he.next s).ge⟩
  · rw [outstanding_iff, hsent]
    simp [hmem]
  · rw [he.probe] at hpn
    rcases hdata with hdata | hearly
    · rw [outstanding_congr (he.kept .data hdata)]
      exact ⟨.inl hpn, h.probe pn hpn⟩
    · cases (h.early hearly).1.symm.trans hpn

end Empties

theorem discardSpace_empties {kept emptied : SpaceId → Prop} (he : Empties kept emptied c d)
    (space : SpaceId) : Yields (Empties (fun s => kept s ∧ s ≠ space) (fun s => emptied s ∧ s ≠ space ∨ s = space) c)
      (d.discardSpace space) := by
  refine (abandonAll_same _).imp fun d' hd' => ?_
  have hset := @Empties.setSpace _ space _ _ _ he
    { d.spaces space with lossTime := none, inFlight := 0, sentPackets := .empty } rfl
  exact (hset.same hd').imp (fun _ hs => hs) fun _ hs => hs.imp_right fun hs => ⟨hs, rfl⟩

theorem discardSpace_step (h : Recorded c) (config : PathConfig) (hspace : space ≠ .data) :
    Yields (Step config c (.discardSpace space)) (c.discardSpace space) := by
  refine (discardSpace_empties (Empties.refl c) space).imp fun c' he => ?_
  refine he.step (fun s => ?_) h (.inl ⟨trivial, hspace.symm⟩) (fun s x hs => if_neg fun h => hs.2 h.1) (fun s x hs => ?_)
    rfl rfl
  · by_cases hs : s = space
    · exact .inr (.inr hs)
    · exact .inl ⟨trivial, hs⟩
  · rcases hs with hs | hs
    · exact hs.1.elim
    · exact ⟨.abandoned, if_pos ⟨hs, hspace⟩⟩

theorem rejectZeroRtt_step (h : Recorded c) (config : PathConfig) (hearly : c.established = false) :
    Yields (Step config c .rejectZeroRtt) c.rejectZeroRtt := by
  refine (abandonAll_same _).imp fun c' hc' => ?_
  have hset := @Empties.setSpace _ .data _ _ _ (Empties.refl c)
    { c.spaces .data with pending := .empty, sentPackets := .empty } rfl
  refine (hset.same hc').step (fun s => ?_) h (.inr hearly) (fun s x hs => if_neg fun h => hs.2 h.2) (fun s x hs => ?_)
    rfl rfl
  · by_cases hs : s = .data
    · exact .inr (.inr ⟨hs, rfl⟩)
    · exact .inl ⟨trivial, hs⟩
  · rcases hs with hs | hs
    · exact hs.1.elim
    · exact ⟨.abandoned, if_pos ⟨hearly, hs.1⟩⟩

theorem inferAck_empties (c : Connection) (space : SpaceId) (pn : Nat) :
    Yields (Empties (fun s => s ≠ space) (fun _ => False) c) (c.inferAck space pn) := by
  have htake : Yields (fun r : PacketSpace × Option SentPacket => r.1.nextPacketNumber = (c.spaces space).nextPacketNumber)
      ((c.spaces space).take pn) := by
    unfold PacketSpace.take
    split
    · rfl
    next packet _ =>
    cases checkedSub (c.spaces space).inFlight packet.size with
    | none => trivial
    | some inFlight => rfl
  refine htake.bind fun r hr => ?_
  have hset : Empties (fun s => s ≠ space) (fun _ => False) c (c.setSpace space r.1) :=
    ((Empties.refl c).setSpace hr).imp (fun _ hs => ⟨trivial, hs⟩) nofun
  obtain ⟨value, info⟩ := r
  cases info with
  | none => exact hset
  | some packet => exact (removeInFlight_same _ pn packet).imp fun d hd => hset.same hd

theorem requeueZeroRtt_empties {kept emptied : SpaceId → Prop} (he : Empties kept emptied c d) :
    Yields (Empties (fun s => kept s ∧ s ≠ .data) (fun s => emptied s ∧ s ≠ .data ∨ s = .data) c) d.requeueZeroRtt := by
  have hset := (@Empties.setSpace _ .data _ _ _ he { d.spaces .data with sentPackets := .empty } rfl).imp
    (fun s hs => hs) fun s (hs : emptied s ∧ s ≠ .data ∨ s = .data) => hs.imp_right fun hs => ⟨hs, rfl⟩
  refine Holds.forEach (fun _ d => Empties (fun s => kept s ∧ s ≠ .data) (fun s => emptied s ∧ s ≠ .data ∨ s = .data) c d)
    (fun d e _ hd => ?_) _ hset
  refine (removeInFlight_same d e.1 e.2).bind fun d' hd' => ?_
  have hd' := hd.same hd'
  have hpend := @Empties.setSpace _ .data _ _ _ hd' { d'.spaces .data with
    pending := (d'.spaces .data).pending.merge e.2.retransmits } rfl
  refine hpend.imp (fun s hs => ⟨hs, hs.2⟩) fun s hs => ?_
  rcases hs with hs | hs
  · exact .inl ⟨.inl hs, hs.2⟩
  · exact .inr ⟨hs, hd'.emptied .data (.inr rfl)⟩

theorem retry_step (h : Recorded c) (config : PathConfig) (clientHello : Bytes) (hearly : c.established = false) :
    Yields (Step config c (.retry clientHello)) (c.onRetry clientHello) := by
  refine (inferAck_empties c .initial 0).bind fun d hd => (discardSpace_empties hd .initial).bind fun d hd => ?_
  have hset := @Empties.setSpace _ .initial _ _ _ hd { PacketSpace.new with
    nextPacketNumber := (d.spaces .initial).nextPacketNumber
    pending := { Pending.empty with crypto := [⟨0, clientHello⟩] } } rfl
  refine (requeueZeroRtt_empties hset).imp fun c' he => ?_
  have he' : Empties (fun s => s = .handshake) (fun s => s ≠ .handshake) c c' := he.imp (fun s hs => ?_) fun s hs => ?_
  · refine he'.step (fun s => em _) h (.inr hearly) (fun s x hs => ?_) (fun s x hs => ?_) rfl rfl
    · exact if_pos (.inr hs)
    · refine ⟨if s = .initial ∧ x.1 = 0 then .acked else .abandoned, (if_neg (by simp [hearly, hs])).trans ?_⟩
      split <;> rfl
  · subst hs
    exact ⟨⟨⟨nofun, nofun⟩, nofun⟩, nofun⟩
  · cases s with
    | initial => exact .inl ⟨.inr ⟨rfl, rfl⟩, nofun⟩
    | handshake => exact absurd rfl hs
    | data => exact .inr rfl

/-! ### Paths -/

theorem newPath_probe (remote : SocketAddr) (allowMtud : Bool) (peerMax : Option Nat) (config : PathConfig) :
    (PathData.new remote allowMtud peerMax config).mtud.inFlightMtuProbe = none := by
  unfold PathData.new
  cases config.mtuDiscoveryConfig.filter fun _ => allowMtud with
  | none => rfl
  | some mtudConfig => exact MtuDiscovery.new_probe _ _ _ _

theorem migrate_step (h : Recorded c) (config : PathConfig) (allowMtud : Bool) (peerMax : Nat) (remote : SocketAddr)
    (token prevToken : Nat) : Step config c (.migrate allowMtud peerMax remote token prevToken)
      (c.migrate config allowMtud peerMax remote token prevToken) := by
  refine .idle h rfl (fun _ _ => rfl) rfl rfl (fun pn hpn => ?_) (fun pn hpn => ?_) fun hearly => hearly
  · have hprb : c.probe = some pn := by
      unfold migrate Connection.probe at hpn
      split at hpn
      · exact hpn
      · cases (newPath_probe remote allowMtud _ config).symm.trans hpn
    exact ⟨.inl hprb, h.probe pn hprb⟩
  · unfold migrate prevProbe at hpn
    dsimp only at hpn
    split at hpn
    · exact .inl hpn
    · exact .inr hpn

theorem pathResponse_step (h : Recorded c) (config : PathConfig) (token : Nat) (remote : SocketAddr) :
    Step config c (.pathResponse token remote) (c.onPathResponse token remote) := by
  unfold onPathResponse
  split
  · refine .idle h rfl (fun _ _ => rfl) rfl rfl (fun pn hpn => ⟨.inl hpn, h.probe pn hpn⟩) (fun pn hpn => .inr ?_) id
    rw [← hpn]
    refine (prevProbe_congr ?_).symm
    rw [Option.map_map]
    rfl
  · exact .idle h rfl (fun _ _ => rfl) rfl rfl (fun pn hpn => ⟨.inl hpn, h.probe pn hpn⟩) (fun _ hpn => .inr hpn) id

theorem pathValidation_step (h : Recorded c) (config : PathConfig) (hprop : Proper c .pathValidation) :
    Step config c .pathValidation c.onPathValidationTimeout := by
  unfold onPathValidationTimeout
  split
  · next htm =>
    cases hprev : c.prevPath with
    | none =>
      exact .idle h rfl (fun _ _ => rfl) rfl rfl (fun pn hpn => ⟨.inl hpn, h.probe pn hpn⟩) (fun _ hpn => .inr hpn) id
    | some prev =>
      refine .idle h rfl (fun _ _ => rfl) rfl rfl (fun pn hpn => ?_) nofun id
      have hprb : c.prevProbe = some pn := by
        unfold prevProbe
        rw [hprev]
        exact hpn
      exact ⟨.inr hprb, hprop htm pn hprb⟩
  · exact .idle h rfl (fun _ _ => rfl) rfl rfl (fun pn hpn => ⟨.inl hpn, h.probe pn hpn⟩) (fun _ hpn => .inr hpn) id

theorem Recorded.step (h : Recorded c) (config : PathConfig) {e : Event} (hprop : Proper c e) :
    Yields (Step config c e) (c.step config e) := by
  have hidle : ∀ e, (∀ s x, fate config c e s x = none) → sentBy c e = [] → detects c e = none → Step config c e c :=
    fun e hfate hsent hdet =>
      .idle h rfl hfate hsent hdet (fun pn hpn => ⟨.inl hpn, h.probe pn hpn⟩) (fun _ hpn => .inr hpn) id
  cases e with
  | send space skip packet => exact send_step h config hprop
  | sendUntracked skip =>
    have hm : Marked .data c (c.setSpace .data { c.spaces .data with nextPacketNumber := c.txNumber .data skip + 1 }) :=
      .setSpace rfl ((le_txNumber .data skip).trans (Nat.le_succ _)) rfl
    have hm' : Marked .data c (c.allocate .data skip) :=
      { hm with }
    exact hm'.step h (fun _ hs => nomatch hs) (fun _ _ => rfl) rfl
  | mtuProbe now skip => exact mtuProbe_step h config now skip
  | queueProbe streams space => exact queueProbe_step h config streams space
  | ack space ack now lossDelay => exact ack_step h config space ack now lossDelay hprop
  | lossDetection now lossDelay => exact lossDetection_step h config now lossDelay hprop
  | discardSpace space =>
    unfold Connection.step
    dsimp only
    split
    · next hspace => exact hidle _ (fun s x => if_neg fun hs => hs.2 hspace) rfl rfl
    · next hspace => exact discardSpace_step h config hspace
  | retry clientHello =>
    unfold Connection.step
    dsimp only
    split
    · next hest => exact hidle _ (fun s x => if_pos (.inl hest)) rfl rfl
    · next hest => exact retry_step h config clientHello (Bool.eq_false_iff.mpr hest)
  | rejectZeroRtt =>
    unfold Connection.step
    dsimp only
    split
    · next hest => exact hidle _ (fun s x => if_neg fun hs => Bool.false_ne_true (hs.1.symm.trans hest)) rfl rfl
    · next hest => exact rejectZeroRtt_step h config (Bool.eq_false_iff.mpr hest)
  | establish =>
    exact .idle h rfl (fun _ _ => rfl) rfl rfl (fun pn hpn => ⟨.inl hpn, h.probe pn hpn⟩) (fun _ hpn => .inr hpn) nofun
  | migrate allowMtud peerMax remote token prevToken => exact migrate_step h config allowMtud peerMax remote token prevToken
  | pathResponse token remote => exact pathResponse_step h config token remote
  | pathValidation => exact pathValidation_step h config hprop
  | pathChanged =>
    refine .idle h rfl (fun _ _ => rfl) rfl rfl (fun pn hpn => ?_) (fun _ hpn => .inr hpn) id
    cases (c.path.mtud.reset_probe config.initialMtu config.minMtu).symm.trans hpn

/-! ### Runs -/

def departures (c c' : Connection) : List (SpaceId × Nat) :=
  [SpaceId.initial, .handshake, .data].flatMap fun s =>
    (((c.spaces s).sentPackets.entries.map Prod.fst).filter fun pn => !c'.outstanding s pn).map fun pn => (s, pn)

theorem mem_departures : (s, pn) ∈ departures c c' ↔ c.outstanding s pn = true ∧ c'.outstanding s pn = false := by
  have hs : s ∈ [SpaceId.initial, .handshake, .data] := by cases s <;> simp
  unfold departures
  rw [outstanding_iff]
  simp only [mem_flatMap, mem_map, mem_filter, Bool.not_eq_true', Prod.mk.injEq]
  constructor
  · rintro ⟨_, -, _, ⟨⟨e, he, rfl⟩, hout⟩, rfl, rfl⟩
    exact ⟨⟨e.2, he⟩, hout⟩
  · rintro ⟨⟨packet, hmem⟩, hout⟩
    exact ⟨s, hs, pn, ⟨⟨(pn, packet), hmem, rfl⟩, hout⟩, rfl, rfl⟩

theorem departures_nodup (c c' : Connection) : (departures c c').Nodup := by
  refine nodup_flatMap.mpr ⟨fun s _ => ?_, ?_⟩
  · have hkeys : ((c.spaces s).sentPackets.entries.map Prod.fst).Nodup :=
      pairwise_map.mpr ((c.spaces s).sentPackets.sorted.imp fun hlt => hlt.ne)
    exact (hkeys.filter _).map fun _ _ heq => (Prod.mk.inj heq).2
  · have hsp : [SpaceId.initial, .handshake, .data].Pairwise (· ≠ ·) := by decide
    refine hsp.imp fun hne x hx hx' => ?_
    obtain ⟨_, -, rfl⟩ := mem_map.mp hx
    obtain ⟨_, -, heq⟩ := mem_map.mp hx'
    exact hne (Prod.mk.inj heq).1.symm

theorem sentBy_above (h : (s, pn) ∈ sentBy c e) : (c.spaces s).nextPacketNumber ≤ pn := by
  have htx : ∀ {space skip}, (s, pn) ∈ [(space, c.txNumber space skip)] → (c.spaces s).nextPacketNumber ≤ pn := by
    intro space skip hin
    obtain ⟨rfl, rfl⟩ := Prod.mk.inj (mem_singleton.mp hin)
    exact le_txNumber _ _
  unfold sentBy at h
  split at h
  · exact htx h
  · split at h
    · exact htx h
    · cases h
  · cases h

structure Watch where
  conn : Connection
  sent : List (SpaceId × Nat)
  gone : List (SpaceId × Nat)

namespace Watch

def step (config : PathConfig) (w : Watch) (e : Event) : Option Watch :=
  (w.conn.step config e).toOption.map fun conn =>
    ⟨conn, w.sent ++ sentBy w.conn e, w.gone ++ departures w.conn conn⟩

inductive Start (config : PathConfig) : Watch → Prop
  | intro (remote : SocketAddr) (allowMtud : Bool) : Start config ⟨.new remote allowMtud config, [], []⟩

/-- Packets that were sent are outstanding or have left, once. -/
structure Kept (w : Watch) : Prop where
  recorded : Recorded w.conn
  sentLt : ∀ s pn, (s, pn) ∈ w.sent → pn < (w.conn.spaces s).nextPacketNumber
  outstanding : ∀ s pn, w.conn.outstanding s pn = true → (s, pn) ∈ w.sent ∧ (s, pn) ∉ w.gone
  gone : ∀ s pn, (s, pn) ∈ w.sent → w.conn.outstanding s pn = false → w.gone.count (s, pn) = 1
  goneSent : ∀ s pn, (s, pn) ∈ w.gone → (s, pn) ∈ w.sent

variable {w : Watch}

theorem Start.kept (h : Start config w) : Kept w := by
  obtain ⟨remote, allowMtud⟩ := h
  have hprb := newPath_probe remote allowMtud none config
  have hemp : ∀ s (e : Nat × SentPacket), e ∉ ((new remote allowMtud config).spaces s).sentPackets :=
    fun _ => not_mem_empty
  refine ⟨⟨fun s e he => absurd he (hemp s e), fun pn hpn => absurd (hprb.symm.trans hpn) nofun, fun pn hpn => ?_,
    fun pn packet _ hmem => absurd hmem (hemp _ _), fun _ => ⟨hprb, rfl⟩⟩, nofun, nofun, nofun, nofun⟩
  rcases hpn with hpn | hpn
  · cases hprb.symm.trans hpn
  · cases hpn

theorem Kept.step (h : Kept w) {e : Event} {conn : Connection} (hs : Step config w.conn e conn) :
    Kept ⟨conn, w.sent ++ sentBy w.conn e, w.gone ++ departures w.conn conn⟩ := by
  have hmoves := hs.exact.moves
  -- A packet that is outstanding was so before, or it was just sent, with a number that is new.
  have hold : ∀ s pn, conn.outstanding s pn = true → w.conn.outstanding s pn = true ∨ (s, pn) ∈ sentBy w.conn e :=
    fun s pn hout => ((hmoves s pn).mp hout).imp_left fun ⟨packet, hmem, _⟩ => outstanding_iff.mpr ⟨packet, hmem⟩
  have hnew : ∀ s pn, (s, pn) ∈ sentBy w.conn e → (s, pn) ∉ w.sent := fun s pn hsent hin =>
    absurd (h.sentLt s pn hin) (not_lt.mpr (sentBy_above hsent))
  have hcnt : ∀ s pn, (w.gone ++ departures w.conn conn).count (s, pn) = w.gone.count (s, pn) +
      if w.conn.outstanding s pn = true ∧ conn.outstanding s pn = false then 1 else 0 := fun s pn => by
    rw [count_append]
    split
    · next hgone => rw [count_eq_one_of_mem (departures_nodup _ _) (mem_departures.mpr hgone)]
    · next hkept => rw [count_eq_zero.mpr fun hgone => hkept (mem_departures.mp hgone)]
  refine ⟨hs.recorded, fun s pn hin => ?_, fun s pn hout => ?_, fun s pn hin hout => ?_, fun s pn hin => ?_⟩
  · rcases mem_append.mp hin with hin | hin
    · exact (h.sentLt s pn hin).trans_le (hs.next s)
    obtain ⟨packet, hmem⟩ := outstanding_iff.mp ((hmoves s pn).mpr (.inr hin))
    exact hs.recorded.below s _ hmem
  · rcases hold s pn hout with hwas | hsent
    · obtain ⟨hin, hgone⟩ := h.outstanding s pn hwas
      refine ⟨mem_append_left _ hin, fun hgone' => ?_⟩
      rcases mem_append.mp hgone' with hgone' | hgone'
      · exact hgone hgone'
      · exact Bool.false_ne_true ((mem_departures.mp hgone').2.symm.trans hout)
    refine ⟨mem_append_right _ hsent, fun hgone => ?_⟩
    rcases mem_append.mp hgone with hgone | hgone
    · exact hnew s pn hsent (h.goneSent s pn hgone)
    · exact Bool.false_ne_true ((mem_departures.mp hgone).2.symm.trans hout)
  · rw [hcnt]
    rcases mem_append.mp hin with hin | hin
    · cases hwas : w.conn.outstanding s pn with
      | true =>
        rw [count_eq_zero.mpr (h.outstanding s pn hwas).2, if_pos ⟨rfl, hout⟩]
      | false => rw [h.gone s pn hin hwas, if_neg (by simp)]
    · exact absurd ((hmoves s pn).mpr (.inr hin)) (by rw [hout]; nofun)
  · rcases mem_append.mp hin with hin | hin
    · exact mem_append_left _ (h.goneSent s pn hin)
    · exact mem_append_left _ (h.outstanding s pn (mem_departures.mp hin).1).1

def searchingConfig : PathConfig := ⟨1200, 1200, some ⟨600, 1452, 60, 20⟩, 3⟩

def fresh : Watch := ⟨.new ⟨true, 1, 4433⟩ true searchingConfig, [], []⟩

def plainPacket : SentPacket := ⟨10, 1200, true, { Pending.empty with handshakeDone := true }, []⟩

end Watch
end SaorsaTransport.Recovery
