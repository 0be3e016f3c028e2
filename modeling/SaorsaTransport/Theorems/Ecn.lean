import SaorsaTransport.Path
import SaorsaTransport.Theorems.ArrayRangeSet

/-! What ECN validation notices. The counters of an ACK frame are compared with the number of ranges that its newly
    acknowledged packets form, and only when its largest number is new. A peer that reports what it received never fails. -/

namespace SaorsaTransport
open Library EcnSpace Prod

namespace EcnSpace

structure Ordered (v : EcnSpace) : Prop where
  sorted : v.sentPackets.Pairwise (· < ·)
  below : ∀ pn ∈ v.sentPackets, pn < v.nextPacketNumber
  next : v.nextPacketNumber ≤ 2 ^ 62

theorem foldl_insertOne : ∀ (ps : List Nat) {set : ArrayRangeSet}, Tidy set.ranges → (∀ p ∈ ps, p < 2 ^ 62) →
    Tidy (ps.foldl (fun set pn => (set.insertOne pn).1) set).ranges ∧
      ∀ o, o ∈ points (ps.foldl (fun set pn => (set.insertOne pn).1) set).ranges ↔ o ∈ points set.ranges ∨ o ∈ ps
  | [], set, h, _ => ⟨h, fun o => by simp⟩
  | p :: ps, set, h, hlt => by
    obtain ⟨htidy, hpts, -⟩ := ArrayRangeSet.insert_spec (x := (p, wrappingAdd p 1)) h
    have hone : wrappingAdd p 1 = p + 1 := by
      refine wrappingAdd_of_le ?_
      have hp := hlt p List.mem_cons_self
      have hmax : (2 : Nat) ^ 62 ≤ u64Max := by decide
      omega
    obtain ⟨htidy', hpts'⟩ := foldl_insertOne ps htidy fun q hq => hlt q (List.mem_cons_of_mem _ hq)
    refine ⟨htidy', fun o => ?_⟩
    have hspan : InSpan (p, wrappingAdd p 1) o ↔ o = p := by
      rw [hone]
      exact ⟨fun h => le_antisymm (Nat.le_of_lt_succ h.2) h.1, fun h => h ▸ ⟨le_rfl, lt_add_one _⟩⟩
    exact (hpts' o).trans (by rw [hpts o, hspan, List.mem_cons, or_assoc])

variable {v : EcnSpace}

theorem foldl_ranges (h : v.Ordered) : ∀ (ranges : List (Nat × Nat)) {set : ArrayRangeSet}, Tidy set.ranges →
    Tidy (ranges.foldl (fun set range => (v.sentPackets.filter fun pn => range.1 ≤ pn && pn ≤ range.2).foldl
        (fun set pn => (set.insertOne pn).1) set) set).ranges ∧
      ∀ o, o ∈ points (ranges.foldl (fun set range => (v.sentPackets.filter fun pn => range.1 ≤ pn && pn ≤ range.2).foldl
          (fun set pn => (set.insertOne pn).1) set) set).ranges ↔
        o ∈ points set.ranges ∨ o ∈ v.sentPackets ∧ (ranges.any fun range => range.1 ≤ o && o ≤ range.2) = true
  | [], set, hset => ⟨hset, fun o => by simp⟩
  | range :: ranges, set, hset => by
    have hlt : ∀ p ∈ v.sentPackets.filter fun pn => range.1 ≤ pn && pn ≤ range.2, p < 2 ^ 62 := fun p hp =>
      (h.below p (List.mem_of_mem_filter hp)).trans_le h.next
    obtain ⟨htidy, hpts⟩ := foldl_insertOne _ hset hlt
    obtain ⟨htidy', hpts'⟩ := foldl_ranges h ranges htidy
    refine ⟨htidy', fun o => (hpts' o).trans ?_⟩
    rw [hpts o, List.mem_filter, List.any_cons, Bool.or_eq_true, and_or_left, or_assoc]

theorem newlyAcked_spec (h : v.Ordered) (ack : EcnAck) :
    Tidy (v.newlyAcked ack).ranges ∧ ∀ o, o ∈ points (v.newlyAcked ack).ranges ↔ o ∈ v.acked ack := by
  have hnew : Tidy ArrayRangeSet.new.ranges := tidy_nil
  obtain ⟨htidy, hpts⟩ := foldl_ranges h ack.ranges hnew
  refine ⟨htidy, fun o => (hpts o).trans ?_⟩
  rw [acked, List.mem_filter]
  simp [ArrayRangeSet.new, EcnAck.covers]

theorem Ordered.nodup_acked (h : v.Ordered) (ack : EcnAck) : (v.acked ack).Nodup :=
  (h.sorted.imp ne_of_lt).filter _

theorem len_newlyAcked_le (h : v.Ordered) (ack : EcnAck) : (v.newlyAcked ack).len ≤ (v.acked ack).length :=
  (newlyAcked_spec h ack).1.length_le fun o ho => ((newlyAcked_spec h ack).2 o).mp ho

theorem len_newlyAcked_eq (h : v.Ordered) {ack : EcnAck} (hapart : ∀ pn ∈ v.acked ack, pn + 1 ∉ v.acked ack) :
    (v.newlyAcked ack).len = (v.acked ack).length :=
  (newlyAcked_spec h ack).1.length_eq (h.nodup_acked ack) (newlyAcked_spec h ack).2 hapart

theorem isEmpty_newlyAcked (h : v.Ordered) (ack : EcnAck) : (v.newlyAcked ack).isEmpty = true ↔ v.acked ack = [] := by
  obtain ⟨htidy, hpts⟩ := newlyAcked_spec h ack
  constructor
  · intro hemp
    have hnil := List.isEmpty_iff.mp hemp
    refine List.eq_nil_iff_forall_not_mem.mpr fun o ho => ?_
    have := (hpts o).mpr ho
    rw [hnil, points_nil] at this
    exact this
  · intro hnil
    refine List.isEmpty_iff.mpr (List.eq_nil_iff_forall_not_mem.mpr fun r hr => ?_)
    have := (hpts r.1).mp ⟨r, hr, le_rfl, htidy.lt r hr⟩
    rw [hnil] at this
    exact List.not_mem_nil this

theorem filter_newlyAcked (h : v.Ordered) (ack : EcnAck) :
    (v.sentPackets.filter fun pn => !(v.newlyAcked ack).contains pn) = v.sentPackets.filter fun pn => !ack.covers pn := by
  obtain ⟨htidy, hpts⟩ := newlyAcked_spec h ack
  refine List.filter_congr fun pn hpn => congrArg _ ?_
  rw [Bool.eq_iff_iff, ArrayRangeSet.contains_iff htidy, hpts pn, acked, List.mem_filter]
  exact ⟨fun hc => hc.2, fun hc => ⟨hpn, hc⟩⟩

/-- The counters have not gone down, and those of ECT(0) and CE went up by as much as was acknowledged. -/
structure Accepts (v : EcnSpace) (n : Nat) (ecn : EcnCounts) : Prop where
  ect0 : v.ecnFeedback.ect0 ≤ ecn.ect0
  ect1 : ecn.ect1 = v.ecnFeedback.ect1
  ce : v.ecnFeedback.ce ≤ ecn.ce
  enough : v.ecnFeedback.ect0 + v.ecnFeedback.ce + n ≤ ecn.ect0 + ecn.ce

theorem detectEcn_cases (v : EcnSpace) (n : Nat) (ecn : EcnCounts) :
    v.Accepts n ecn ∧ (∃ congestion, v.detectEcn n ecn = .ok (congestion, { v with ecnFeedback := ecn })) ∨
      ¬v.Accepts n ecn ∧ ∃ error, v.detectEcn n ecn = .error error := by
  unfold detectEcn
  dsimp only
  split
  · exact .inr ⟨fun h => absurd h.ect0 (by omega), _, rfl⟩
  split
  · exact .inr ⟨fun h => absurd h.ect1 (by omega), _, rfl⟩
  split
  · exact .inr ⟨fun h => absurd h.ce (by omega), _, rfl⟩
  split
  · refine .inr ⟨fun h => ?_, _, rfl⟩
    have := h.enough
    omega
  split
  · refine .inr ⟨fun h => ?_, _, rfl⟩
    have := h.enough
    have := h.ect1
    omega
  · exact .inl ⟨⟨by omega, by omega, by omega, by omega⟩, _, rfl⟩

theorem Ordered.shrink {v v' : EcnSpace} (h : v.Ordered) (hsub : v'.sentPackets.Sublist v.sentPackets)
    (hnext : v'.nextPacketNumber = v.nextPacketNumber) : v'.Ordered :=
  ⟨h.sorted.sublist hsub, fun pn hpn => hnext ▸ h.below pn (hsub.subset hpn), hnext ▸ h.next⟩

end EcnSpace

namespace EcnPath
variable {s t : EcnPath} {space : SpaceId} {ack : EcnAck}

theorem setSpace_self (s : EcnPath) (space : SpaceId) (value : EcnSpace) : (s.setSpace space value).spaces space = value :=
  Function.update_self _ _ _

theorem setSpace_of_ne (s : EcnPath) {space other : SpaceId} (value : EcnSpace) (h : other ≠ space) :
    (s.setSpace space value).spaces other = s.spaces other :=
  Function.update_of_ne h _ _

def largestAfter (v : EcnSpace) (ack : EcnAck) : Option Nat :=
  if v.newLargest ack then some ack.largest else v.largestAckedPacket

def afterAck (v : EcnSpace) (ack : EcnAck) : EcnSpace :=
  { v with
    largestAckedPacket := largestAfter v ack
    sentPackets := v.sentPackets.filter fun pn => !ack.covers pn }

/-- What an accepted ACK frame does: it may acknowledge nothing new, or its counters may be looked at. -/
theorem onAckReceived_cases (hv : (s.spaces space).Ordered) (h : s.onAckReceived space ack = .ok t) :
    (s.spaces space).acked ack = [] ∧
        t = s.setSpace space { s.spaces space with largestAckedPacket := largestAfter (s.spaces space) ack } ∨
      (s.spaces space).acked ack ≠ [] ∧
        t = (s.setSpace space (afterAck (s.spaces space) ack)).onAckEcn space ((s.spaces space).newLargest ack)
          ((s.spaces space).newlyAcked ack).len ack.ecn := by
  unfold onAckReceived at h
  dsimp only at h
  split at h
  · cases h
  split at h
  · cases h
  split at h
  · next hemp => exact .inl ⟨(isEmpty_newlyAcked hv ack).mp hemp, (Except.ok.inj h).symm⟩
  next hemp =>
  refine .inr ⟨fun hnil => hemp ((isEmpty_newlyAcked hv ack).mpr hnil), ?_⟩
  rw [filter_newlyAcked hv] at h
  exact (Except.ok.inj h).symm

def Ordered (s : EcnPath) : Prop := ∀ space, (s.spaces space).Ordered

theorem Ordered.setSpace (h : s.Ordered) {value : EcnSpace} (hvalue : value.Ordered) : (s.setSpace space value).Ordered :=
  (Function.forall_update_iff s.spaces fun _ value => value.Ordered).mpr ⟨hvalue, fun other _ => h other⟩

theorem processEcn_cases (s : EcnPath) (space : SpaceId) (n : Nat) (ecn : EcnCounts) :
    (s.spaces space).Accepts n ecn ∧
        s.processEcn space n ecn = s.setSpace space { s.spaces space with ecnFeedback := ecn } ∨
      ¬(s.spaces space).Accepts n ecn ∧
        s.processEcn space n ecn =
          { s.setSpace space { s.spaces space with ecnFeedback := .zero } with sendingEcn := false } := by
  unfold processEcn
  rcases detectEcn_cases (s.spaces space) n ecn with ⟨hacc, congestion, hdetect⟩ | ⟨hnot, error, hdetect⟩
  · exact .inl ⟨hacc, by rw [hdetect]⟩
  · exact .inr ⟨hnot, by rw [hdetect]⟩

theorem onAckEcn_eq (s : EcnPath) (space : SpaceId) (newLargest : Bool) (n : Nat) (ecn : EcnCounts) :
    s.onAckEcn space newLargest n (some ecn) =
      if s.sendingEcn = true ∧ newLargest = true then s.processEcn space n ecn else s := by
  unfold onAckEcn
  cases s.sendingEcn <;> cases newLargest <;> rfl

theorem onAckEcn_spaces (s : EcnPath) (space : SpaceId) (newLargest : Bool) (n : Nat) (ecn : Option EcnCounts)
    (other : SpaceId) : ∃ feedback,
    (s.onAckEcn space newLargest n ecn).spaces other = { s.spaces other with ecnFeedback := feedback } := by
  have hset : ∀ feedback, ∃ feedback', (s.setSpace space { s.spaces space with ecnFeedback := feedback }).spaces other =
        { s.spaces other with ecnFeedback := feedback' } := by
    intro feedback
    by_cases ho : other = space
    · exact ⟨feedback, by rw [ho, setSpace_self]⟩
    · exact ⟨_, by rw [setSpace_of_ne s _ ho]⟩
  unfold onAckEcn
  split
  · split
    · next counts =>
      split
      · rcases processEcn_cases s space n counts with ⟨-, heq⟩ | ⟨-, heq⟩
        · rw [heq]
          exact hset _
        rw [heq]
        exact hset _
      · exact ⟨_, rfl⟩
    · exact ⟨_, rfl⟩
  · exact ⟨_, rfl⟩

theorem Ordered.onAckEcn (h : s.Ordered) (newLargest : Bool) (n : Nat) (ecn : Option EcnCounts) :
    (s.onAckEcn space newLargest n ecn).Ordered := by
  intro other
  obtain ⟨feedback, hspace⟩ := onAckEcn_spaces s space newLargest n ecn other
  rw [hspace]
  exact (h other).shrink (List.Sublist.refl _) rfl

theorem Ordered.onAckReceived (h : s.Ordered) (hack : s.onAckReceived space ack = .ok t) : t.Ordered := by
  rcases onAckReceived_cases (h space) hack with ⟨-, rfl⟩ | ⟨-, rfl⟩
  · exact h.setSpace ((h space).shrink (List.Sublist.refl _) rfl)
  have hleft : (afterAck (s.spaces space) ack).Ordered := (h space).shrink List.filter_sublist rfl
  exact (h.setSpace hleft).onAckEcn _ _ _

theorem Ordered.send (h : s.Ordered) {skip : Bool} (hsend : s.send space skip = some t) : t.Ordered := by
  unfold EcnPath.send at hsend
  dsimp only at hsend
  split at hsend
  · next hlt =>
    cases hsend
    have hle : (s.spaces space).nextPacketNumber ≤ s.txNumber space skip := le_self_add
    refine Ordered.setSpace h ⟨?_, fun pn hpn => ?_, hlt⟩
    · refine List.pairwise_append.mpr ⟨(h space).sorted, List.pairwise_singleton _ _, fun pn hpn m hm => ?_⟩
      rw [List.mem_singleton.mp hm]
      exact ((h space).below pn hpn).trans_le hle
    · rcases List.mem_append.mp hpn with hpn | hpn
      · exact (((h space).below pn hpn).trans_le hle).trans (lt_add_one _)
      rw [List.mem_singleton.mp hpn]
      exact lt_add_one _
  · cases hsend

theorem Ordered.lose (h : s.Ordered) (pn : Nat) : (s.lose space pn).Ordered := by
  have hleft : EcnSpace.Ordered { s.spaces space with
      sentPackets := (s.spaces space).sentPackets.filter fun m => m ≠ pn } :=
    (h space).shrink List.filter_sublist rfl
  exact h.setSpace hleft

theorem Ordered.new : EcnPath.new.Ordered := fun _ => ⟨List.Pairwise.nil, by simp [EcnPath.new, EcnSpace.new], zero_le⟩

theorem Ordered.step (h : s.Ordered) {event : Event} (hstep : s.step event = some t) : t.Ordered := by
  cases event with
  | send space skip => exact h.send hstep
  | ack space ack =>
    cases hack : s.onAckReceived space ack with
    | error e => simp [EcnPath.step, hack, Except.toOption] at hstep
    | ok u =>
      obtain rfl : u = t := by simpa [EcnPath.step, hack, Except.toOption] using hstep
      exact h.onAckReceived hack
  | lose space pn => exact Option.some.inj hstep ▸ h.lose pn

/-- The counters grew by less than `n`, in all or without those of ECT(1). -/
def Bleached (feedback ecn : EcnCounts) (n : Nat) : Prop :=
  ecn.total - feedback.total < n ∨ ecn.ect0 + ecn.ce - (feedback.ect0 + feedback.ce) < n

theorem not_accepts_of_bleached {v : EcnSpace} {ecn : EcnCounts} {n : Nat} (h : Bleached v.ecnFeedback ecn n) :
    ¬v.Accepts n ecn := by
  intro hacc
  have henough := hacc.enough
  have hect1 := hacc.ect1
  unfold Bleached EcnCounts.total at h
  omega

/-- An ACK frame with counters that grew too little, for a larger number than before and for packets of which no two
    have consecutive numbers, turns ECN off. -/
theorem sendingEcn_of_bleached (hs : s.Ordered) {ecn : EcnCounts} (hack : s.onAckReceived space ack = .ok t)
    (hecn : ack.ecn = some ecn) (hlg : (s.spaces space).newLargest ack = true)
    (hapart : ∀ pn ∈ (s.spaces space).acked ack, pn + 1 ∉ (s.spaces space).acked ack)
    (hbleached : Bleached (s.spaces space).ecnFeedback ecn ((s.spaces space).acked ack).length) :
    t.sendingEcn = false := by
  have hlen := len_newlyAcked_eq (hs space) hapart
  rcases onAckReceived_cases (hs space) hack with ⟨hnil, -⟩ | ⟨-, rfl⟩
  · rw [hnil] at hbleached
    exact absurd hbleached (by simp [Bleached])
  have hnot := not_accepts_of_bleached hbleached
  rw [hecn, hlg, hlen, onAckEcn_eq]
  split
  · rcases processEcn_cases (s.setSpace space (afterAck (s.spaces space) ack)) space _ ecn with ⟨hacc, -⟩ | ⟨-, heq⟩
    · rw [setSpace_self] at hacc
      exact absurd { hacc with } hnot
    · rw [heq]
  · next hoff => exact Bool.eq_false_iff.mpr fun hon => hoff ⟨hon, rfl⟩

end EcnPath

/-! ECN validation against an honest peer, which counts the marks as they come, reports those it still remembers, and
    forgets the largest only when the sender has seen one as large acknowledged. -/

open List EcnPath Option

structure EcnPeer where
  received : List (Nat × Bool)
  reported : List Nat

def EcnCounts.ofReceived (received : List (Nat × Bool)) : EcnCounts :=
  ⟨received.countP fun x => !x.2, 0, received.countP fun x => x.2⟩

/-- An ACK frame on its way, with the numbers it reports and how many packets the peer had received by then. -/
structure EcnReport where
  ack : EcnAck
  covered : List Nat
  count : Nat

/-- A path and the peer at its other end. The frames that were sent may arrive at any time, or never. -/
structure EcnWorld where
  path : EcnPath
  peers : SpaceId → EcnPeer
  reports : SpaceId → List EcnReport

namespace EcnWorld

def new : EcnWorld := ⟨.new, fun _ => ⟨[], []⟩, fun _ => []⟩

inductive Event where
  | send (space : SpaceId) (skip : Bool)
  | lose (space : SpaceId) (pn : Nat)
  | deliver (space : SpaceId) (pn : Nat) (ce : Bool)
  | forget (space : SpaceId) (pn : Nat)
  | report (space : SpaceId) (largest : Nat) (ranges : List (Nat × Nat))
  | ack (space : SpaceId) (index : Nat)

def setPeer (self : EcnWorld) (space : SpaceId) (peer : EcnPeer) : EcnWorld :=
  { self with peers := Function.update self.peers space peer }

def makeReport (peer : EcnPeer) (largest : Nat) (ranges : List (Nat × Nat)) : EcnReport :=
  ⟨⟨largest, ranges, some (.ofReceived peer.received)⟩, peer.reported, peer.received.length⟩

def step (self : EcnWorld) : Event → Option EcnWorld
  | .send space skip => (self.path.send space skip).map fun path => { self with path }
  | .lose space pn => some { self with path := self.path.lose space pn }
  | .deliver space pn ce =>
    let peer := self.peers space
    some (self.setPeer space ⟨peer.received ++ [(pn, ce)], peer.reported ++ [pn]⟩)
  | .forget space pn =>
    let peer := self.peers space
    some (self.setPeer space { peer with reported := peer.reported.filter (· ≠ pn) })
  | .report space largest ranges =>
    some { self with
      reports := Function.update self.reports space
        (self.reports space ++ [makeReport (self.peers space) largest ranges]) }
  | .ack space index =>
    match (self.reports space)[index]? with
    | none => some self
    | some report => (self.path.onAckReceived space report.ack).toOption.map fun path => { self with path }

/-- What an honest peer does: it takes a packet that was sent for the first time only, and reports what it remembers. -/
def Honest (self : EcnWorld) : Event → Prop
  | .deliver space pn _ =>
    pn < (self.path.spaces space).nextPacketNumber ∧ pn ∉ (self.peers space).received.map fst
  | .forget space pn =>
    (∃ q ∈ (self.peers space).reported, pn < q) ∨ ∃ m ∈ (self.path.spaces space).largestAckedPacket, pn ≤ m
  | .report space largest ranges =>
    largest ∈ (self.peers space).reported ∧ (∀ pn ∈ (self.peers space).reported, pn ≤ largest) ∧
      ∀ pn, (ranges.any fun range => range.1 ≤ pn && pn ≤ range.2) = true ↔ pn ∈ (self.peers space).reported
  | _ => True

end EcnWorld

namespace EcnCounts

theorem ofReceived_sum (received : List (Nat × Bool)) :
    (ofReceived received).ect0 + (ofReceived received).ce = received.length := by
  have := received.length_eq_countP_add_countP fun x => x.2
  rw [this, add_comm]
  congr 1
  exact countP_congr fun x _ => by simp

theorem ofReceived_mono (received : List (Nat × Bool)) {i j : Nat} (h : i ≤ j) :
    (ofReceived (received.take i)).ect0 ≤ (ofReceived (received.take j)).ect0 ∧
      (ofReceived (received.take i)).ce ≤ (ofReceived (received.take j)).ce := by
  have hsub : (received.take i).Sublist (received.take j) := (take_prefix_take_left h).sublist
  exact ⟨hsub.countP_le, hsub.countP_le⟩

end EcnCounts

/-- Numbers that are in the first `j` packets and not in the first `i` are no more than the packets between. -/
theorem length_le_between {received : List (Nat × Bool)} {i j : Nat} {ps : List Nat} (hps : ps.Nodup)
    (hin : ∀ pn ∈ ps, pn ∈ (received.take j).map fst) (hout : ∀ pn ∈ ps, pn ∉ (received.take i).map fst)
    (hij : i ≤ j) (hj : j ≤ received.length) : i + ps.length ≤ j := by
  have hsub : ps ⊆ ((received.take j).drop i).map fst := by
    intro pn hpn
    obtain ⟨x, hx, rfl⟩ := mem_map.mp (hin pn hpn)
    rw [← take_append_drop i (received.take j)] at hx
    rcases mem_append.mp hx with hx | hx
    · rw [take_take, min_eq_left hij] at hx
      exact absurd (mem_map_of_mem hx) (hout _ hpn)
    · exact mem_map_of_mem hx
  have hle := (subperm_of_subset hps hsub).length_le
  rw [length_map, length_drop, length_take, min_eq_left hj] at hle
  omega

namespace EcnReport

structure Truthful (peer : EcnPeer) (r : EcnReport) : Prop where
  count : r.count ≤ peer.received.length
  ecn : r.ack.ecn = some (.ofReceived (peer.received.take r.count))
  covers : ∀ pn, r.ack.covers pn = true ↔ pn ∈ r.covered
  covered : ∀ pn ∈ r.covered, pn ∈ (peer.received.take r.count).map fst

def Passed (v : EcnSpace) (n : Nat) : Prop := ∃ m ∈ v.largestAckedPacket, n ≤ m

structure Before (v : EcnSpace) (peer : EcnPeer) (a b : EcnReport) : Prop where
  count : a.count ≤ b.count
  covered : ∀ pn ∈ b.covered, pn ∈ (peer.received.take a.count).map fst → pn ∈ a.covered
  largest : a.ack.largest ≤ b.ack.largest ∨ Passed v a.ack.largest

end EcnReport

open EcnReport

/-- What is on its way tells the truth, in the order in which it was sent, and the feedback is that of a report whose
    numbers are no longer outstanding. -/
structure Faithful (v : EcnSpace) (peer : EcnPeer) (reports : List EcnReport) : Prop where
  below : ∀ x ∈ peer.received, x.1 < v.nextPacketNumber
  reported : ∀ pn ∈ peer.reported, pn ∈ peer.received.map fst
  truthful : ∀ r ∈ reports, r.Truthful peer
  order : reports.Pairwise (Before v peer)
  present : ∀ r ∈ reports, ∀ pn ∈ peer.reported, pn ∈ (peer.received.take r.count).map fst → pn ∈ r.covered
  largest : ∀ r ∈ reports, (∃ q ∈ peer.reported, r.ack.largest ≤ q) ∨ Passed v r.ack.largest
  feedback : v.ecnFeedback = .zero ∨ ∃ r ∈ reports, v.ecnFeedback = .ofReceived (peer.received.take r.count) ∧
    (∀ pn ∈ r.covered, pn ∉ v.sentPackets) ∧ Passed v r.ack.largest

variable {v v' : EcnSpace} {peer : EcnPeer} {reports : List EcnReport} {ack : EcnAck}

section
variable (h : Faithful v peer reports)
include h

theorem Faithful.before {a b : EcnReport} (ha : a ∈ reports) (hb : b ∈ reports) :
    a = b ∨ Before v peer a b ∨ Before v peer b a := by
  obtain ⟨i, hi, rfl⟩ := mem_iff_getElem.mp ha
  obtain ⟨j, hj, rfl⟩ := mem_iff_getElem.mp hb
  have horder := pairwise_iff_getElem.mp h.order
  rcases lt_trichotomy i j with hlt | heq | hgt
  · exact .inr (.inl (horder i j hi hj hlt))
  · subst heq
    exact .inl rfl
  · exact .inr (.inr (horder j i hj hi hgt))

theorem Faithful.advance (hnext : v.nextPacketNumber ≤ v'.nextPacketNumber)
    (hsent : ∀ pn ∈ v'.sentPackets, pn ∈ v.sentPackets ∨ v.nextPacketNumber ≤ pn)
    (hlg : ∀ n, Passed v n → Passed v' n) (hfb : v'.ecnFeedback = v.ecnFeedback) : Faithful v' peer reports where
  __ := h
  below x hx := (h.below x hx).trans_le hnext
  order := h.order.imp fun hab => ⟨hab.count, hab.covered, hab.largest.imp_right (hlg _)⟩
  largest r hr := (h.largest r hr).imp_right (hlg _)
  feedback := by
    rw [hfb]
    refine h.feedback.imp_right fun ⟨r, hr, heq, haway, hpass⟩ => ⟨r, hr, heq, fun pn hpn hmem => ?_, hlg _ hpass⟩
    rcases hsent pn hmem with hold | hnew
    · exact haway pn hpn hold
    obtain ⟨x, hx, rfl⟩ := mem_map.mp ((h.truthful r hr).covered pn hpn)
    exact not_le.mpr (h.below x (mem_of_mem_take hx)) hnew

theorem Faithful.accepts (hv : v.Ordered) {b : EcnReport} (hb : b ∈ reports)
    (hnew : v.newLargest b.ack = true) {n : Nat} (hn : n ≤ (v.acked b.ack).length) :
    v.Accepts n (.ofReceived (peer.received.take b.count)) := by
  have htrue := h.truthful b hb
  have hsum := EcnCounts.ofReceived_sum (peer.received.take b.count)
  rw [length_take, min_eq_left htrue.count] at hsum
  have hin : ∀ pn ∈ v.acked b.ack, pn ∈ (peer.received.take b.count).map fst := fun pn hpn =>
    htrue.covered pn ((htrue.covers pn).mp (mem_filter.mp hpn).2)
  have hnot : ¬Passed v b.ack.largest := by
    rintro ⟨m, hm, hle⟩
    have hlt := (all_eq_true _ _).mp hnew m hm
    exact not_le.mpr (of_decide_eq_true hlt) hle
  rcases h.feedback with hzero | ⟨a, ha, heq, haway, hpass⟩
  · have hlen := length_le_between (i := 0) (hv.nodup_acked b.ack) hin (by simp) zero_le htrue.count
    refine ⟨?_, ?_, ?_, ?_⟩ <;> rw [hzero]
    · exact zero_le
    · rfl
    · exact zero_le
    · rw [hsum]
      show 0 + 0 + n ≤ b.count
      omega
  -- The report whose counters were kept was sent before this one.
  have hpre : Before v peer a b := by
    rcases h.before ha hb with rfl | hab | hba
    · exact absurd hpass hnot
    · exact hab
    rcases hba.largest with hle | hb
    · obtain ⟨m, hm, hle'⟩ := hpass
      exact absurd ⟨m, hm, hle.trans hle'⟩ hnot
    · exact absurd hb hnot
  have hout : ∀ pn ∈ v.acked b.ack, pn ∉ (peer.received.take a.count).map fst := fun pn hpn hmem => by
    obtain ⟨hsent, hcov⟩ := mem_filter.mp hpn
    exact haway pn (hpre.covered pn ((htrue.covers pn).mp hcov) hmem) hsent
  have hlen := length_le_between (hv.nodup_acked b.ack) hin hout hpre.count htrue.count
  have hmono := EcnCounts.ofReceived_mono peer.received hpre.count
  have hsum' := EcnCounts.ofReceived_sum (peer.received.take a.count)
  rw [length_take, min_eq_left (h.truthful a ha).count] at hsum'
  refine ⟨?_, ?_, ?_, ?_⟩ <;> rw [heq]
  · exact hmono.1
  · rfl
  · exact hmono.2
  · omega

theorem Faithful.deliver {pn : Nat} (ce : Bool) (hpn : pn < v.nextPacketNumber) (hfresh : pn ∉ peer.received.map fst) :
    Faithful v ⟨peer.received ++ [(pn, ce)], peer.reported ++ [pn]⟩ reports := by
  have htake : ∀ r ∈ reports, (peer.received ++ [(pn, ce)]).take r.count = peer.received.take r.count := fun r hr =>
    take_append_of_le_length (h.truthful r hr).count
  refine ⟨fun x hx => ?_, fun q hq => ?_, fun r hr => ?_, ?_, fun r hr q hq hmem => ?_, fun r hr => ?_, ?_⟩
  · rcases mem_append.mp hx with hx | hx
    · exact h.below x hx
    rw [mem_singleton.mp hx]
    exact hpn
  · rw [map_append, mem_append]
    rcases mem_append.mp hq with hq | hq
    · exact .inl (h.reported q hq)
    · exact .inr (by simpa using hq)
  · have htrue := h.truthful r hr
    refine ⟨htrue.count.trans (by simp), ?_, htrue.covers, ?_⟩
    · rw [htake r hr]
      exact htrue.ecn
    · rw [htake r hr]
      exact htrue.covered
  · refine h.order.imp_of_mem fun {a b} ha _ hab => ⟨hab.count, ?_, hab.largest⟩
    rw [htake a ha]
    exact hab.covered
  · rw [htake r hr] at hmem
    rcases mem_append.mp hq with hq | hq
    · exact h.present r hr q hq hmem
    -- A packet that has just come is in no report.
    rw [mem_singleton.mp hq] at hmem
    obtain ⟨x, hx, heq⟩ := mem_map.mp hmem
    exact absurd (heq ▸ mem_map_of_mem (mem_of_mem_take hx)) hfresh
  · exact (h.largest r hr).imp_left fun ⟨q, hq, hle⟩ => ⟨q, mem_append_left _ hq, hle⟩
  · refine h.feedback.imp_right fun ⟨r, hr, heq, haway⟩ => ⟨r, hr, ?_, haway⟩
    rw [htake r hr]
    exact heq

theorem Faithful.forget {pn : Nat} (hforget : (∃ q ∈ peer.reported, pn < q) ∨ Passed v pn) :
    Faithful v { peer with reported := peer.reported.filter (· ≠ pn) } reports where
  below := h.below
  reported q hq := h.reported q (mem_of_mem_filter hq)
  truthful r hr := ⟨(h.truthful r hr).count, (h.truthful r hr).ecn, (h.truthful r hr).covers, (h.truthful r hr).covered⟩
  order := h.order.imp fun hab => { hab with }
  present r hr q hq := h.present r hr q (mem_of_mem_filter hq)
  feedback := h.feedback
  largest r hr := by
    rcases h.largest r hr with ⟨q, hq, hle⟩ | hpass
    · by_cases hqpn : q = pn
      · rcases hforget with ⟨q', hq', hlt⟩ | ⟨m, hm, hle'⟩
        · exact .inl ⟨q', mem_filter.mpr ⟨hq', by simpa using hlt.ne'⟩, (hle.trans hqpn.le).trans hlt.le⟩
        · exact .inr ⟨m, hm, (hle.trans hqpn.le).trans hle'⟩
      · exact .inl ⟨q, mem_filter.mpr ⟨hq, by simpa using hqpn⟩, hle⟩
    · exact .inr hpass

theorem Faithful.report {largest : Nat} {ranges : List (Nat × Nat)}
    (hmem : largest ∈ peer.reported) (hmax : ∀ pn ∈ peer.reported, pn ≤ largest)
    (hcov : ∀ pn, (ranges.any fun range => range.1 ≤ pn && pn ≤ range.2) = true ↔ pn ∈ peer.reported) :
    Faithful v peer (reports ++ [EcnWorld.makeReport peer largest ranges]) := by
  have hall : peer.received.take peer.received.length = peer.received := take_length
  refine ⟨h.below, h.reported, fun r hr => ?_, ?_, fun r hr => ?_, fun r hr => ?_, ?_⟩
  · rcases mem_append.mp hr with hr | hr
    · exact h.truthful r hr
    obtain rfl := mem_singleton.mp hr
    refine ⟨le_rfl, ?_, hcov, fun pn hpn => ?_⟩
    · rw [EcnWorld.makeReport, hall]
    · show pn ∈ (peer.received.take peer.received.length).map fst
      rw [hall]
      exact h.reported pn hpn
  · refine pairwise_append.mpr ⟨h.order, pairwise_singleton _ _, fun a ha b hb => ?_⟩
    obtain rfl := mem_singleton.mp hb
    refine ⟨(h.truthful a ha).count, h.present a ha, ?_⟩
    exact (h.largest a ha).imp_left fun ⟨q, hq, hle⟩ => hle.trans (hmax q hq)
  · rcases mem_append.mp hr with hr | hr
    · exact h.present r hr
    obtain rfl := mem_singleton.mp hr
    exact fun pn hpn _ => hpn
  · rcases mem_append.mp hr with hr | hr
    · exact h.largest r hr
    obtain rfl := mem_singleton.mp hr
    exact .inl ⟨largest, hmem, le_rfl⟩
  · exact h.feedback.imp_right fun ⟨r, hr, hkept⟩ => ⟨r, mem_append_left _ hr, hkept⟩

end

theorem passed_largestAfter {n : Nat} (h : Passed v n)
    (hlg : v'.largestAckedPacket = largestAfter v ack) : Passed v' n := by
  obtain ⟨m, hm, hle⟩ := h
  unfold largestAfter at hlg
  split at hlg
  · next hnew =>
    have hlt := of_decide_eq_true ((all_eq_true _ _).mp hnew m hm)
    exact ⟨ack.largest, hlg, hle.trans hlt.le⟩
  · exact ⟨m, hlg ▸ hm, hle⟩

theorem Faithful.acknowledge (h : Faithful v peer reports) (hlg : v'.largestAckedPacket = largestAfter v ack)
    (hnext : v'.nextPacketNumber = v.nextPacketNumber) (hsent : ∀ pn ∈ v'.sentPackets, pn ∈ v.sentPackets)
    (hfb : v'.ecnFeedback = v.ecnFeedback) : Faithful v' peer reports :=
  h.advance hnext.ge (fun pn hpn => .inl (hsent pn hpn)) (fun _ hn => passed_largestAfter hn hlg) hfb

theorem Faithful.keep (h : Faithful v peer reports) {b : EcnReport} (hb : b ∈ reports) (hnew : v.newLargest b.ack = true) :
    Faithful { afterAck v b.ack with ecnFeedback := .ofReceived (peer.received.take b.count) } peer reports := by
  have hrest : Faithful (afterAck v b.ack) peer reports :=
    h.acknowledge rfl rfl (fun _ hpn => mem_of_mem_filter hpn) rfl
  refine { hrest with
    order := hrest.order.imp fun hab => { hab with }
    feedback := .inr ⟨b, hb, rfl, fun pn hpn hmem => ?_, ?_⟩ }
  · have huncovered := (mem_filter.mp hmem).2
    rw [((h.truthful b hb).covers pn).mpr hpn] at huncovered
    exact Bool.noConfusion huncovered
  · exact ⟨b.ack.largest, if_pos hnew, le_rfl⟩

namespace EcnWorld
variable {w w' : EcnWorld} {space : SpaceId} {path : EcnPath}

structure Sound (w : EcnWorld) : Prop where
  ordered : w.path.Ordered
  sending : w.path.sendingEcn = true
  faithful : ∀ space, Faithful (w.path.spaces space) (w.peers space) (w.reports space)

theorem Sound.new : EcnWorld.new.Sound where
  ordered := EcnPath.Ordered.new
  sending := rfl
  faithful _ := ⟨by simp [EcnWorld.new], by simp [EcnWorld.new], by simp [EcnWorld.new], List.Pairwise.nil,
    by simp [EcnWorld.new], by simp [EcnWorld.new], .inl rfl⟩

section
variable (h : w.Sound)
include h

theorem Sound.setSpace {value : EcnSpace} (hord : path.Ordered)
    (hsp : path.spaces = (w.path.setSpace space value).spaces) (hsending : path.sendingEcn = true)
    (hvalue : Faithful value (w.peers space) (w.reports space)) : Sound { w with path } := by
  refine ⟨hord, hsending, fun other => ?_⟩
  rw [hsp]
  exact (Function.forall_update_iff w.path.spaces fun other value => Faithful value (w.peers other) (w.reports other)).mpr
    ⟨hvalue, fun other _ => h.faithful other⟩ other

theorem Sound.onAckReceived {report : EcnReport}
    (hrpt : report ∈ w.reports space) (hack : w.path.onAckReceived space report.ack = .ok path) :
    Sound { w with path } := by
  have hord := h.ordered.onAckReceived hack
  have hfaith := h.faithful space
  rcases onAckReceived_cases (h.ordered space) hack with ⟨-, rfl⟩ | ⟨-, rfl⟩
  · exact h.setSpace hord rfl h.sending (hfaith.acknowledge rfl rfl (fun _ hpn => hpn) rfl)
  rw [(hfaith.truthful report hrpt).ecn, onAckEcn_eq] at hord ⊢
  split at hord
  · next hexam =>
    rw [if_pos hexam]
    have hacc := hfaith.accepts (h.ordered space) hrpt hexam.2
      (EcnSpace.len_newlyAcked_le (h.ordered space) report.ack)
    rcases processEcn_cases (w.path.setSpace space (afterAck (w.path.spaces space) report.ack)) space
        ((w.path.spaces space).newlyAcked report.ack).len (.ofReceived ((w.peers space).received.take report.count))
      with ⟨-, heq⟩ | ⟨hnot, -⟩
    · rw [heq, setSpace_self] at hord ⊢
      exact h.setSpace hord (Function.update_idem _ _ _) h.sending (hfaith.keep hrpt hexam.2)
    rw [setSpace_self] at hnot
    exact absurd { hacc with } hnot
  next hexam =>
  rw [if_neg hexam]
  exact h.setSpace hord rfl h.sending (hfaith.acknowledge rfl rfl (fun _ hpn => mem_of_mem_filter hpn) rfl)

theorem Sound.setPeer {peer : EcnPeer}
    (hpeer : Faithful (w.path.spaces space) peer (w.reports space)) : (w.setPeer space peer).Sound :=
  ⟨h.ordered, h.sending, (Function.forall_update_iff w.peers fun other peer =>
    Faithful (w.path.spaces other) peer (w.reports other)).mpr ⟨hpeer, fun other _ => h.faithful other⟩⟩

theorem Sound.send {skip : Bool} (hsend : w.path.send space skip = some path) : Sound { w with path } := by
  have hord := h.ordered.send hsend
  unfold EcnPath.send at hsend
  dsimp only at hsend
  split at hsend
  · cases hsend
    have hle : (w.path.spaces space).nextPacketNumber ≤ w.path.txNumber space skip := le_self_add
    refine h.setSpace hord rfl h.sending ((h.faithful space).advance (Nat.le_succ_of_le hle) (fun pn hpn => ?_)
      (fun _ hn => hn) rfl)
    refine (mem_append.mp hpn).imp_right fun hpn => ?_
    rw [mem_singleton.mp hpn]
    exact hle
  · cases hsend

theorem Sound.step {event : Event} (hallow : w.Honest event) (hstep : w.step event = some w') : w'.Sound := by
  cases event with
  | send space skip =>
    obtain ⟨path, hsend, rfl⟩ := map_eq_some_iff.mp hstep
    exact h.send hsend
  | lose space pn =>
    cases hstep
    exact h.setSpace (h.ordered.lose pn) rfl h.sending ((h.faithful space).advance le_rfl
      (fun _ hpn => .inl (mem_of_mem_filter hpn)) (fun _ hn => hn) rfl)
  | deliver space pn ce =>
    cases hstep
    exact h.setPeer ((h.faithful space).deliver ce hallow.1 hallow.2)
  | forget space pn =>
    cases hstep
    exact h.setPeer ((h.faithful space).forget hallow)
  | report space largest ranges =>
    cases hstep
    exact ⟨h.ordered, h.sending, (Function.forall_update_iff w.reports fun other reports =>
      Faithful (w.path.spaces other) (w.peers other) reports).mpr
        ⟨(h.faithful space).report hallow.1 hallow.2.1 hallow.2.2, fun other _ => h.faithful other⟩⟩
  | ack space index =>
    simp only [EcnWorld.step] at hstep
    split at hstep
    · exact some.inj hstep ▸ h
    next report hrpt =>
    obtain ⟨path, hpath, rfl⟩ := map_eq_some_iff.mp hstep
    have hack : w.path.onAckReceived space report.ack = .ok path := by
      cases hres : w.path.onAckReceived space report.ack with
      | error e => simp [hres, Except.toOption] at hpath
      | ok p => rw [some.inj (by simpa [hres, Except.toOption] using hpath : some p = some path)]
    exact h.onAckReceived (mem_of_getElem? hrpt) hack

end

theorem sendingEcn_of_honest (h : Reaches step Honest (· = EcnWorld.new) w) : w.path.sendingEcn = true := by
  have hsnd : w.Sound := by
    refine h.invariant ?_ fun _ _ _ hw hallow hstep => hw.step hallow hstep
    rintro _ rfl
    exact Sound.new
  exact hsnd.sending

end EcnWorld

namespace EcnPath

/-- In every run, an ACK frame that newly acknowledges packets with too little growth of the counters turns ECN off, if
    it is for a larger number than those before and no two of the packets have consecutive numbers; and the frames of an
    honest peer never do. -/
theorem ecn_bleaching_detected {s : EcnPath} (h : Reaches step (fun _ _ => True) (· = new) s) :
    (∀ space ack ecn t, s.onAckReceived space ack = .ok t → ack.ecn = some ecn →
        (s.spaces space).newLargest ack = true →
        (∀ pn ∈ (s.spaces space).acked ack, pn + 1 ∉ (s.spaces space).acked ack) →
        Bleached (s.spaces space).ecnFeedback ecn ((s.spaces space).acked ack).length → t.sendingEcn = false) ∧
      ∀ w, Reaches EcnWorld.step EcnWorld.Honest (· = EcnWorld.new) w → w.path.sendingEcn = true := by
  have hordered : s.Ordered := by
    refine h.invariant ?_ fun _ _ _ hs _ hstep => hs.step hstep
    rintro _ rfl
    exact Ordered.new
  refine ⟨fun space ack ecn t hack hecn hlargest hapart hbleached => ?_, fun w hw => EcnWorld.sendingEcn_of_honest hw⟩
  exact sendingEcn_of_bleached hordered hack hecn hlargest hapart hbleached

def tenSent : List Event := replicate 10 (.send .data false)

theorem reaches_of_runFrom {s : EcnPath} {events : List Event} (h : runFrom step (fun _ _ => True) new events = some s) :
    Reaches step (fun _ _ => True) (· = new) s := by
  have hsta : Reaches step (fun _ _ => True) (· = new) new := .start rfl
  exact hsta.runFrom events h

def sparseAck : EcnAck := ⟨5, [(5, 5), (3, 3)], some ⟨1, 0, 0⟩⟩

theorem honest_exchange :
    ∃ w, Reaches EcnWorld.step EcnWorld.Honest (· = EcnWorld.new) w ∧
      (w.path.spaces .data).ecnFeedback = ⟨1, 0, 0⟩ := by
  have hsend := Reaches.next (EcnWorld.Event.send .data false)
    (.start rfl : Reaches EcnWorld.step EcnWorld.Honest (· = EcnWorld.new) EcnWorld.new) trivial rfl
  have hdeliver := hsend.next (EcnWorld.Event.deliver .data 0 false) (by exact ⟨Nat.zero_lt_one, not_mem_nil⟩) rfl
  have hrpt := hdeliver.next (EcnWorld.Event.report .data 0 [(0, 0)]) (by
      refine ⟨mem_singleton_self 0, fun pn hpn => (mem_singleton.mp hpn).le, fun pn => ?_⟩
      show _ ↔ pn ∈ [0]
      simp) rfl
  exact ⟨_, hrpt.next (EcnWorld.Event.ack .data 0) trivial rfl, by decide +kernel⟩

theorem ecn_bleaching_detected_sparse :
    (∃ s t, Reaches step (fun _ _ => True) (· = new) s ∧ s.onAckReceived .data sparseAck = .ok t ∧
      s.sendingEcn = true ∧ t.sendingEcn = false) ∧
    ∃ w, Reaches EcnWorld.step EcnWorld.Honest (· = EcnWorld.new) w ∧
      (w.path.spaces .data).ecnFeedback = ⟨1, 0, 0⟩ ∧ w.path.sendingEcn = true := by
  have hrun : (runFrom step (fun _ _ => True) new tenSent).map (fun s => (s.sendingEcn, s.spaces .data,
      (s.onAckReceived .data sparseAck).toOption.isSome)) =
        some (true, ⟨10, none, [0, 1, 2, 3, 4, 5, 6, 7, 8, 9], .zero⟩, true) := by decide +kernel
  obtain ⟨s, hs, hview⟩ := map_eq_some_iff.mp hrun
  obtain ⟨hsending, hspace, hok⟩ := by simpa only [Prod.mk.injEq] using hview
  have hreach := reaches_of_runFrom hs
  obtain ⟨w, hw, hfeedback⟩ := honest_exchange
  refine ⟨?_, w, hw, hfeedback, (ecn_bleaching_detected hreach).2 w hw⟩
  cases hack : s.onAckReceived .data sparseAck with
  | error e => simp [hack, Except.toOption] at hok
  | ok t =>
    refine ⟨s, t, hreach, hack, hsending, ?_⟩
    refine (ecn_bleaching_detected hreach).1 .data sparseAck ⟨1, 0, 0⟩ t hack rfl ?_ ?_ ?_
    · rw [hspace]
      rfl
    · rw [hspace]
      decide
    · rw [hspace]
      exact .inl (by decide)

/-- What an ACK frame does after some events: how many packets it newly acknowledges, the counters accepted before it,
    and whether ECN is still on. -/
def ackView (ack : EcnAck) (s : EcnPath) : Nat × EcnCounts × Option Bool :=
  (((s.spaces .data).acked ack).length, (s.spaces .data).ecnFeedback, (s.onAckReceived .data ack).toOption.map sendingEcn)

theorem exists_of_ackView (events : List Event) {n : Nat} {ecn : EcnCounts} {on : Bool}
    (h : (runFrom step (fun _ _ => True) new events).map (ackView ack) = some (n, ecn, some on)) :
    ∃ s t, Reaches step (fun _ _ => True) (· = new) s ∧ s.onAckReceived .data ack = .ok t ∧
      ((s.spaces .data).acked ack).length = n ∧ (s.spaces .data).ecnFeedback = ecn ∧ t.sendingEcn = on := by
  obtain ⟨s, hs, hview⟩ := map_eq_some_iff.mp h
  obtain ⟨hn, hecn, hon⟩ := by simpa only [ackView, Prod.mk.injEq] using hview
  cases hack : s.onAckReceived .data ack with
  | error e => simp [hack, Except.toOption] at hon
  | ok t => exact ⟨s, t, reaches_of_runFrom hs, hack, hn, hecn, by simpa [hack, Except.toOption] using hon⟩

/-- Ten packets with consecutive numbers are acknowledged and a single mark is reported, yet ECN stays on; and so it
    does when a late frame acknowledges one more packet and reports no more marks than before. -/
theorem ecn_bleaching_missed :
    (∃ s t, Reaches step (fun _ _ => True) (· = new) s ∧
      s.onAckReceived .data ⟨9, [(0, 9)], some ⟨1, 0, 0⟩⟩ = .ok t ∧
      ((s.spaces .data).acked ⟨9, [(0, 9)], some ⟨1, 0, 0⟩⟩).length = 10 ∧ (s.spaces .data).ecnFeedback = .zero ∧
      t.sendingEcn = true) ∧
    ∃ s t, Reaches step (fun _ _ => True) (· = new) s ∧
      s.onAckReceived .data ⟨3, [(3, 3)], some ⟨1, 0, 0⟩⟩ = .ok t ∧
      ((s.spaces .data).acked ⟨3, [(3, 3)], some ⟨1, 0, 0⟩⟩).length = 1 ∧ (s.spaces .data).ecnFeedback = ⟨1, 0, 0⟩ ∧
      t.sendingEcn = true := by
  constructor
  · exact exists_of_ackView tenSent (by decide +kernel)
  · exact exists_of_ackView (tenSent ++ [.ack .data ⟨5, [(5, 5)], some ⟨1, 0, 0⟩⟩]) (by decide +kernel)

end EcnPath
end SaorsaTransport
