import SaorsaTransport.Recovery

/-! What a path counts in flight against what was sent on it. The connection goes by the number of the first packet of each
    path; a ghost records the path of each packet, and the two are compared. -/

namespace SaorsaTransport.Recovery
open Library BTreeMap Recovery.Connection PacketSpace Function List

/-- The path that each packet was sent on. Paths are numbered in the order of their creation. -/
structure Ghost where
  origin : SpaceId → Nat → Nat
  current : Nat
  previous : Nat
  fresh : Nat

abbrev Floating := List (SpaceId × Nat × SentPacket)

def SentPacket.Counts (packet : SentPacket) : Prop := 0 < packet.size ∨ packet.ackEliciting = true

namespace Ghost
variable (g : Ghost)

def part (w : SentPacket → Nat) (id : Nat) (space : SpaceId) (e : Nat × SentPacket) : Nat :=
  if g.origin space e.1 = id then w e.2 else 0

def amount (w : SentPacket → Nat) (id : Nat) (c : Connection) (fl : Floating) : Nat :=
  (c.spaces .initial).sentPackets.total (g.part w id .initial) +
    (c.spaces .handshake).sentPackets.total (g.part w id .handshake) +
    (c.spaces .data).sentPackets.total (g.part w id .data) + (fl.map fun x => g.part w id x.1 x.2).sum

def share (id : Nat) (c : Connection) (fl : Floating) : InFlight :=
  ⟨g.amount (·.size) id c fl, g.amount (·.ackEliciting.toNat) id c fl⟩

def holder (c : Connection) (pn : Nat) : Option Nat :=
  if precedes c.path pn = false then some g.current
  else
    match c.prevPath with
    | some prev => if precedes prev pn = false then some g.previous else none
    | none => none

def Known (c : Connection) (id : Nat) : Prop := id = g.current ∨ (c.prevPath.isSome = true ∧ id = g.previous)

def Held (c : Connection) (space : SpaceId) (pn : Nat) : Prop :=
  ∀ id, g.Known c id → (g.origin space pn = id ↔ g.holder c pn = some id)

end Ghost

structure Tracked (g : Ghost) (c : Connection) (fl : Floating) : Prop where
  held : ∀ space e, e ∈ (c.spaces space).sentPackets → e.2.Counts → g.Held c space e.1
  floating : ∀ x ∈ fl, x.2.2.Counts → g.Held c x.1 x.2.1
  distinct : c.prevPath.isSome = true → g.previous ≠ g.current
  currentLt : g.current < g.fresh
  previousLt : c.prevPath.isSome = true → g.previous < g.fresh
  originLt : ∀ space pn, g.origin space pn < g.fresh
  below : ∀ space e, e ∈ (c.spaces space).sentPackets → e.1 < (c.spaces space).nextPacketNumber
  first : ∀ first, c.path.firstPacket = some first → first ≤ (c.spaces .data).nextPacketNumber
  prevFirst : ∀ prev first, c.prevPath = some prev → prev.firstPacket = some first →
    first ≤ (c.spaces .data).nextPacketNumber
  early : ∀ space e, space ≠ .data → e ∈ (c.spaces space).sentPackets → c.path.firstPacket = some 0 ∧ c.prevPath = none
  tail : ∀ space e, e ∈ (c.spaces space).sentPackets → (c.spaces space).largestAckElicitingSent < e.1 →
    e.2.ackEliciting = false

structure Accounted (g : Ghost) (c : Connection) (fl : Floating) : Prop extends Tracked g c fl where
  current : c.path.inFlight = g.share g.current c fl
  previous : ∀ prev, c.prevPath = some prev → prev.inFlight = g.share g.previous c fl

variable {g : Ghost} {c c' : Connection} {fl fl' : Floating}

/-! ### What does not matter -/

theorem precedes_congr {path path' : PathData} (h : path'.firstPacket = path.firstPacket) (pn : Nat) :
    precedes path' pn = precedes path pn := by
  unfold precedes
  rw [h]

structure Shrinks (c : Connection) (fl : Floating) (c' : Connection) (fl' : Floating) : Prop where
  sent : ∀ space e', e' ∈ (c'.spaces space).sentPackets → ∃ e ∈ (c.spaces space).sentPackets,
    e.1 = e'.1 ∧ e.2.size = e'.2.size ∧ e.2.ackEliciting = e'.2.ackEliciting
  floating : ∀ x ∈ fl', x ∈ fl ∨ x.2 ∈ (c.spaces x.1).sentPackets
  next : ∀ space, (c.spaces space).nextPacketNumber ≤ (c'.spaces space).nextPacketNumber
  eliciting : ∀ space e, e ∈ (c'.spaces space).sentPackets →
    (c'.spaces space).largestAckElicitingSent = (c.spaces space).largestAckElicitingSent
  first : c'.path.firstPacket = c.path.firstPacket
  prevFirst : c'.prevPath.map (·.firstPacket) = c.prevPath.map (·.firstPacket)

theorem Shrinks.isSome (h : Shrinks c fl c' fl') : c'.prevPath.isSome = c.prevPath.isSome := by
  have := congrArg Option.isSome h.prevFirst
  simpa using this

variable {space : SpaceId} {id : Nat} {x : SpaceId × Nat × SentPacket}

theorem Shrinks.held (h : Shrinks c fl c' fl') {pn : Nat} (hh : g.Held c space pn) : g.Held c' space pn := by
  have hhold : g.holder c' pn = g.holder c pn := by
    have hprev := h.prevFirst
    unfold Ghost.holder
    rw [precedes_congr h.first]
    cases hc : c.prevPath with
    | none =>
      rw [hc] at hprev
      rw [Option.map_eq_none_iff.mp hprev]
    | some prev =>
      rw [hc] at hprev
      obtain ⟨prev', hc', hfst⟩ := Option.map_eq_some_iff.mp hprev
      simp only [hc', precedes_congr hfst]
  intro id hkn
  rw [hhold]
  refine hh id ?_
  unfold Ghost.Known at hkn ⊢
  rwa [h.isSome] at hkn

theorem Tracked.shrink (ht : Tracked g c fl) (h : Shrinks c fl c' fl') : Tracked g c' fl' where
  held space e' he' hcnt := by
    obtain ⟨e, he, hpn, hsize, hack⟩ := h.sent space e' he'
    have hcnt' : e.2.Counts := by
      unfold SentPacket.Counts
      rw [hsize, hack]
      exact hcnt
    exact hpn ▸ h.held (ht.held space e he hcnt')
  floating x hx hcnt := by
    rcases h.floating x hx with hx | hx
    · exact h.held (ht.floating x hx hcnt)
    · exact h.held (ht.held x.1 x.2 hx hcnt)
  distinct hs := ht.distinct (h.isSome ▸ hs)
  currentLt := ht.currentLt
  previousLt hs := ht.previousLt (h.isSome ▸ hs)
  originLt := ht.originLt
  below space e' he' := by
    obtain ⟨e, he, hpn, -, -⟩ := h.sent space e' he'
    rw [← hpn]
    exact (ht.below space e he).trans_le (h.next space)
  first first hfst := (ht.first first (h.first ▸ hfst)).trans (h.next .data)
  prevFirst prev first hprev hfst := by
    have hmap := h.prevFirst
    rw [hprev, Option.map_some, hfst] at hmap
    obtain ⟨prev', hprev', hfst'⟩ := Option.map_eq_some_iff.mp hmap.symm
    exact (ht.prevFirst prev' first hprev' hfst').trans (h.next .data)
  early space e' hspace he' := by
    obtain ⟨e, he, -, -, -⟩ := h.sent space e' he'
    obtain ⟨hfst, hprev⟩ := ht.early space e hspace he
    refine ⟨h.first.trans hfst, ?_⟩
    have hmap := h.prevFirst
    rw [hprev] at hmap
    exact Option.map_eq_none_iff.mp hmap
  tail space e' he' hlt := by
    obtain ⟨e, he, hpn, -, hack⟩ := h.sent space e' he'
    rw [h.eliciting space e' he', ← hpn] at hlt
    exact hack ▸ ht.tail space e he hlt

structure SameBooks (c c' : Connection) : Prop where
  sent : ∀ space, (c'.spaces space).sentPackets = (c.spaces space).sentPackets
  next : ∀ space, (c.spaces space).nextPacketNumber ≤ (c'.spaces space).nextPacketNumber
  eliciting : ∀ space, (c'.spaces space).largestAckElicitingSent = (c.spaces space).largestAckElicitingSent
  first : c'.path.firstPacket = c.path.firstPacket
  inFlight : c'.path.inFlight = c.path.inFlight
  prevPath : c'.prevPath.map (fun prev => (prev.firstPacket, prev.inFlight)) =
    c.prevPath.map fun prev => (prev.firstPacket, prev.inFlight)

theorem SameBooks.shrinks (h : SameBooks c c') (fl : Floating) : Shrinks c fl c' fl where
  sent space e he := ⟨e, h.sent space ▸ he, rfl, rfl, rfl⟩
  floating _ hx := .inl hx
  next := h.next
  eliciting space _ _ := h.eliciting space
  first := h.first
  prevFirst := by
    have := congrArg (Option.map Prod.fst) h.prevPath
    simpa [comp_def] using this

section
variable (h : ∀ space, (c'.spaces space).sentPackets = (c.spaces space).sentPackets)
include h

theorem amount_congr (w : SentPacket → Nat) (id : Nat) : g.amount w id c' fl = g.amount w id c fl := by
  unfold Ghost.amount
  simp only [h]

theorem share_congr (id : Nat) : g.share id c' fl = g.share id c fl := by
  unfold Ghost.share
  rw [amount_congr h, amount_congr h]

end

theorem Accounted.same (h : Accounted g c fl) (hs : SameBooks c c') : Accounted g c' fl where
  toTracked := h.toTracked.shrink (hs.shrinks fl)
  current := by rw [hs.inFlight, share_congr hs.sent, h.current]
  previous prev hprev := by
    have hmap := hs.prevPath
    rw [hprev, Option.map_some] at hmap
    obtain ⟨prev', hprev', heq⟩ := Option.map_eq_some_iff.mp hmap.symm
    rw [share_congr hs.sent, ← h.previous prev' hprev']
    exact (congrArg Prod.snd heq).symm

theorem setSpace_self (c : Connection) (space : SpaceId) (value : PacketSpace) :
    (c.setSpace space value).spaces space = value :=
  update_self _ _ _

theorem setSpace_of_ne {space other : SpaceId} (value : PacketSpace) (h : other ≠ space) :
    (c.setSpace space value).spaces other = c.spaces other :=
  update_of_ne h _ _

@[elab_as_elim]
theorem setSpace_cases {motive : SpaceId → PacketSpace → Prop} {space : SpaceId} {value : PacketSpace} (other : SpaceId)
    (hself : motive space value) (hoth : ∀ other, motive other (c.spaces other)) :
    motive other ((c.setSpace space value).spaces other) :=
  (Function.forall_update_iff c.spaces motive).mpr ⟨hself, fun other _ => hoth other⟩ other

theorem SameBooks.setMtud (c : Connection) (mtud : MtuDiscovery) : SameBooks c (c.setMtud mtud) :=
  ⟨fun _ => rfl, fun _ => le_rfl, fun _ => rfl, rfl, rfl, rfl⟩

theorem SameBooks.setSpace {space : SpaceId} {value : PacketSpace}
    (hsent : value.sentPackets = (c.spaces space).sentPackets)
    (hnext : (c.spaces space).nextPacketNumber ≤ value.nextPacketNumber)
    (helic : value.largestAckElicitingSent = (c.spaces space).largestAckElicitingSent) :
    SameBooks c (c.setSpace space value) :=
  ⟨fun other => setSpace_cases other hsent fun _ => rfl, fun other => setSpace_cases other hnext fun _ => le_rfl,
    fun other => setSpace_cases other helic fun _ => rfl, rfl, rfl, rfl⟩

/-! ### Packets leave -/

theorem amount_cons (w : SentPacket → Nat) (id : Nat) (x : SpaceId × Nat × SentPacket) :
    g.amount w id c (x :: fl) = g.part w id x.1 x.2 + g.amount w id c fl := by
  unfold Ghost.amount
  rw [map_cons, sum_cons]
  omega

theorem amount_setSpace (w : SentPacket → Nat) (id : Nat) (space : SpaceId) (value : PacketSpace) :
    g.amount w id (c.setSpace space value) fl + (c.spaces space).sentPackets.total (g.part w id space) =
      g.amount w id c fl + value.sentPackets.total (g.part w id space) := by
  cases space <;> simp only [Ghost.amount, setSpace, update_self, update_of_ne, ne_eq,
    reduceCtorEq, not_false_eq_true] <;> omega

theorem remove_of_eq {a b : InFlight} {size : Nat} {ackEliciting : Bool} (hby : a.bytes = size + b.bytes)
    (hack : a.ackEliciting = ackEliciting.toNat + b.ackEliciting) : a.remove size ackEliciting = some b := by
  unfold InFlight.remove
  rw [checkedSub_eq_some.mpr hby]
  dsimp only [bind, Option.bind]
  rw [checkedSub_eq_some.mpr hack]

theorem SentPacket.size_of_not_counts {p : SentPacket} (h : ¬ p.Counts) : p.size = 0 := by
  unfold SentPacket.Counts at h
  omega

theorem SentPacket.ackEliciting_of_not_counts {p : SentPacket} (h : ¬ p.Counts) : p.ackEliciting = false :=
  Bool.eq_false_iff.mpr fun ht => h (.inr ht)

theorem share_cons (h : x.2.2.Counts → g.origin x.1 x.2.1 = id) : g.share id c (x :: fl) =
      ⟨x.2.2.size + (g.share id c fl).bytes, x.2.2.ackEliciting.toNat + (g.share id c fl).ackEliciting⟩ := by
  unfold Ghost.share
  rw [amount_cons, amount_cons]
  unfold Ghost.part
  by_cases hc : x.2.2.Counts
  · simp [h hc]
  · simp [SentPacket.size_of_not_counts hc, SentPacket.ackEliciting_of_not_counts hc]

theorem share_cons_of_ne (h : x.2.2.Counts → g.origin x.1 x.2.1 ≠ id) : g.share id c (x :: fl) = g.share id c fl := by
  unfold Ghost.share
  rw [amount_cons, amount_cons]
  unfold Ghost.part
  by_cases hc : x.2.2.Counts
  · simp [h hc]
  simp [SentPacket.size_of_not_counts hc, SentPacket.ackEliciting_of_not_counts hc]

theorem removeFromPath_eq {path : PathData}
    (hcount : path.inFlight = g.share id c (x :: fl)) (horig : x.2.2.Counts → g.origin x.1 x.2.1 = id) :
    removeFromPath path x.2.2 = .ok { path with inFlight := g.share id c fl } := by
  rw [share_cons horig] at hcount
  unfold removeFromPath
  rw [hcount, remove_of_eq rfl rfl]
  rfl

theorem Accounted.counters (h : Accounted g c (x :: fl)) (path : PathData)
    (prevPath : Option PathData) (hfst : path.firstPacket = c.path.firstPacket)
    (hprevFirst : prevPath.map (·.firstPacket) = c.prevPath.map (·.firstPacket))
    (hcurrent : path.inFlight = g.share g.current c fl)
    (hprevious : ∀ prev, prevPath = some prev → prev.inFlight = g.share g.previous c fl) :
    Accounted g { c with path, prevPath } fl where
  toTracked := h.toTracked.shrink
    ⟨fun _ e he => ⟨e, he, rfl, rfl, rfl⟩, fun _ hx => .inl (mem_cons_of_mem _ hx), fun _ => le_rfl,
      fun _ _ _ => rfl, hfst, hprevFirst⟩
  current := hcurrent
  previous := hprevious

theorem Accounted.removeCurrent (h : Accounted g c (x :: fl)) (horig : x.2.2.Counts → g.origin x.1 x.2.1 = g.current) :
    Accounted g { c with path := { c.path with inFlight := g.share g.current c fl } } fl := by
  refine h.counters _ _ rfl rfl rfl fun prev hprev => ?_
  have hsome : c.prevPath.isSome = true := by rw [hprev]; rfl
  rw [h.previous prev hprev]
  exact share_cons_of_ne fun hc heq => h.distinct hsome (heq.symm.trans (horig hc))

theorem Ghost.holder_of_current {pn : Nat} (h : precedes c.path pn = false) : g.holder c pn = some g.current := if_pos h

theorem Tracked.holder_current (h : Tracked g c fl) (pn : Nat) :
    g.holder c pn = some g.current ↔ precedes c.path pn = false := by
  refine ⟨fun hhold => ?_, Ghost.holder_of_current⟩
  unfold Ghost.holder at hhold
  by_contra hpn
  rw [if_neg hpn] at hhold
  cases hprev : c.prevPath with
  | none => simp [hprev] at hhold
  | some prev =>
    have hsome : c.prevPath.isSome = true := by rw [hprev]; rfl
    simp only [hprev] at hhold
    split at hhold
    · exact h.distinct hsome (Option.some.inj hhold)
    · cases hhold

theorem Accounted.remove (h : Accounted g c (x :: fl)) :
    Holds (Accounted g · fl) (· ≠ .inFlight) (c.removeInFlight x.2.1 x.2.2) := by
  have hheld := h.floating x mem_cons_self
  have hcurrent : g.Known c g.current := .inl rfl
  unfold removeInFlight
  cases hpath : precedes c.path x.2.1 with
  | false =>
    -- The packet is held to belong to the current path.
    have horig : x.2.2.Counts → g.origin x.1 x.2.1 = g.current := fun hc =>
      (hheld hc _ hcurrent).mpr (Ghost.holder_of_current hpath)
    rw [Bool.not_false, if_pos rfl, removeFromPath_eq h.current horig]
    exact h.removeCurrent horig
  | true =>
    rw [Bool.not_true, if_neg Bool.false_ne_true]
    have hnot : x.2.2.Counts → g.origin x.1 x.2.1 ≠ g.current := fun hc heq =>
      Bool.false_ne_true (((h.holder_current x.2.1).mp ((hheld hc _ hcurrent).mp heq)).symm.trans hpath)
    have hcur := h.current.trans (share_cons_of_ne hnot)
    cases hprev : c.prevPath with
    | none => exact h.counters c.path c.prevPath rfl rfl hcur fun prev' hprev' => nomatch hprev.symm.trans hprev'
    | some prev =>
      have hsome : c.prevPath.isSome = true := by rw [hprev]; rfl
      have hkn : g.Known c g.previous := .inr ⟨hsome, rfl⟩
      have hhold : g.holder c x.2.1 = if precedes prev x.2.1 = false then some g.previous else none := by
        unfold Ghost.holder
        rw [if_neg (by simp [hpath]), hprev]
      dsimp only
      cases hpn : precedes prev x.2.1 with
      | false =>
        rw [if_pos hpn] at hhold
        rw [Bool.not_false, if_pos rfl, removeFromPath_eq (h.previous prev hprev) fun hc => (hheld hc _ hkn).mpr hhold]
        refine h.counters _ _ rfl (by rw [hprev]; rfl) hcur fun prev' hprev' => ?_
        cases hprev'
        rfl
      | true =>
        rw [if_neg (by simp [hpn])] at hhold
        rw [Bool.not_true, if_neg Bool.false_ne_true]
        have hother : x.2.2.Counts → g.origin x.1 x.2.1 ≠ g.previous := by
          intro hc heq
          cases hhold.symm.trans ((hheld hc _ hkn).mp heq)
        refine h.counters c.path c.prevPath rfl rfl hcur fun prev' hprev' => ?_
        rw [h.previous prev' hprev', share_cons_of_ne hother]

theorem Accounted.detach (h : Accounted g c fl) {space : SpaceId} {value : PacketSpace} {left : List (Nat × SentPacket)}
    (hsent : ∀ e ∈ value.sentPackets, e ∈ (c.spaces space).sentPackets)
    (hleft : ∀ e ∈ left, e ∈ (c.spaces space).sentPackets)
    (htot : ∀ w, (c.spaces space).sentPackets.total w = (left.map w).sum + value.sentPackets.total w)
    (hnext : value.nextPacketNumber = (c.spaces space).nextPacketNumber)
    (helic : ∀ e ∈ value.sentPackets,
      value.largestAckElicitingSent = (c.spaces space).largestAckElicitingSent) :
    Accounted g (c.setSpace space value) (left.map (fun e => (space, e)) ++ fl) := by
  have hamt : ∀ w id, g.amount w id (c.setSpace space value) (left.map (fun e => (space, e)) ++ fl) =
      g.amount w id c fl := by
    intro w id
    have hset := @amount_setSpace g c fl w id space value
    have hsum := htot (g.part w id space)
    have hfl : g.amount w id (c.setSpace space value) (left.map (fun e => (space, e)) ++ fl) =
        (left.map (g.part w id space)).sum + g.amount w id (c.setSpace space value) fl := by
      unfold Ghost.amount
      have hmap : (left.map fun e => (space, e)).map (fun x => g.part w id x.1 x.2) = left.map (g.part w id space) := by
        rw [map_map]
        rfl
      rw [map_append, sum_append, hmap]
      omega
    omega
  have hshare : ∀ id, g.share id (c.setSpace space value) (left.map (fun e => (space, e)) ++ fl) = g.share id c fl := by
    intro id
    unfold Ghost.share
    rw [hamt, hamt]
  refine ⟨h.toTracked.shrink ⟨fun other => ?_, fun x hx => ?_, fun other => ?_, fun other => ?_, rfl, rfl⟩,
    h.current.trans (hshare _).symm, fun prev hprev => (h.previous prev hprev).trans (hshare _).symm⟩
  · exact setSpace_cases other (fun e he => ⟨e, hsent e he, rfl, rfl, rfl⟩) fun _ e he => ⟨e, he, rfl, rfl, rfl⟩
  · rcases mem_append.mp hx with hx | hx
    · obtain ⟨e, he, rfl⟩ := mem_map.mp hx
      exact .inr (hleft e he)
    · exact .inl hx
  · exact setSpace_cases other hnext.ge fun _ => le_rfl
  · exact setSpace_cases other helic fun _ _ _ => rfl

abbrev Sound (P : Connection → Prop) (x : Except Panic Connection) : Prop := Holds P (· ≠ .inFlight) x

section Settles
variable {P : Floating → Connection → Prop} {E : Panic → Prop}

theorem orPanic_holds {α : Type} {Q : α → Prop} {panic : Panic} {x : Option α} (hpanic : E panic) (h : ∀ a, x = some a → Q a) :
    Holds Q E (orPanic panic x) := by
  cases x with
  | none => exact hpanic
  | some a => exact h a rfl

/-- What acknowledgments and losses keep if taking a packet out of its space and off its path does. -/
structure Settles (P : Floating → Connection → Prop) (E : Panic → Prop) : Prop where
  unwrap : E .unwrap
  setSpace : ∀ {c} space largestAckedPacket lossTime pending, P [] c →
    P [] (c.setSpace space { c.spaces space with largestAckedPacket, lossTime, pending })
  setMtud : ∀ {fl c} mtud, P fl c → P fl (c.setMtud mtud)
  retransmitted : ∀ {c} retransmitted, P [] c → P [] { c with retransmitted }
  take : ∀ {c} space pn, P [] c → Holds (fun r => P (r.2.toList.map (fun p => (space, pn, p)) ++ []) (c.setSpace space r.1)) E
    ((c.spaces space).take pn)
  remove : ∀ {c space e}, P [(space, e)] c → Holds (P []) E (c.removeInFlight e.1 e.2)

section
variable (hP : Settles P E)
include hP

theorem Settles.ackPacket (space : SpaceId) (pn : Nat) (h : P [] c) : Holds (P []) E (ackPacket space c pn) := by
  refine (hP.take space pn h).bind fun r hr => ?_
  obtain ⟨value, info⟩ := r
  cases info with
  | none => exact hr
  | some packet => exact hP.remove (hP.setMtud _ hr)

theorem Settles.lost (space : SpaceId) (pn : Nat) (h : P [] c)
    {f : SentPacket → Connection → Except Panic Connection} (hf : ∀ packet d, P [] d → Holds (P []) E (f packet d)) :
    Holds (P []) E (do
      let (value, info) ← (c.spaces space).take pn
      let packet ← orPanic .unwrap info
      let d ← (c.setSpace space value).removeInFlight pn packet
      f packet d) := by
  refine (hP.take space pn h).bind fun r hr => ?_
  obtain ⟨value, info⟩ := r
  refine (orPanic_holds hP.unwrap fun packet hp => hp : Holds (fun packet => info = some packet) _ _).bind fun packet hp => ?_
  subst hp
  exact (hP.remove hr).bind (hf packet)

theorem Settles.losePacket (space : SpaceId) (pn : Nat) (h : P [] c) : Holds (P []) E (losePacket space c pn) :=
  hP.lost space pn h fun _ _ hd => hP.retransmitted _ (hP.setMtud _ (hP.setSpace space _ _ _ hd))

theorem Settles.loseProbe (pn : Nat) (h : P [] c) : Holds (P []) E (c.loseProbe pn) :=
  hP.lost .data pn h fun _ _ hd => hP.setMtud _ hd

theorem Settles.detectLostPackets (h : P [] c) (config : PathConfig) (space : SpaceId) (now lossDelay : Nat) :
    Holds (P []) E (c.detectLostPackets config space now lossDelay) := by
  refine (orPanic_holds hP.unwrap fun _ _ => trivial : Holds (fun _ => True) _ _).bind fun lostSendTime _ => ?_
  refine (orPanic_holds hP.unwrap fun _ _ => trivial : Holds (fun _ => True) _ _).bind fun largestAcked _ => ?_
  refine (Holds.forEach (fun _ => P []) (fun _ pn _ => hP.losePacket space pn) _ (hP.setSpace space _ _ _ h)).bind fun d hd => ?_
  have hd' := hP.setMtud (d.path.mtud.blackHoleDetected now) hd
  dsimp only
  split <;> split
  · exact hP.loseProbe _ hd
  · exact hP.loseProbe _ hd'
  · exact hd
  · exact hd'

theorem Settles.onAckReceived (h : P [] c) (config : PathConfig) (space : SpaceId) (ack : Connection.Ack)
    (now lossDelay : Nat) : Holds (P []) E ((c.onAckReceived config space ack now lossDelay).map Prod.fst) := by
  have hmax : P [] (c.recordLargest space ack.largest) := by
    unfold recordLargest
    dsimp only
    split
    · exact hP.setSpace space _ _ _ h
    · exact h
  unfold Connection.onAckReceived
  split
  · exact h
  dsimp only
  split
  · exact hmax
  split
  · exact hmax
  have hacked := Holds.forEach (fun _ => P []) (fun _ pn _ => hP.ackPacket space pn)
    ((c.recordLargest space ack.largest).newlyAcked space ack) hmax
  refine Holds.map (hacked.bind fun d hd => (hP.detectLostPackets hd config space now lossDelay).bind fun e he => ?_)
    fun r hr => hr
  exact he

end

end Settles

theorem Accounted.take (h : Accounted g c fl) (space : SpaceId) (pn : Nat) :
    Holds (fun r => Accounted g (c.setSpace space r.1) (r.2.toList.map (fun p => (space, pn, p)) ++ fl)) (· ≠ .inFlight)
      ((c.spaces space).take pn) := by
  unfold PacketSpace.take
  cases hget : (c.spaces space).sentPackets.get pn with
  | none => exact h.same (SameBooks.setSpace rfl le_rfl rfl)
  | some packet =>
    have hmem := get_eq_some.mp hget
    refine (orPanic_holds nofun fun inFlight _ => trivial : Holds (fun _ => True) _ _).map fun inFlight _ => ?_
    refine @Accounted.detach g c fl h space _ [(pn, packet)] (fun e he => (mem_remove.mp he).2) (fun e he => ?_)
      (fun w => ?_) rfl fun _ _ => rfl
    · obtain rfl := mem_singleton.mp he
      exact hmem
    · rw [total_remove hmem, map_singleton, sum_singleton]

theorem Accounted.takeAll (h : Accounted g c fl) {space : SpaceId} {value : PacketSpace}
    (hsent : value.sentPackets = .empty) (hnext : value.nextPacketNumber = (c.spaces space).nextPacketNumber) :
    Accounted g (c.setSpace space value) ((c.spaces space).sentPackets.entries.map (fun e => (space, e)) ++ fl) := by
  refine h.detach (fun e he => ?_) (fun e he => he) (fun w => ?_) hnext fun e he => ?_
  · rw [hsent] at he
    exact absurd he (not_mem_empty e)
  · rw [hsent, total_empty, add_zero]
    rfl
  · rw [hsent] at he
    exact absurd he (not_mem_empty e)

/-- Whatever `removeInFlight` does, only counters change. -/
structure SameButCounters (c c' : Connection) : Prop where
  spaces : c'.spaces = c.spaces
  mtud : c'.path.mtud = c.path.mtud
  prevMtud : c'.prevPath.map (·.mtud) = c.prevPath.map (·.mtud)
  pathValidation : c'.pathValidation = c.pathValidation
  established : c'.established = c.established
  retransmitted : c'.retransmitted = c.retransmitted

theorem removeInFlight_same (c : Connection) (pn : Nat) (p : SentPacket) :
    Holds (SameButCounters c) (fun _ => True) (c.removeInFlight pn p) := by
  have hpath : ∀ path : PathData, Holds (fun path' => path'.mtud = path.mtud) (fun _ => True) (removeFromPath path p) := by
    intro path
    unfold removeFromPath
    cases path.inFlight.remove p.size p.ackEliciting with
    | none => trivial
    | some inFlight => rfl
  have hsame : SameButCounters c c := ⟨rfl, rfl, rfl, rfl, rfl, rfl⟩
  unfold removeInFlight
  split
  · exact (hpath c.path).map fun path hmtud => ⟨rfl, hmtud, rfl, rfl, rfl, rfl⟩
  split
  · exact hsame
  next prev hprev =>
  split
  · exact (hpath prev).map fun prev' hmtud => ⟨rfl, rfl, by rw [hprev]; exact congrArg some hmtud, rfl, rfl, rfl⟩
  · exact hsame

theorem abandonAll_same (es : List (Nat × SentPacket)) :
    Holds (SameButCounters c) (fun _ => True) (forEach abandon c es) := by
  refine Holds.forEach (fun _ => SameButCounters c) (fun d e _ hd => ?_) es ⟨rfl, rfl, rfl, rfl, rfl, rfl⟩
  refine (removeInFlight_same d e.1 e.2).imp fun d' hd' => ?_
  exact ⟨hd'.spaces.trans hd.spaces, hd'.mtud.trans hd.mtud, hd'.prevMtud.trans hd.prevMtud,
    hd'.pathValidation.trans hd.pathValidation, hd'.established.trans hd.established,
    hd'.retransmitted.trans hd.retransmitted⟩

/-! ### Acknowledged, lost and abandoned packets -/

theorem Accounted.settles (g : Ghost) : Settles (fun fl c => Accounted g c fl) (· ≠ .inFlight) where
  unwrap := nofun
  setSpace _ _ _ _ h := h.same (SameBooks.setSpace rfl le_rfl rfl)
  setMtud _ h := h.same (SameBooks.setMtud _ _)
  retransmitted _ h := h.same ⟨fun _ => rfl, fun _ => le_rfl, fun _ => rfl, rfl, rfl, rfl⟩
  take space pn h := h.take space pn
  remove h := h.remove

variable {es : List (Nat × SentPacket)}

theorem Accounted.forEach {space : SpaceId} {f : Connection → Nat × SentPacket → Except Panic Connection}
    (hf : ∀ d e fl, Accounted g d ((space, e) :: fl) → Sound (Accounted g · fl) (f d e))
    (h : Accounted g c (es.map (fun e => (space, e)) ++ [])) : Sound (Accounted g · []) (Library.forEach f c es) := by
  exact Holds.forEach (fun es d => Accounted g d (es.map (fun e => (space, e)) ++ [])) (fun d e es hd => hf d e _ hd) es h

theorem Accounted.abandonAll (h : Accounted g c (es.map (fun e => (space, e)) ++ [])) :
    Sound (Accounted g · []) (Library.forEach abandon c es) :=
  h.forEach fun _ _ _ hd => hd.remove

theorem Accounted.discardSpace (h : Accounted g c []) (space : SpaceId) :
    Sound (Accounted g · []) (c.discardSpace space) := by
  have hall := @Accounted.takeAll g c [] h space
    { c.spaces space with lossTime := none, inFlight := 0, sentPackets := .empty } rfl rfl
  exact hall.abandonAll

theorem Accounted.rejectZeroRtt (h : Accounted g c []) : Sound (Accounted g · []) c.rejectZeroRtt := by
  have hall := @Accounted.takeAll g c [] h .data { c.spaces .data with pending := .empty, sentPackets := .empty } rfl rfl
  exact hall.abandonAll

theorem Accounted.requeueAll (h : Accounted g c (es.map (fun e => (SpaceId.data, e)) ++ [])) :
    Sound (Accounted g · []) (Library.forEach requeue c es) := by
  refine h.forEach fun d e fl hd => hd.remove.bind fun d' hd' => ?_
  exact hd'.same (SameBooks.setSpace rfl le_rfl rfl)

section
variable (h : Accounted g c [])
include h

theorem Accounted.inferAck (space : SpaceId) (pn : Nat) : Sound (Accounted g · []) (c.inferAck space pn) := by
  refine (h.take space pn).bind fun r hr => ?_
  obtain ⟨value, info⟩ := r
  cases info with
  | none => exact hr
  | some packet => exact hr.remove

theorem Accounted.requeueZeroRtt : Sound (Accounted g · []) c.requeueZeroRtt := by
  have hall := @Accounted.takeAll g c [] h .data { c.spaces .data with sentPackets := .empty } rfl rfl
  exact hall.requeueAll

/-- The space that starts over has no packets, since it was discarded. -/
theorem Accounted.restartInitial (hemp : (c.spaces .initial).sentPackets = .empty)
    (clientHello : Bytes) : Accounted g (c.restartInitial clientHello) [] := by
  have hall := @Accounted.takeAll g c [] h .initial { PacketSpace.new with
    nextPacketNumber := (c.spaces .initial).nextPacketNumber
    pending := { Pending.empty with crypto := [⟨0, clientHello⟩] } } rfl rfl
  rw [hemp] at hall
  exact hall

theorem Accounted.onRetry (clientHello : Bytes) : Sound (Accounted g · []) (c.onRetry clientHello) := by
  refine (h.inferAck .initial 0).bind fun d hd => ?_
  have hemp : Holds (fun e : Connection => (e.spaces .initial).sentPackets = .empty) (fun _ => True)
      (d.discardSpace .initial) :=
    (abandonAll_same _).imp fun e he => by
      rw [he.spaces]
      rfl
  refine ((hd.discardSpace .initial).and hemp).bind fun e he => ?_
  exact (he.1.restartInitial he.2 clientHello).requeueZeroRtt

end

/-! ### Packets are sent -/

def Ghost.send (g : Ghost) (space : SpaceId) (pn : Nat) : Ghost :=
  { g with origin := fun s n => if s = space ∧ n = pn then g.current else g.origin s n }

/-- No packet was sent on another path, or only numbers above all others can be. -/
def Original (c : Connection) : Prop :=
  c.prevPath = none ∧ (c.path.firstPacket = some 0 ∨ ∀ space, (c.spaces space).nextPacketNumber = 0)

/-- If a packet has to be forgotten, it counts for nothing or on the current path. -/
def ForgetsOwn (c : Connection) (space : SpaceId) (packet : SentPacket) : Prop :=
  packet.ackEliciting = false → maxUnackedNonAckElicitingTail < (c.spaces space).unackedNonAckElicitingTail →
    ∀ e ∈ (c.spaces space).sentPackets.firstGT (c.spaces space).largestAckElicitingSent,
      e.2.size = 0 ∨ precedes c.path e.1 = false

theorem le_txNumber (space : SpaceId) (skip : Bool) : (c.spaces space).nextPacketNumber ≤ c.txNumber space skip :=
  le_self_add

section Send
variable {space : SpaceId} {n : Nat} {packet : SentPacket} {value : PacketSpace} {path : PathData}

theorem Ghost.send_origin_self (g : Ghost) (space : SpaceId) (n : Nat) : (g.send space n).origin space n = g.current :=
  if_pos ⟨rfl, rfl⟩

variable {other : SpaceId} {e : Nat × SentPacket}

theorem Ghost.send_origin_of_ne {pn : Nat} (h : ¬ (other = space ∧ pn = n)) :
    (g.send space n).origin other pn = g.origin other pn :=
  if_neg h

theorem amount_send (hblw : ∀ e ∈ (c.spaces space).sentPackets, e.1 < n)
    (hsent : value.sentPackets = (c.spaces space).sentPackets.insert n packet) (w : SentPacket → Nat) (id : Nat) :
    (g.send space n).amount w id (c.setSpace space value) [] =
      (if g.current = id then w packet else 0) + g.amount w id c [] := by
  have hpart : ∀ other, ∀ e ∈ (c.spaces other).sentPackets, (g.send space n).part w id other e = g.part w id other e := by
    intro other e he
    unfold Ghost.part
    rw [Ghost.send_origin_of_ne]
    rintro ⟨rfl, hn⟩
    exact absurd hn (hblw e he).ne
  have htot : ∀ other, (c.spaces other).sentPackets.total ((g.send space n).part w id other) =
      (c.spaces other).sentPackets.total (g.part w id other) := fun other => total_congr (hpart other)
  have hold : (g.send space n).amount w id c [] = g.amount w id c [] := by
    unfold Ghost.amount
    simp [htot]
  have hset := @amount_setSpace (g.send space n) c [] w id space value
  have hnew : (g.send space n).part w id space (n, packet) = if g.current = id then w packet else 0 := by
    unfold Ghost.part
    rw [Ghost.send_origin_self]
  rw [hsent, total_insert fun e he => (hblw e he).ne, hnew, hold] at hset
  omega

/-- What is known of a packet that goes out: its number is above all others of its space, and the first number of the
    path is at or below it and does not change for the packets of other paths. -/
structure Sendable (c : Connection) (space : SpaceId) (n : Nat) : Prop where
  next : (c.spaces space).nextPacketNumber ≤ n
  data : space = .data ∨ (Original c ∧ (c.path.firstPacket = some 0 ∨ n = 0))

structure Enters (c : Connection) (space : SpaceId) (n : Nat) (packet : SentPacket) (value : PacketSpace) (path : PathData) :
    Prop where
  sent : value.sentPackets = (c.spaces space).sentPackets.insert n packet
  next : value.nextPacketNumber = n + 1
  eliciting : value.largestAckElicitingSent = if packet.ackEliciting then n else (c.spaces space).largestAckElicitingSent
  first : path.firstPacket = c.path.firstPacket.or (some n)
  count : path.inFlight = c.path.inFlight.insert packet.size packet.ackEliciting

theorem sendable (hspace : space = .data ∨ Original c) (skip : Bool) : Sendable c space (c.txNumber space skip) where
  next := le_txNumber space skip
  data := by
    by_cases hdata : space = .data
    · exact .inl hdata
    have horiginal := hspace.resolve_left hdata
    refine .inr ⟨horiginal, horiginal.2.imp_right fun hzero => ?_⟩
    unfold txNumber
    simp [hdata, hzero space]

theorem Tracked.first_le (h : Tracked g c []) (hs : Sendable c space n) {first : Nat}
    (hfst : c.path.firstPacket = some first) : first ≤ n := by
  rcases hs.data with rfl | ⟨horiginal, hzero⟩
  · exact (h.first first hfst).trans hs.next
  rcases horiginal.2 with h0 | h0
  · obtain rfl := Option.some.inj (h0.symm.trans hfst)
    exact Nat.zero_le n
  have := h.first first hfst
  rw [h0 .data] at this
  omega

theorem Tracked.lt_of_none (h : Tracked g c []) (hs : Sendable c space n) (hfst : c.path.firstPacket = none)
    (he : e ∈ (c.spaces other).sentPackets) : e.1 < n := by
  rcases hs.data with rfl | ⟨horiginal, -⟩
  · by_cases ho : other = .data
    · subst ho
      exact (h.below _ e he).trans_le hs.next
    rw [(h.early other e ho he).1] at hfst
    cases hfst
  rcases horiginal.2 with h0 | h0
  · rw [h0] at hfst
    cases hfst
  have := h.below other e he
  rw [h0 other] at this
  omega

theorem Tracked.precedes_send (h : Tracked g c []) (hs : Sendable c space n)
    (hfst : path.firstPacket = c.path.firstPacket.or (some n)) :
    precedes path n = false ∧
      ∀ other e, e ∈ (c.spaces other).sentPackets → precedes path e.1 = precedes c.path e.1 := by
  unfold precedes
  cases hc : c.path.firstPacket with
  | none =>
    rw [hc, Option.none_or] at hfst
    rw [hfst]
    refine ⟨by simp, fun other e he => ?_⟩
    simpa using h.lt_of_none hs hc he
  | some first =>
    rw [hc, Option.some_or] at hfst
    rw [hfst]
    refine ⟨?_, fun _ _ _ => rfl⟩
    simpa using h.first_le hs hc

theorem mem_send (hsent : value.sentPackets = (c.spaces space).sentPackets.insert n packet)
    (he : e ∈ ((c.setSpace space value).spaces other).sentPackets) :
    (other = space ∧ e = (n, packet)) ∨ (e ∈ (c.spaces other).sentPackets ∧ ¬ (other = space ∧ e.1 = n)) := by
  by_cases ho : other = space
  · subst ho
    rw [setSpace_self, hsent] at he
    rcases mem_insert.mp he with he | ⟨hne, he⟩
    · exact .inl ⟨rfl, he⟩
    · exact .inr ⟨he, fun hn => hne hn.2⟩
  rw [setSpace_of_ne value ho] at he
  exact .inr ⟨he, fun hn => ho hn.1⟩

theorem Sendable.next_le (hs : Sendable c space n) (hnext : value.nextPacketNumber = n + 1) (other : SpaceId) :
    (c.spaces other).nextPacketNumber ≤ ((c.setSpace space value).spaces other).nextPacketNumber := by
  refine setSpace_cases other ?_ fun _ => le_rfl
  rw [hnext]
  exact hs.next.trans (Nat.le_succ n)

section
variable (h : Tracked g c [])
include h

theorem Tracked.first_early (hs : Sendable c space n) (hspace : space ≠ .data)
    (hfst : path.firstPacket = c.path.firstPacket.or (some n)) : path.firstPacket = some 0 := by
  rw [hfst]
  rcases (hs.data.resolve_left hspace).2 with h0 | rfl
  · rw [h0]
    rfl
  cases hc : c.path.firstPacket with
  | none => rfl
  | some first =>
    obtain rfl : first = 0 := Nat.le_zero.mp (h.first_le hs hc)
    rfl

theorem Tracked.first_send (hs : Sendable c space n)
    (hin : Enters c space n packet value path) {first : Nat} (hf : path.firstPacket = some first) :
    first ≤ ((c.setSpace space value).spaces .data).nextPacketNumber := by
  by_cases hspace : space = .data
  · subst hspace
    rw [setSpace_self, hin.next]
    rw [hin.first] at hf
    cases hc : c.path.firstPacket with
    | some first' =>
      rw [hc] at hf
      cases hf
      exact (h.first_le hs hc).trans (Nat.le_succ n)
    | none =>
      rw [hc] at hf
      cases hf
      exact Nat.le_succ n
  obtain rfl := Option.some.inj ((h.first_early hs hspace hin.first).symm.trans hf)
  exact zero_le

theorem Tracked.held_send (hs : Sendable c space n) (hin : Enters c space n packet value path)
    (he : e ∈ ((c.setSpace space value).spaces other).sentPackets) (hcnt : e.2.Counts) :
    (g.send space n).Held { c.setSpace space value with path } other e.1 := by
  obtain ⟨hnew, hkept⟩ := h.precedes_send hs hin.first
  intro id hkn
  rcases mem_send hin.sent he with ⟨rfl, rfl⟩ | ⟨hold, hne⟩
  · have hhold : (g.send other n).holder { c.setSpace other value with path } n = some g.current := if_pos hnew
    rw [Ghost.send_origin_self, hhold, Option.some.injEq]
  have hhold : (g.send space n).holder { c.setSpace space value with path } e.1 = g.holder c e.1 := by
    unfold Ghost.holder
    rw [hkept other e hold]
    rfl
  rw [Ghost.send_origin_of_ne hne, hhold]
  exact h.held other e hold hcnt id hkn

theorem Tracked.tail_send (hs : Sendable c space n) (hin : Enters c space n packet value path)
    (he : e ∈ ((c.setSpace space value).spaces other).sentPackets)
    (hlt : ((c.setSpace space value).spaces other).largestAckElicitingSent < e.1) : e.2.ackEliciting = false := by
  rcases mem_send hin.sent he with ⟨rfl, rfl⟩ | ⟨hold, -⟩
  · rw [setSpace_self, hin.eliciting] at hlt
    cases hack : packet.ackEliciting with
    | false => rfl
    | true =>
      rw [hack, if_pos rfl] at hlt
      exact absurd hlt (lt_irrefl n)
  by_cases ho : other = space
  · subst ho
    rw [setSpace_self, hin.eliciting] at hlt
    split at hlt
    · exact absurd hlt ((h.below other e hold).trans_le hs.next).not_gt
    · exact h.tail other e hold hlt
  rw [setSpace_of_ne value ho] at hlt
  exact h.tail other e hold hlt

end

theorem Accounted.send (h : Accounted g c []) (hs : Sendable c space n) (hin : Enters c space n packet value path) :
    Accounted (g.send space n) { c.setSpace space value with path } [] := by
  have ht := h.toTracked
  have hamt : ∀ w id, (g.send space n).amount w id { c.setSpace space value with path } [] =
      (if g.current = id then w packet else 0) + g.amount w id c [] := fun w id =>
    amount_send (fun e he => (h.below space e he).trans_le hs.next) hin.sent w id
  refine { held := fun other e he hcnt => ht.held_send hs hin he hcnt
           floating := nofun
           distinct := h.distinct
           currentLt := h.currentLt
           previousLt := h.previousLt
           originLt := fun other pn => ?_
           below := fun other e he => ?_
           first := fun first hf => ht.first_send hs hin hf
           prevFirst := fun prev first hprev hf => (h.prevFirst prev first hprev hf).trans (hs.next_le hin.next .data)
           early := fun other e hearly he => ?_
           tail := fun other e he hlt => ht.tail_send hs hin he hlt
           current := ?_
           previous := fun prev hprev => ?_ }
  · by_cases hcase : other = space ∧ pn = n
    · obtain ⟨rfl, rfl⟩ := hcase
      rw [Ghost.send_origin_self]
      exact h.currentLt
    rw [Ghost.send_origin_of_ne hcase]
    exact h.originLt other pn
  · rcases mem_send hin.sent he with ⟨rfl, rfl⟩ | ⟨hold, -⟩
    · have hlast : ((c.setSpace other value).spaces other).nextPacketNumber = n + 1 := by rw [setSpace_self, hin.next]
      exact hlast ▸ Nat.lt_succ_self n
    · exact (h.below other e hold).trans_le (hs.next_le hin.next other)
  · rcases mem_send hin.sent he with ⟨rfl, -⟩ | ⟨hold, -⟩
    · exact ⟨ht.first_early hs hearly hin.first, (hs.data.resolve_left hearly).1.1⟩
    obtain ⟨h0, hprev⟩ := h.early other e hearly hold
    refine ⟨hin.first.trans ?_, hprev⟩
    rw [h0]
    rfl
  · refine hin.count.trans ?_
    unfold Ghost.share
    rw [hamt, hamt, h.current]
    simp [Ghost.send, InFlight.insert, Ghost.share, add_comm]
  · have hprev : c.prevPath = some prev := hprev
    have hne : g.current ≠ g.previous := fun heq => h.distinct (by rw [hprev]; rfl) heq.symm
    refine (h.previous prev hprev).trans ?_
    unfold Ghost.share
    rw [hamt, hamt]
    simp [Ghost.send, hne]

theorem Sendable.same {d : Connection} (hs : Sendable c space n)
    (hnext : ∀ other, (d.spaces other).nextPacketNumber = (c.spaces other).nextPacketNumber)
    (hfst : d.path.firstPacket = c.path.firstPacket) (hprev : d.prevPath = c.prevPath) : Sendable d space n where
  next := hnext space ▸ hs.next
  data := by
    unfold Original
    simp only [hnext, hfst, hprev]
    exact hs.data

theorem Accounted.sent (h : Accounted g c []) (hs : Sendable c space n) (packet : SentPacket) {d : Connection}
    (hsp : d.spaces = update c.spaces space value) (hprev : d.prevPath = c.prevPath)
    (hin : Enters c space n packet value d.path) :
    Accounted (g.send space n) d [] := by
  refine (h.send hs hin).same
    ⟨fun other => ?_, fun other => ?_, fun other => ?_, rfl, rfl, congrArg _ hprev⟩
  · exact congrArg sentPackets (congrFun hsp other)
  · exact (congrArg nextPacketNumber (congrFun hsp other)).ge
  · exact congrArg largestAckElicitingSent (congrFun hsp other)

end Send

theorem Accounted.forget (h : Accounted g c []) {e : Nat × SentPacket} (inFlight : Nat)
    (he : (c.spaces space).sentPackets.firstGT (c.spaces space).largestAckElicitingSent = some e)
    (hown : e.2.size = 0 ∨ precedes c.path e.1 = false) :
    ∃ d, Accounted g d [] ∧ d.spaces = update c.spaces space { c.spaces space with
        sentPackets := (c.spaces space).sentPackets.remove e.1, inFlight } ∧
      d.path.firstPacket = c.path.firstPacket ∧ d.prevPath = c.prevPath ∧
      c.path.inFlight = ⟨e.2.size + d.path.inFlight.bytes, d.path.inFlight.ackEliciting⟩ := by
  obtain ⟨hmem, hgt, -⟩ := firstGT_eq_some he
  have hack := h.tail space e hmem hgt
  have horig : e.2.Counts → g.origin space e.1 = g.current := fun hc => by
    rcases hown with hzero | hpath
    · rcases hc with hpos | htrue
      · exact absurd hzero hpos.ne'
      · exact absurd (hack.symm.trans htrue) Bool.false_ne_true
    · exact (h.held space e hmem hc _ (.inl rfl)).mpr (Ghost.holder_of_current hpath)
  have hfloat := @Accounted.detach g c [] h space { c.spaces space with
      sentPackets := (c.spaces space).sentPackets.remove e.1, inFlight } [e]
    (fun e he => (mem_remove.mp he).2) (fun _ he => mem_singleton.mp he ▸ hmem)
    (fun w => by rw [total_remove hmem, map_singleton, sum_singleton]) rfl fun _ _ => rfl
  refine ⟨_, hfloat.removeCurrent horig, rfl, rfl, rfl, hfloat.current.trans ?_⟩
  rw [map_singleton, singleton_append, share_cons horig, hack, Bool.toNat_false, zero_add]
  rfl

theorem Accounted.finishAndTrack (h : Accounted g c []) {space : SpaceId} {packet : SentPacket} (skip : Bool)
    (hspace : space = .data ∨ Original c) (hown : ForgetsOwn c space packet) :
    Sound (Accounted (g.send space (c.txNumber space skip)) · []) (c.finishAndTrack space skip packet) := by
  have hself : (c.allocate space skip).spaces space =
      { c.spaces space with nextPacketNumber := c.txNumber space skip + 1 } := update_self _ _ _
  have hs := sendable hspace skip
  unfold Connection.finishAndTrack sentOnPath PacketSpace.sent
  dsimp only
  rw [hself]
  cases hack : packet.ackEliciting with
  | true => exact h.sent hs packet (update_idem _ _ _) rfl ⟨rfl, rfl, by rw [hack]; rfl, rfl, by rw [hack]; rfl⟩
  | false =>
    rw [if_neg Bool.false_ne_true]
    split
    · next hfull =>
      unfold PacketSpace.forget
      split
      · exact fun hp => nomatch hp
      next number forgotten he =>
      cases hsub : checkedSub (c.spaces space).inFlight forgotten.size with
      | none => exact fun hp => nomatch hp
      | some inFlight =>
        obtain ⟨d, hd, hsp, hfst, hprev, hcount⟩ := h.forget inFlight he (hown hack hfull _ he)
        have hvalue := congrFun hsp space
        rw [update_self] at hvalue
        have hadd : (c.allocate space skip).path.inFlight.bytes + packet.size =
            forgotten.size + (d.path.inFlight.bytes + packet.size) := by
          rw [← add_assoc]
          exact congrArg (·.bytes + packet.size) hcount
        dsimp only [orPanic, Except.map, Functor.map, bind, Except.bind, InFlight.insert]
        rw [checkedSub_eq_some.mpr hadd]
        have hupdate : ∀ a b, update (update c.spaces space a) space b = update d.spaces space b := fun a b => by
          rw [hsp, update_idem, update_idem]
        refine hd.sent (hs.same (fun other => ?_) hfst hprev) packet (hupdate _ _) hprev.symm ⟨?_, rfl, ?_, ?_, ?_⟩
        · by_cases ho : other = space
          · rw [ho, hvalue]
          · rw [hsp, update_of_ne ho]
        · rw [hvalue]
          rfl
        · rw [hvalue, hack]
          rfl
        · rw [hfst]
          rfl
        · rw [hack]
          exact congrArg (fun n => InFlight.mk _ n) (congrArg InFlight.ackEliciting hcount)
    · exact h.sent hs packet (update_idem _ _ _) rfl ⟨rfl, rfl, by rw [hack]; rfl, rfl, by rw [hack]; rfl⟩

end SaorsaTransport.Recovery
