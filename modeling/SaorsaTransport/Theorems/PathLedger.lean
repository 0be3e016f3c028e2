import SaorsaTransport.Theorems.InFlight

/-! The counters of the paths over whole runs. They are exact as long as no path is left behind with packets in flight that
    the connection then takes for packets of another path. -/

namespace SaorsaTransport.Recovery
open Library Ghost BTreeMap Option

variable {g : Ghost} {c : Connection}

theorem Accounted.allocate (h : Accounted g c []) (space : SpaceId) (skip : Bool) :
    Accounted g (c.allocate space skip) [] := by
  have hsp : SameBooks c (c.setSpace space { c.spaces space with nextPacketNumber := c.txNumber space skip + 1 }) :=
    SameBooks.setSpace rfl ((le_txNumber space skip).trans (Nat.le_succ _)) rfl
  exact (h.same hsp).same ⟨fun _ => rfl, fun _ => le_rfl, fun _ => rfl, rfl, rfl, rfl⟩

variable {space : SpaceId} {e : Nat × SentPacket} {prev : PathData}

theorem Accounted.replace (h : Accounted g c []) {value : PacketSpace} {number : Nat}
    {packet packet' : SentPacket} (hmem : (number, packet) ∈ (c.spaces space).sentPackets)
    (hsent : value.sentPackets = (c.spaces space).sentPackets.insert number packet')
    (hsize : packet.size = packet'.size) (hack : packet.ackEliciting = packet'.ackEliciting)
    (hnext : value.nextPacketNumber = (c.spaces space).nextPacketNumber)
    (helic : value.largestAckElicitingSent = (c.spaces space).largestAckElicitingSent) :
    Accounted g (c.setSpace space value) [] := by
  have hamt : ∀ (w : SentPacket → Nat) (id : Nat), w packet' = w packet →
      g.amount w id (c.setSpace space value) [] = g.amount w id c [] := by
    intro w id hw
    have hset := @amount_setSpace g c [] w id space value
    have hpart : g.part w id space (number, packet') = g.part w id space (number, packet) := by
      unfold part
      rw [hw]
    rw [hsent, total_replace hmem hpart] at hset
    exact Nat.add_right_cancel hset
  have hshare : ∀ id, g.share id c [] = g.share id (c.setSpace space value) [] := by
    intro id
    unfold share
    rw [hamt _ id hsize.symm, hamt _ id (congrArg Bool.toNat hack.symm)]
  refine ⟨h.toTracked.shrink ⟨fun other e he => ?_, fun _ hx => .inl hx, fun other => ?_, fun other => ?_, rfl, rfl⟩,
    h.current.trans (hshare _), fun prev hprev => (h.previous prev hprev).trans (hshare _)⟩
  · rcases mem_send hsent he with ⟨rfl, rfl⟩ | ⟨hold, -⟩
    · exact ⟨_, hmem, rfl, hsize, hack⟩
    · exact ⟨e, hold, rfl, rfl, rfl⟩
  · exact setSpace_cases other hnext.ge fun _ => le_rfl
  · exact setSpace_cases other (fun _ _ => helic) fun _ _ _ => rfl

theorem Accounted.maybeQueueProbe (h : Accounted g c []) (streams : StreamsState) (space : SpaceId) :
    Accounted g (c.maybeQueueProbe streams space) [] := by
  unfold Connection.maybeQueueProbe
  dsimp only
  split
  · exact h
  split
  · exact h
  next number packet hfind =>
  have hmem : (number, packet) ∈ (c.spaces space).sentPackets := List.mem_of_find?_eq_some hfind
  exact h.replace hmem rfl rfl rfl rfl rfl

theorem Accounted.onPathResponse (h : Accounted g c []) (token : Nat) (remote : SocketAddr) :
    Accounted g (c.onPathResponse token remote) [] := by
  unfold Connection.onPathResponse
  split
  · refine h.same ⟨fun _ => rfl, fun _ => le_rfl, fun _ => rfl, rfl, rfl, ?_⟩
    rw [map_map]
    rfl
  · exact h

theorem Ghost.part_le_amount (he : e ∈ (c.spaces space).sentPackets)
    (w : SentPacket → Nat) (id : Nat) : g.part w id space e ≤ g.amount w id c [] := by
  have hle := le_total (w := g.part w id space) he
  unfold amount
  cases space <;> omega

theorem Accounted.origin_ne (h : Accounted g c []) (hzero : c.path.inFlight = .new)
    (he : e ∈ (c.spaces space).sentPackets) (hcnt : e.2.Counts) : g.origin space e.1 ≠ g.current := by
  intro horig
  have hshare := h.current.symm.trans hzero
  have hpart : ∀ w, g.amount w g.current c [] = 0 → w e.2 = 0 := by
    intro w hw
    have hle := g.part_le_amount he w g.current
    unfold part at hle
    rwa [if_pos horig, hw, Nat.le_zero] at hle
  rcases hcnt with hpos | htrue
  · exact hpos.ne' (hpart (·.size) (congrArg InFlight.bytes hshare))
  have hack := hpart (·.ackEliciting.toNat) (congrArg InFlight.ackEliciting hshare)
  rw [htrue] at hack
  cases hack

theorem Tracked.precedes_of_ne (h : Tracked g c [])
    (he : e ∈ (c.spaces space).sentPackets) (hcnt : e.2.Counts) (hne : g.origin space e.1 ≠ g.current) :
    precedes c.path e.1 = true := by
  by_contra hpn
  have hhold := (h.holder_current e.1).mpr (Bool.eq_false_iff.mpr hpn)
  exact hne ((h.held space e he hcnt _ (.inl rfl)).mpr hhold)

theorem Ghost.holder_previous {pn : Nat} (hprev : c.prevPath = some prev)
    (hpath : precedes c.path pn = true) : g.holder c pn = some g.previous ↔ precedes prev pn = false := by
  unfold holder
  rw [if_neg (by simp [hpath]), hprev]
  dsimp only
  split
  · next hpn => exact iff_of_true rfl hpn
  · next hpn => exact iff_of_false nofun hpn

theorem Tracked.share_fresh (h : Tracked g c []) : g.share g.fresh c [] = .new := by
  have hzero : ∀ w space, (c.spaces space).sentPackets.total (g.part w g.fresh space) = 0 := fun w space =>
    total_eq_zero fun e _ => if_neg (h.originLt space e.1).ne
  unfold share amount
  simp only [hzero, List.map_nil, List.sum_nil, add_zero]
  rfl

/-- A new path is taken; the one before is kept, or it is dropped. -/
def Ghost.enter (g : Ghost) (kept : Bool) : Ghost :=
  { g with current := g.fresh, previous := if kept then g.current else g.previous, fresh := g.fresh + 1 }

def Ghost.revert (g : Ghost) : Ghost := { g with current := g.previous }

section Move
variable {path : PathData} {prevPath : Option PathData} {pathValidation : Bool}

theorem precedes_of_none (h : path.firstPacket = none) (pn : Nat) : precedes path pn = true := by
  unfold precedes
  rw [h]
  rfl

theorem Tracked.enter (h : Tracked g c []) {kept : Bool} (hfst : path.firstPacket = none)
    (hearly : ∀ space, space ≠ .data → ∀ e, e ∉ (c.spaces space).sentPackets)
    (hprevFirst : ∀ prev first, prevPath = some prev → prev.firstPacket = some first →
      first ≤ (c.spaces .data).nextPacketNumber)
    (hprevLt : prevPath.isSome = true → (g.enter kept).previous < g.fresh)
    (hheld : ∀ prev space e, prevPath = some prev → e ∈ (c.spaces space).sentPackets → e.2.Counts →
      (g.origin space e.1 = (g.enter kept).previous ↔ precedes prev e.1 = false)) :
    Tracked (g.enter kept) { c with path, prevPath, pathValidation } [] := by
  have hhold : ∀ prev pn, prevPath = some prev → (g.enter kept).holder { c with path, prevPath, pathValidation } pn =
      if precedes prev pn = false then some (g.enter kept).previous else none := by
    intro prev pn hprev
    unfold holder
    rw [if_neg (by simp [precedes_of_none hfst]), hprev]
  refine { held := fun space e he hcnt id hkn => ?_
           floating := nofun
           distinct := fun hs => (hprevLt hs).ne
           currentLt := lt_add_one _
           previousLt := fun hs => (hprevLt hs).trans (lt_add_one _)
           originLt := fun space pn => (h.originLt space pn).trans (lt_add_one _)
           below := h.below
           first := fun first hf => nomatch hfst.symm.trans hf
           prevFirst := hprevFirst
           early := fun space e hsp he => absurd he (hearly space hsp e)
           tail := h.tail }
  rcases hkn with rfl | ⟨hsome, rfl⟩
  · -- Nothing was sent on the new path, and no number is held to belong to it.
    refine iff_of_false (h.originLt space e.1).ne ?_
    intro hnew
    cases hprev : prevPath with
    | none =>
      unfold holder at hnew
      rw [if_neg (by simp [precedes_of_none hfst]), hprev] at hnew
      cases hnew
    | some prev =>
      rw [hhold prev e.1 hprev] at hnew
      split at hnew
      · exact (hprevLt (by rw [hprev]; rfl)).ne (some.inj hnew)
      · cases hnew
  obtain ⟨prev, hprev⟩ := isSome_iff_exists.mp hsome
  rw [hhold prev e.1 hprev]
  refine (hheld prev space e hprev he hcnt).trans ?_
  split
  · next hpn => exact iff_of_true hpn rfl
  · next hpn => exact iff_of_false hpn nofun

theorem Accounted.enterKeeping (h : Accounted g c []) (hfst : path.firstPacket = none)
    (hcount : path.inFlight = .new) (hearly : ∀ space, space ≠ .data → ∀ e, e ∉ (c.spaces space).sentPackets)
    (hprevFirst : prev.firstPacket = c.path.firstPacket) (hprevCount : prev.inFlight = c.path.inFlight) :
    Accounted (g.enter true) { c with path, prevPath := some prev, pathValidation } [] where
  toTracked := by
    refine h.toTracked.enter hfst hearly (fun prev' first hprev hf => ?_) (fun _ => h.currentLt)
      fun prev' space e hprev he hcnt => ?_
    · cases hprev
      exact h.first first (hprevFirst ▸ hf)
    · cases hprev
      rw [precedes_congr hprevFirst]
      exact (h.held space e he hcnt _ (.inl rfl)).trans (h.holder_current e.1)
  current := hcount.trans h.toTracked.share_fresh.symm
  previous prev' hprev := by
    cases hprev
    exact hprevCount.trans h.current

theorem Accounted.enterDropping (h : Accounted g c []) (hzero : c.path.inFlight = .new) (hfst : path.firstPacket = none)
    (hcount : path.inFlight = .new) (hearly : ∀ space, space ≠ .data → ∀ e, e ∉ (c.spaces space).sentPackets) :
    Accounted (g.enter false) { c with path, pathValidation } [] where
  toTracked := by
    refine h.toTracked.enter hfst hearly h.prevFirst h.previousLt fun prev space e hprev he hcnt => ?_
    have hpath := h.precedes_of_ne he hcnt (h.origin_ne hzero he hcnt)
    exact (h.held space e he hcnt _ (.inr ⟨by rw [hprev]; rfl, rfl⟩)).trans (holder_previous hprev hpath)
  current := hcount.trans h.toTracked.share_fresh.symm
  previous := h.previous

theorem Accounted.revert (h : Accounted g c []) (hzero : c.path.inFlight = .new)
    (hprev : c.prevPath = some prev) (hfst : path.firstPacket = prev.firstPacket)
    (hcount : path.inFlight = prev.inFlight) :
    Accounted g.revert { c with path, prevPath := none, pathValidation } [] where
  __ := h
  held space e he hcnt id hkn := by
    rcases hkn with rfl | ⟨hnone, -⟩
    · have hpath := h.precedes_of_ne he hcnt (h.origin_ne hzero he hcnt)
      refine (h.held space e he hcnt _ (.inr ⟨by rw [hprev]; rfl, rfl⟩)).trans
        ((holder_previous hprev hpath).trans ?_)
      unfold holder
      rw [precedes_congr hfst]
      split
      · next hpn => exact iff_of_true hpn rfl
      · next hpn => exact iff_of_false hpn nofun
    · cases hnone
  floating := nofun
  distinct := nofun
  currentLt := h.previousLt (by rw [hprev]; rfl)
  previousLt := nofun
  first first hf := h.prevFirst prev first hprev (hfst ▸ hf)
  prevFirst := nofun
  early space e hsp he := nomatch (h.early space e hsp he).2.symm.trans hprev
  current := hcount.trans (h.previous prev hprev)
  previous := nofun

end Move

def Ghost.step (g : Ghost) (c : Connection) : Event → Ghost
  | .send space skip _ => g.send space (c.txNumber space skip)
  | .mtuProbe now skip => if c.probes now skip then g.send .data (c.txNumber .data skip) else g
  | .migrate .. => g.enter c.path.challenge.isNone
  | .pathValidation => if c.pathValidation && c.prevPath.isSome then g.revert else g
  | _ => g

/-- The event leaves no packet in flight on a path that the connection then loses sight of: early packets are sent
    on the first path only and are gone when the path changes, a path that is dropped has nothing in flight, and a packet
    that is forgotten is one of the current path. -/
def Orderly (c : Connection) : Event → Prop
  | .send space _ packet => (space = .data ∨ Original c) ∧ ForgetsOwn c space packet
  | .migrate .. => (c.path.challenge = none ∨ c.path.inFlight = .new) ∧
    (c.spaces .initial).sentPackets.isEmpty = true ∧ (c.spaces .handshake).sentPackets.isEmpty = true
  | .pathValidation => c.pathValidation = true → c.prevPath ≠ none → c.path.inFlight = .new
  | _ => True

instance : Decidable (Original c) :=
  decidable_of_iff (c.prevPath.isNone = true ∧ (c.path.firstPacket = some 0 ∨
    ((c.spaces .initial).nextPacketNumber = 0 ∧ (c.spaces .handshake).nextPacketNumber = 0 ∧
      (c.spaces .data).nextPacketNumber = 0))) (by
    unfold Original
    rw [isNone_iff_eq_none]
    refine and_congr_right fun _ => or_congr_right ⟨fun h space => ?_, fun h => ⟨h _, h _, h _⟩⟩
    cases space with
    | initial => exact h.1
    | handshake => exact h.2.1
    | data => exact h.2.2)

instance (space : SpaceId) (packet : SentPacket) : Decidable (ForgetsOwn c space packet) := by
  unfold ForgetsOwn
  infer_instance

instance : ∀ e, Decidable (Orderly c e) := fun e => by
  delta Orderly
  induction e using Event.casesOn <;> infer_instance

section
variable (h : Accounted g c [])
include h

theorem Accounted.sendMtuProbe (now : Nat) (skip : Bool) :
    Sound (Accounted (g.step c (.mtuProbe now skip)) · []) (c.sendMtuProbe now skip) := by
  unfold Connection.sendMtuProbe step Connection.probes
  dsimp only
  cases c.established with
  | false => exact h
  | true =>
    rw [if_pos rfl]
    cases hpoll : c.path.mtud.pollTransmit now (c.txNumber .data skip) with
    | mk mtud size =>
      have hmtud := h.same (SameBooks.setMtud c mtud)
      cases size with
      | none => exact hmtud
      | some size => exact hmtud.finishAndTrack skip (.inl rfl) fun hack => nomatch hack

theorem Accounted.migrate (config : PathConfig) (allowMtud : Bool) (peerMax : Nat)
    (remote : SocketAddr) (token prevToken : Nat) (hdrop : c.path.challenge = none ∨ c.path.inFlight = .new)
    (hinit : (c.spaces .initial).sentPackets.isEmpty = true)
    (hhandshake : (c.spaces .handshake).sentPackets.isEmpty = true) :
    Accounted (g.enter c.path.challenge.isNone) (c.migrate config allowMtud peerMax remote token prevToken) [] := by
  have hearly : ∀ space, space ≠ .data → ∀ e, e ∉ (c.spaces space).sentPackets := by
    intro space hsp
    cases space with
    | initial => exact isEmpty_iff.mp hinit
    | handshake => exact isEmpty_iff.mp hhandshake
    | data => exact absurd rfl hsp
  unfold Connection.migrate
  cases hchal : c.path.challenge with
  | none =>
    refine h.enterKeeping ?_ ?_ hearly rfl rfl
    · split <;> rfl
    · split <;> rfl
  | some challenge =>
    refine h.enterDropping (hdrop.resolve_left (by rw [hchal]; nofun)) ?_ ?_ hearly
    · split <;> rfl
    · split <;> rfl

theorem Accounted.onPathValidationTimeout (hdrop : c.pathValidation = true → c.prevPath ≠ none → c.path.inFlight = .new) :
    Accounted (g.step c .pathValidation) c.onPathValidationTimeout [] := by
  unfold Connection.onPathValidationTimeout step
  cases htm : c.pathValidation with
  | false => exact h
  | true =>
    cases hprev : c.prevPath with
    | none => exact h.same ⟨fun _ => rfl, fun _ => le_rfl, fun _ => rfl, rfl, rfl, rfl⟩
    | some prev => exact h.revert (hdrop htm (by rw [hprev]; nofun)) hprev rfl rfl

theorem Accounted.step (config : PathConfig) {e : Event} (hallow : Orderly c e) :
    Sound (Accounted (g.step c e) · []) (c.step config e) := by
  cases e with
  | send space skip packet => exact h.finishAndTrack skip hallow.1 hallow.2
  | sendUntracked skip => exact h.allocate .data skip
  | mtuProbe now skip => exact h.sendMtuProbe now skip
  | queueProbe streams space => exact h.maybeQueueProbe streams space
  | ack space ack now lossDelay => exact (Accounted.settles g).onAckReceived h config space ack now lossDelay
  | lossDetection now lossDelay =>
    unfold Connection.step Connection.onLossDetectionTimeout
    dsimp only
    split
    · exact (Accounted.settles g).detectLostPackets h config _ now lossDelay
    · exact h
  | discardSpace space =>
    unfold Connection.step
    dsimp only
    split
    · exact h
    · exact h.discardSpace space
  | retry clientHello =>
    unfold Connection.step
    dsimp only
    split
    · exact h
    · exact h.onRetry clientHello
  | rejectZeroRtt =>
    unfold Connection.step
    dsimp only
    split
    · exact h
    · exact h.rejectZeroRtt
  | establish => exact h.same ⟨fun _ => rfl, fun _ => le_rfl, fun _ => rfl, rfl, rfl, rfl⟩
  | migrate allowMtud peerMax remote token prevToken =>
    exact h.migrate config allowMtud peerMax remote token prevToken hallow.1 hallow.2.1 hallow.2.2
  | pathResponse token remote => exact h.onPathResponse token remote
  | pathValidation => exact h.onPathValidationTimeout hallow
  | pathChanged => exact h.same ⟨fun _ => rfl, fun _ => le_rfl, fun _ => rfl, rfl, rfl, rfl⟩

end

structure Ledger where
  conn : Connection
  ghost : Ghost

namespace Ledger

def step (config : PathConfig) (l : Ledger) (e : Event) : Option Ledger :=
  (l.conn.step config e).toOption.map fun conn => ⟨conn, l.ghost.step l.conn e⟩

inductive Start (config : PathConfig) : Ledger → Prop
  | intro (remote : SocketAddr) (allowMtud : Bool) :
    Start config ⟨.new remote allowMtud config, ⟨fun _ _ => 0, 0, 0, 1⟩⟩

def outstanding (l : Ledger) (id : Nat) : InFlight := l.ghost.share id l.conn []

variable {config : PathConfig} {l : Ledger}

theorem Start.accounted (h : Start config l) : Accounted l.ghost l.conn [] := by
  obtain ⟨remote, allowMtud⟩ := h
  have hemp : ∀ space (e : Nat × SentPacket),
      e ∉ ((Connection.new remote allowMtud config).spaces space).sentPackets := fun _ => not_mem_empty
  exact { held := fun space e he => absurd he (hemp space e)
          floating := nofun
          distinct := nofun
          currentLt := Nat.one_pos
          previousLt := nofun
          originLt := fun _ _ => Nat.one_pos
          below := fun space e he => absurd he (hemp space e)
          first := nofun
          prevFirst := nofun
          early := fun space e _ he => absurd he (hemp space e)
          tail := fun space e he => absurd he (hemp space e)
          current := rfl
          previous := nofun }

def plainConfig : PathConfig := ⟨1200, 1200, none, 3⟩

def plainPacket (size : Nat) : SentPacket := ⟨10, size, true, .empty, []⟩

def fresh : Ledger := ⟨.new ⟨true, 1, 4433⟩ false plainConfig, ⟨fun _ _ => 0, 0, 0, 1⟩⟩

/-- One packet is sent on the first path, and one on the path after a migration. -/
def migration : List Event :=
  [.send .data false (plainPacket 1200), .migrate false 1472 ⟨true, 2, 4433⟩ 7 8, .send .data false (plainPacket 600)]

end Ledger
end SaorsaTransport.Recovery
