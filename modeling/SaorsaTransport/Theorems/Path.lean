import SaorsaTransport.Recovery

/-! At a fixed rate the bucket bounds what is sent in any interval, and it never asks to wait for too short a time. -/

namespace SaorsaTransport
open Library Option

variable {cwndRefill : Pacer.CwndRefill} {mtu rate : Nat}

namespace Pacer
variable {p : Pacer} {smoothedRtt bytes window now : Nat}

def burst (mtu rate : Nat) : Nat := computeCapacity 0 0 mtu (some rate)

theorem burst_bounds (mtu rate : Nat) : 10 * mtu ≤ burst mtu rate ∧ burst mtu rate ≤ 256 * mtu := by
  simp only [burst, computeCapacity, minBurstSize, maxBurstSize]
  omega

structure Sized (mtu rate : Nat) (p : Pacer) : Prop where
  capacity : p.capacity = burst mtu rate
  lastMtu : p.lastMtu = mtu
  lastRate : p.lastRate = some rate
  tokens : p.tokens ≤ burst mtu rate

theorem Sized.resize (h : Sized mtu rate p) (smoothedRtt window : Nat) :
    let q := p.resize smoothedRtt mtu window (some rate)
    Sized mtu rate q ∧ q.tokens = p.tokens ∧ q.prev = p.prev := by
  unfold Pacer.resize
  split
  · have hmin := min_eq_right h.tokens
    exact ⟨⟨rfl, rfl, rfl, hmin.trans_le h.tokens⟩, hmin, rfl⟩
  · exact ⟨h, rfl, rfl⟩

/-- A call goes through with the tokens that are there, or takes those that came in since the last time. -/
theorem Sized.delay (h : Sized mtu rate p) (hrate : 0 < rate) (hmtu : mtu < 2 ^ 16)
    (cwndRefill : CwndRefill) (smoothedRtt bytes window now : Nat) :
    let out := p.delay cwndRefill smoothedRtt bytes mtu window (some rate) now
    Sized mtu rate out.1 ∧
    (bytes ≤ p.tokens ∧ out.1.tokens = p.tokens ∧ out.1.prev = p.prev ∧ out.2 = none ∨ p.tokens < bytes ∧ out.1.prev = now ∧
      out.1.tokens = min (p.tokens + min (rate * (now - p.prev)) u128Max / nanosPerSecond) (burst mtu rate) ∧
      out.2 = if bytes ≤ out.1.tokens then none else
        some (now + min ((max bytes (burst mtu rate) - out.1.tokens) * nanosPerSecond / rate) u64Max)) := by
  obtain ⟨hsized, htok, hprev⟩ := h.resize smoothedRtt window
  have hfil : (some rate).filter (fun r => decide (0 < r)) = some rate := by simp [hrate]
  simp only [Pacer.delay, hfil]
  generalize p.resize smoothedRtt mtu window (some rate) = q at *
  rw [htok]
  split
  · next hle => exact ⟨hsized, .inl ⟨hle, htok, hprev, rfl⟩⟩
  next hlt =>
  have hcap := (burst_bounds mtu rate).2
  simp only [refill, htok, hprev, hsized.capacity]
  generalize min (rate * (now - p.prev)) u128Max / nanosPerSecond = refilled
  -- Neither of the two sums saturates below the capacity.
  have hsum : min (saturatingAdd p.tokens (min refilled u64Max)) (burst mtu rate) =
      min (p.tokens + refilled) (burst mtu rate) := by
    unfold saturatingAdd u64Max
    omega
  have hproj : min (min (p.tokens + refilled) u64Max) (burst mtu rate) = min (p.tokens + refilled) (burst mtu rate) := by
    unfold u64Max
    omega
  rw [hsum, hproj]
  exact ⟨⟨rfl, hsized.lastMtu, hsized.lastRate, min_le_right _ _⟩, .inr ⟨not_le.mp hlt, trivial, rfl, rfl⟩⟩

/-- Waiting for a deficit leaves less than a thousand tokens of it, since a nanosecond is worth no more. -/
theorem waited (hrate : 0 < rate) (hle : rate ≤ 10 ^ 12) (deficit elapsed : Nat) (hdeficit : deficit < 2 ^ 24)
    (helap : min (deficit * nanosPerSecond / rate) u64Max ≤ elapsed) :
    deficit ≤ min (rate * elapsed) u128Max / nanosPerSecond + 1000 := by
  have hwait : deficit * nanosPerSecond / rate ≤ u64Max := by
    refine (Nat.div_le_self _ _).trans ?_
    unfold nanosPerSecond u64Max
    omega
  rw [min_eq_left hwait] at helap
  have hsum := Nat.div_add_mod (deficit * nanosPerSecond) rate
  have hmod := Nat.mod_lt (deficit * nanosPerSecond) hrate
  have hmul := Nat.mul_le_mul_left rate helap
  have hdiv : deficit - 1000 ≤ min (rate * elapsed) u128Max / nanosPerSecond := by
    rw [Nat.le_div_iff_mul_le (by decide)]
    unfold nanosPerSecond u128Max at *
    omega
  omega

theorem Sized.retry (h : Sized mtu rate p) (hrate : 0 < rate) (hle : rate ≤ 10 ^ 12) (hmtu : 1200 ≤ mtu)
    (hmtu' : mtu < 2 ^ 16) (hby : bytes ≤ mtu) {t later : Nat}
    {out : Pacer × Option Nat} (hout : p.delay cwndRefill smoothedRtt bytes mtu window (some rate) now = out)
    (ht : out.2 = some t) (hlater : t ≤ later) :
    (out.1.delay cwndRefill smoothedRtt bytes mtu window (some rate) later).2 = none := by
  obtain ⟨hsized, hfst⟩ := h.delay hrate hmtu' cwndRefill smoothedRtt bytes window now
  rw [hout] at hsized hfst
  have hbounds := burst_bounds mtu rate
  rcases hfst with ⟨-, -, -, hnone⟩ | ⟨-, hprev, -, hwait⟩
  · cases hnone.symm.trans ht
  rw [hwait] at ht
  split at ht <;> cases ht
  obtain ⟨-, hgo | ⟨-, -, htok, hagain⟩⟩ := hsized.delay hrate hmtu' cwndRefill smoothedRtt bytes window later
  · exact hgo.2.2.2
  have := waited hrate hle (max bytes (burst mtu rate) - out.1.tokens) (later - now) (by omega) (by omega)
  rw [hagain, if_pos]
  rw [htok, hprev]
  omega

end Pacer

namespace PacedSender
open Pacer

variable {s t : PacedSender}

structure Ready (mtu rate : Nat) (s : PacedSender) : Prop where
  sized : s.pacer.Sized mtu rate
  prev : s.pacer.prev ≤ s.now
  permitted : s.permitted ≤ s.pacer.tokens

/-- What was sent since `s` came out of a bucket that was refilled once from before, and then at the rate. -/
structure Since (mtu rate : Nat) (s t : PacedSender) : Prop where
  now : s.now ≤ t.now
  sent : s.sent ≤ t.sent
  bound : t.sent + t.pacer.tokens ≤ s.sent + burst mtu rate ∨ s.now ≤ t.pacer.prev ∧
    nanosPerSecond * (t.sent + t.pacer.tokens) ≤
      nanosPerSecond * (s.sent + 2 * burst mtu rate) + rate * (t.pacer.prev - s.now)

theorem Ready.step (h : Ready mtu rate t) (hrate : 0 < rate) (hmtu : mtu < 2 ^ 16) {e : Event} {u : PacedSender}
    (hs : t.step cwndRefill mtu rate e = some u) : Ready mtu rate u ∧ ∀ s, Since mtu rate s t → Since mtu rate s u := by
  cases e with
  | elapse nanos =>
    cases hs
    exact ⟨{ h with prev := h.prev.trans le_self_add },
      fun s hsince => { hsince with now := hsince.now.trans le_self_add }⟩
  | transmit packetLength =>
    simp only [PacedSender.step] at hs
    split at hs <;> cases hs
    next hlen =>
    have hperm := h.permitted
    have hkept : t.sent + packetLength + (t.pacer.tokens - packetLength) = t.sent + t.pacer.tokens := by omega
    refine ⟨⟨{ h.sized with tokens := (Nat.sub_le _ _).trans h.sized.tokens }, h.prev, Nat.sub_le_sub_right hperm _⟩, ?_⟩
    exact fun s hsince => ⟨hsince.now, hsince.sent.trans le_self_add, by
      simpa only [onTransmit, hkept] using hsince.bound⟩
  | delay smoothedRtt bytesToSend window =>
    simp only [PacedSender.step, some.injEq] at hs
    subst hs
    obtain ⟨hsized, hcall⟩ := h.sized.delay hrate hmtu cwndRefill smoothedRtt bytesToSend window t.now
    generalize t.pacer.delay cwndRefill smoothedRtt bytesToSend mtu window (some rate) t.now = out at *
    have hperm := h.permitted
    rcases hcall with ⟨hle, htok, hprev, hnone⟩ | ⟨-, hprev, htok, hwait⟩
    · refine ⟨⟨hsized, hprev.trans_le h.prev, ?_⟩, fun s hsince => ⟨hsince.now, hsince.sent, ?_⟩⟩
      · rw [if_pos hnone, htok]
        exact hle
      · rw [htok, hprev]
        exact hsince.bound
    have hgrow : t.pacer.tokens ≤ out.1.tokens := htok ▸ le_min le_self_add h.sized.tokens
    refine ⟨⟨hsized, hprev.le, ?_⟩, fun s hsince => ⟨hsince.now, hsince.sent, .inr ⟨hprev ▸ hsince.now, ?_⟩⟩⟩
    · split at hwait
      · next hle => rwa [if_pos hwait]
      rw [if_neg (hwait ▸ some_ne_none _)]
      exact hperm.trans hgrow
    · dsimp only
      rw [hprev]
      have hlast := h.prev
      have hcred := Nat.mul_div_le (min (rate * (t.now - t.pacer.prev)) u128Max) nanosPerSecond
      rcases hsince.bound with hbd | ⟨haft, hbd⟩
      · exact (Nat.mul_le_mul_left _ (by omega)).trans le_self_add
      have hsum : rate * (t.now - s.now) = rate * (t.now - t.pacer.prev) + rate * (t.pacer.prev - s.now) := by
        rw [← Nat.mul_add]
        congr 1
        omega
      have hnew := Nat.mul_le_mul_left nanosPerSecond (htok.trans_le (min_le_left _ _))
      rw [Nat.mul_add] at hbd hnew ⊢
      omega

def Starts (mtu rate : Nat) (s : PacedSender) : Prop :=
  ∃ smoothedRtt window, s = ⟨.new smoothedRtt window mtu (some rate) s.now, s.now, 0, 0⟩

theorem ready_of_reaches (hrate : 0 < rate) (hmtu : mtu < 2 ^ 16)
    (h : Reaches (step cwndRefill mtu rate) (fun _ _ => True) (Starts mtu rate) s) : Ready mtu rate s := by
  refine h.invariant ?_ fun _ _ _ ht _ hs => (ht.step hrate hmtu hs).1
  rintro s ⟨smoothedRtt, window, hs⟩
  have hfil : (some rate).filter (fun r => decide (0 < r)) = some rate := by simp [hrate]
  rw [hs, Pacer.new, hfil]
  exact ⟨⟨rfl, rfl, rfl, le_rfl⟩, le_rfl, zero_le⟩

/-- At a fixed rate two bursts and what the rate allows is all that can be sent in an interval, and an MTU can be sent
    at the time that the pacer asks to wait for. -/
theorem pacing_exact (hrate : 0 < rate) (hle : rate ≤ 10 ^ 12) (hmtu : 1200 ≤ mtu) (hmtu' : mtu < 2 ^ 16)
    (h : Reaches (step cwndRefill mtu rate) (fun _ _ => True) (Starts mtu rate) s) :
    (∀ t, Reaches (step cwndRefill mtu rate) (fun _ _ => True) (· = s) t →
      nanosPerSecond * (t.sent - s.sent) ≤
        nanosPerSecond * (2 * burst mtu rate) + rate * (t.now - s.now)) ∧
    ∀ smoothedRtt bytes window until_ later, bytes ≤ mtu →
      let delay (p : Pacer) := p.delay cwndRefill smoothedRtt bytes mtu window (some rate)
      (delay s.pacer s.now).2 = some until_ → until_ ≤ later → (delay (delay s.pacer s.now).1 later).2 = none := by
  have hready := ready_of_reaches hrate hmtu' h
  refine ⟨fun t ht => ?_, fun _ _ _ _ _ hbytes hwait hlater =>
    hready.sized.retry hrate hle hmtu hmtu' hbytes rfl hwait hlater⟩
  have hsince : Ready mtu rate t ∧ Since mtu rate s t := by
    refine ht.invariant (P := fun t => Ready mtu rate t ∧ Since mtu rate s t) ?_ fun _ _ _ hu _ hs => ?_
    · rintro _ rfl
      exact ⟨hready, le_rfl, le_rfl, .inl (Nat.add_le_add_left hready.sized.tokens _)⟩
    · obtain ⟨hnext, hkeep⟩ := hu.1.step hrate hmtu' hs
      exact ⟨hnext, hkeep s hu.2⟩
  obtain ⟨hlast, hnow, hsent, hbound⟩ := hsince
  have hrefill := Nat.mul_le_mul_left rate (Nat.sub_le_sub_right hlast.prev s.now)
  unfold nanosPerSecond at *
  omega

def fullBucket : PacedSender := ⟨.new 0 1 1200 (some 120000) 0, 0, 0, 0⟩

def emptied : List Event := [.delay 0 12000 1, .transmit 12000, .elapse 9000000, .delay 0 1200 1]

theorem pacing_exact_emptied :
    let s : PacedSender := ⟨⟨12000, 1, 1200, some 120000, 1080, 9000000⟩, 9000000, 0, 12000⟩
    runFrom (step (fun _ _ _ _ _ => none) 1200 120000) (fun _ _ => True) fullBucket emptied = some s ∧
    nanosPerSecond * (s.sent - 0) ≤ nanosPerSecond * (2 * burst 1200 120000) + 120000 * (s.now - 0) :=
  ⟨by decide +kernel, (@pacing_exact (fun _ _ _ _ _ => none) 1200 120000 fullBucket (by decide) (by decide) (by decide)
    (by decide) (.start ⟨0, 1, rfl⟩)).1 _ (.runFrom emptied (.start rfl) (by decide +kernel))⟩

end PacedSender

/-! Whether datagrams stay within what the peer accepts. -/

open Recovery

variable {limit now : Nat}

def SearchState.Below (limit : Nat) (s : SearchState) : Prop :=
  s.lowerBound ≤ limit ∧ s.upperBound ≤ limit ∧ s.lastProbedMtu ≤ limit

/-- The discovery knows the limit, and a search that is under way stays below it. -/
structure EnabledMtuDiscovery.Below (limit : Nat) (e : EnabledMtuDiscovery) : Prop where
  known : e.peerMaxUdpPayloadSize = limit
  searching : ∀ s, e.phase = .searching s → s.Below limit

structure MtuDiscovery.Below (limit : Nat) (m : MtuDiscovery) : Prop where
  current : m.currentMtu ≤ limit
  enabled : ∀ e, m.state = some e → e.Below limit

theorem SearchState.Below.next {s : SearchState} (h : s.Below limit) (succeeded : Bool) :
    (s.nextMtuToProbe succeeded).1.Below limit ∧ ∀ size ∈ (s.nextMtuToProbe succeeded).2, size ≤ limit := by
  obtain ⟨hlower, hupper, hlast⟩ := h
  have hblw : ∀ s : SearchState, s.Below limit → ∀ size ∈ s.middle, size ≤ limit := fun s ⟨hlower, hupper, _⟩ size hsize => by
    simp only [middle, mem_def] at hsize
    split at hsize
    · split at hsize <;> cases hsize
      exact hupper
    cases hsize
    omega
  cases succeeded
  · have h' : ({ s with upperBound := s.lastProbedMtu - 1 } : SearchState).Below limit :=
      ⟨hlower, (Nat.sub_le _ _).trans hlast, hlast⟩
    exact ⟨h', hblw _ h'⟩
  · have h' : ({ s with lowerBound := s.lastProbedMtu } : SearchState).Below limit := ⟨hlast, hupper, hlast⟩
    exact ⟨h', hblw _ h'⟩

namespace EnabledMtuDiscovery
variable {e : EnabledMtuDiscovery}

section
variable (h : e.Below limit)
include h

theorem Below.phase {phase : MtuPhase} (hph : ∀ s, phase = .searching s → s.Below limit) :
    Below limit { e with phase } := ⟨h.known, hph⟩

theorem Below.search {s : SearchState} (hs : s.Below limit) (nextPn : Nat) : (e.search s now nextPn).1.Below limit := by
  unfold EnabledMtuDiscovery.search
  split
  · exact h
  split
  · exact h.phase fun _ heq => MtuPhase.searching.inj heq ▸ hs
  have hnext := SearchState.Below.next (s := { s with lostProbeCount := 0 }) hs (s.lostProbeCount == 0)
  dsimp only
  split
  · next size hsize =>
    exact h.phase fun _ heq => MtuPhase.searching.inj heq ▸ ⟨hnext.1.1, hnext.1.2.1, hnext.2 size hsize⟩
  · exact h.phase fun _ => nofun

theorem Below.pollTransmit (currentMtu nextPn : Nat) : (e.pollTransmit now currentMtu nextPn).1.Below limit := by
  have hnew : Below limit { e with phase := .searching (.new currentMtu e.peerMaxUdpPayloadSize e.config) } :=
    h.phase fun _ heq => MtuPhase.searching.inj heq ▸ by
      simp only [SearchState.new, SearchState.Below, h.known]
      omega
  have hact : (e.activate now currentMtu).Below limit := by
    unfold EnabledMtuDiscovery.activate
    dsimp only
    split
    · exact hnew
    · split
      · exact h
      · exact hnew
    · exact h
  unfold EnabledMtuDiscovery.pollTransmit
  dsimp only
  split
  · next s hs => exact hact.search (hact.searching s hs) nextPn
  · exact hact

theorem Below.onProbeAcked (pn : Nat) : (e.onProbeAcked pn).1.Below limit ∧ ∀ mtu ∈ (e.onProbeAcked pn).2, mtu ≤ limit := by
  unfold EnabledMtuDiscovery.onProbeAcked
  split
  · next s hs =>
    have hblw := h.searching s hs
    split
    · exact ⟨h.phase fun _ heq => MtuPhase.searching.inj heq ▸ hblw, fun _ hm => some.inj hm ▸ hblw.2.2⟩
    · exact ⟨h, nofun⟩
  · exact ⟨h, nofun⟩

theorem Below.onProbeLost : e.onProbeLost.Below limit := by
  unfold EnabledMtuDiscovery.onProbeLost
  split
  · next s hs => exact h.phase fun _ heq => MtuPhase.searching.inj heq ▸ h.searching s hs
  · exact h

end

end EnabledMtuDiscovery

namespace MtuDiscovery
variable {m : MtuDiscovery}

section
variable (h : m.Below limit)
include h

theorem Below.pollTransmit (nextPn : Nat) : (m.pollTransmit now nextPn).1.Below limit := by
  unfold MtuDiscovery.pollTransmit
  split
  · exact h
  · next e he => exact { h with enabled := fun _ heq => some.inj heq ▸ (h.enabled e he).pollTransmit _ nextPn }

theorem Below.onAcked (space : SpaceId) (pn len : Nat) : (m.onAcked space pn len).Below limit := by
  unfold MtuDiscovery.onAcked
  split
  · exact h
  cases hm : m.state with
  | none => exact ⟨h.current, nofun⟩
  | some e =>
    obtain ⟨hblw, hack⟩ := (h.enabled e hm).onProbeAcked pn
    dsimp only
    split
    · next mtu hmtu => exact ⟨hack mtu hmtu, fun _ heq => some.inj heq ▸ hblw⟩
    · exact ⟨h.current, fun _ heq => some.inj heq ▸ hblw⟩

theorem Below.onProbeLost : m.onProbeLost.Below limit := by
  refine { h with enabled := fun e he => ?_ }
  obtain ⟨e', he', rfl⟩ := map_eq_some_iff.mp he
  exact (h.enabled e' he').onProbeLost

theorem Below.blackHoleDetected
    (hmin : m.blackHoleDetector.blackHoleDetected.2 = true → m.blackHoleDetector.blackHoleDetected.1.minMtu ≤ limit) :
    (m.blackHoleDetected now).Below limit := by
  unfold MtuDiscovery.blackHoleDetected
  dsimp only
  split
  · next hdetected =>
    refine ⟨hmin hdetected, fun e he => ?_⟩
    obtain ⟨e', he', rfl⟩ := map_eq_some_iff.mp he
    exact (h.enabled e' he').phase fun _ => nofun
  · exact ⟨h.current, h.enabled⟩

theorem Below.reset {currentMtu minMtu : Nat} (hcur : m.state.isSome ∨ currentMtu ≤ limit) :
    (m.reset currentMtu minMtu).Below limit := by
  cases hm : m.state with
  | none =>
    simp only [MtuDiscovery.reset, hm]
    exact ⟨hcur.resolve_left (by simp [hm]), nofun⟩
  | some e =>
    simp only [MtuDiscovery.reset, hm]
    exact ⟨(min_le_right _ _).trans_eq (h.enabled e hm).known,
      fun _ heq => some.inj heq ▸ ⟨(h.enabled e hm).known, fun _ => nofun⟩⟩

end

end MtuDiscovery

namespace Recovery.Connection

/-- What the MTU of a path depends on, once the parameters of the peer are known. -/
inductive MtuEvent where
  | poll (now nextPn : Nat)
  | acked (space : SpaceId) (pn len : Nat)
  | probeLost
  | nonProbeLost (pn len : Nat)
  | blackHole (now : Nat)
  /-- The handshake uses PQC, and the search is started again from the current MTU. -/
  | pqcHandshake
  | pathChanged
  | migrate (remote : SocketAddr) (token prevToken : Nat)
  | pathResponse (token : Nat) (remote : SocketAddr)
  | pathValidation

def mtuStep (config : PathConfig) (allowMtud : Bool) (limit : Nat) (self : Connection) : MtuEvent → Option Connection
  | .poll now nextPn => some (self.setMtud (self.path.mtud.pollTransmit now nextPn).1)
  | .acked space pn len => some (self.setMtud (self.path.mtud.onAcked space pn len))
  | .probeLost => some (self.setMtud self.path.mtud.onProbeLost)
  | .nonProbeLost pn len => some (self.setMtud (self.path.mtud.onNonProbeLost pn len))
  | .blackHole now => some (self.setMtud (self.path.mtud.blackHoleDetected now))
  | .pqcHandshake => some (self.setMtud (self.path.mtud.reset self.path.currentMtu config.minMtu))
  | .pathChanged => some { self with path := self.path.reset config }
  | .migrate remote token prevToken => some (self.migrate config allowMtud limit remote token prevToken)
  | .pathResponse token remote => some (self.onPathResponse token remote)
  | .pathValidation => some self.onPathValidationTimeout

/-- The parameters of the peer have just come: there is one path yet, and no search has begun. -/
def Received (limit : Nat) (c : Connection) : Prop :=
  ∃ c₀ : Connection, c₀.prevPath = none ∧ (∀ e, c₀.path.mtud.state = some e → e.phase = .initial) ∧
    c = c₀.setMtud (c₀.path.mtud.onPeerMaxUdpPayloadSizeReceived limit)

/-- A black hole leads back to an MTU within the limit, and so does a path that is reset or replaced without discovery. -/
def KeepsLimit (config : PathConfig) (allowMtud : Bool) (limit : Nat) (c : Connection) : MtuEvent → Prop
  | .blackHole _ =>
    let (detector, detected) := c.path.mtud.blackHoleDetector.blackHoleDetected
    detected = true → detector.minMtu ≤ limit
  | .pathChanged => c.path.mtud.state.isSome ∨ config.initialMtu ≤ limit
  | .migrate remote _ _ => remote.ipv4 ∧ remote.ip = c.path.remote.ip ∨ config.initialMtu ≤ limit ∨
    (config.mtuDiscoveryConfig.filter fun _ => allowMtud).isSome
  | _ => True

instance {config : PathConfig} {allowMtud : Bool} {c : Connection} : ∀ e, Decidable (KeepsLimit config allowMtud limit c e) :=
  fun e => by unfold KeepsLimit; split <;> infer_instance

structure Within (limit : Nat) (c : Connection) : Prop where
  path : c.path.mtud.Below limit
  prev : ∀ p, c.prevPath = some p → p.mtud.Below limit

variable {config : PathConfig} {allowMtud : Bool} {c c' : Connection}

theorem Received.within (h : Received limit c) : Within limit c := by
  obtain ⟨c₀, hprev, hinit, rfl⟩ := h
  refine ⟨⟨min_le_right _ _, fun e he => ?_⟩, fun p hp => by cases hprev.symm.trans hp⟩
  obtain ⟨e', he', rfl⟩ := map_eq_some_iff.mp he
  exact ⟨rfl, fun _ hs => by cases (hinit e' he').symm.trans hs⟩

theorem newPath_below (remote : SocketAddr) (h : config.initialMtu ≤ limit ∨
    (config.mtuDiscoveryConfig.filter fun _ => allowMtud).isSome) :
    (PathData.new remote allowMtud (some limit) config).mtud.Below limit := by
  unfold PathData.new
  cases hcfg : config.mtuDiscoveryConfig.filter fun _ => allowMtud with
  | none => exact ⟨h.resolve_right (by simp [hcfg]), nofun⟩
  | some mtudConfig => exact ⟨min_le_right _ _, fun _ heq => some.inj heq ▸ ⟨rfl, fun _ => nofun⟩⟩

theorem Within.step (h : Within limit c) {e : MtuEvent} (hkeeps : KeepsLimit config allowMtud limit c e)
    (hs : c.mtuStep config allowMtud limit e = some c') : Within limit c' := by
  cases e with
  | poll now nextPn => exact some.inj hs ▸ ⟨h.path.pollTransmit nextPn, h.prev⟩
  | acked space pn len => exact some.inj hs ▸ ⟨h.path.onAcked space pn len, h.prev⟩
  | probeLost => exact some.inj hs ▸ ⟨h.path.onProbeLost, h.prev⟩
  | nonProbeLost pn len => exact some.inj hs ▸ ⟨⟨h.path.current, h.path.enabled⟩, h.prev⟩
  | blackHole now => exact some.inj hs ▸ ⟨h.path.blackHoleDetected hkeeps, h.prev⟩
  | pqcHandshake => exact some.inj hs ▸ ⟨h.path.reset (.inr h.path.current), h.prev⟩
  | pathChanged => exact some.inj hs ▸ ⟨h.path.reset hkeeps, h.prev⟩
  | migrate remote token prevToken =>
    cases hs
    refine ⟨?_, fun p hp => ?_⟩
    · simp only [migrate]
      split
      · exact h.path
      · next hnew => exact newPath_below remote (hkeeps.resolve_left hnew)
    · simp only [migrate] at hp
      split at hp
      · cases hp
        exact h.path
      · exact h.prev p hp
  | pathResponse token remote =>
    cases hs
    unfold onPathResponse
    split
    · refine ⟨h.path, fun p hp => ?_⟩
      obtain ⟨p', hp', rfl⟩ := map_eq_some_iff.mp hp
      exact h.prev p' hp'
    · exact h
  | pathValidation =>
    cases hs
    unfold onPathValidationTimeout
    split
    · cases hprev : c.prevPath with
      | some prev => exact ⟨h.prev prev hprev, nofun⟩
      | none => exact ⟨h.path, fun p hp => by cases hprev.symm.trans hp⟩
    · exact h

/-- In every run of that kind no path has an MTU above the limit. -/
theorem peer_limit_respected
    (h : Reaches (mtuStep config allowMtud limit) (KeepsLimit config allowMtud limit) (Received limit) c) :
    c.path.currentMtu ≤ limit ∧ ∀ p, c.prevPath = some p → p.currentMtu ≤ limit := by
  have hwithin := h.invariant (fun _ hs => hs.within) fun _ _ _ hs he ht => hs.step he ht
  exact ⟨hwithin.path.current, fun p hp => (hwithin.prev p hp).current⟩

def fixedMtu : PathConfig := ⟨1452, 1200, none, 3⟩

def wide (mtu : Nat) : Connection :=
  let c := Connection.new ⟨true, 1, 1⟩ true fixedMtu
  c.setMtud { c.path.mtud with currentMtu := mtu }

theorem received_wide : Received 1300 (wide 1300) := ⟨wide 1452, rfl, nofun, rfl⟩

/-- The peer gets another port, and is not heard of there. -/
def rebinding : List MtuEvent := [.nonProbeLost 1 1200, .blackHole 5, .migrate ⟨true, 1, 2⟩ 7 8, .pathValidation]

theorem peer_limit_respected_rebinding :
    ∃ c, runFrom (mtuStep fixedMtu true 1300) (KeepsLimit fixedMtu true 1300) (wide 1300) rebinding = some c ∧
      c.path.currentMtu ≤ 1300 ∧ ∀ p, c.prevPath = some p → p.currentMtu ≤ 1300 :=
  ⟨_, rfl, @peer_limit_respected 1300 fixedMtu true _ (.runFrom rebinding (.start received_wide) rfl)⟩

theorem peer_limit_forgotten : Received 1300 (wide 1300) ∧
    ∃ c, (wide 1300).mtuStep fixedMtu true 1300 .pathChanged = some c ∧ c.path.currentMtu = 1452 :=
  ⟨received_wide, _, rfl, rfl⟩

end Recovery.Connection
end SaorsaTransport
