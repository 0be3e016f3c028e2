import SaorsaTransport.NatTraversal

/-! Candidates, which are kept by sequence number, and the validations that run for them, which are kept by address, agree
    as long as an address is a candidate once and no validation that was started expires. -/

namespace SaorsaTransport
open Library BTreeMap List

namespace NatTraversalState
variable {s s' : NatTraversalState} {a : SocketAddr} {e : CandidateEvent} {checks : CandidateChecks}

inductive CandidateEvent where
  | add (sequence : Nat) (address : SocketAddr) (priority : Nat) (checks : CandidateChecks) (challenge : Nat)
  | remove (sequence : Nat)
  | start (sequence challenge now : Nat)
  | respond (sequence : Nat) (remote : SocketAddr) (challenge : Nat)
  | expire (expired : List SocketAddr)

/-- An operation that fails changes nothing. -/
def candidateStep (s : NatTraversalState) : CandidateEvent → Option NatTraversalState
  | .add sequence address priority checks challenge =>
    some ((s.handleAddAddress sequence address priority checks challenge).toOption.getD s)
  | .remove sequence => some (s.removeCandidate sequence)
  | .start sequence challenge now => some ((s.startValidation sequence challenge now).toOption.getD s)
  | .respond sequence remote challenge => some ((s.handleValidationSuccess sequence remote challenge).toOption.getD s)
  | .expire expired => some (s.checkValidationTimeouts expired)

def stateOf (s : NatTraversalState) (sequence : Nat) : Option CandidateState :=
  (s.remoteCandidates.get sequence).map (·.state)

def running (s : NatTraversalState) (address : SocketAddr) : Bool := (s.activeValidations.lookup address).isSome

/-- A candidate has a sequence number and an address of its own, predicted ones included, and no validation that was
    started expires. -/
def Fresh (s : NatTraversalState) : CandidateEvent → Prop
  | .add sequence address _ checks _ =>
    (sequence :: checks.predictedPorts.map (1000000000 + ·)).Nodup ∧
    (∀ n ∈ sequence :: checks.predictedPorts.map (1000000000 + ·), s.remoteCandidates.get n = none) ∧
    ∀ entry ∈ s.remoteCandidates.entries, entry.2.address ≠ address
  | .expire expired => ∀ entry ∈ s.remoteCandidates.entries, entry.2.state = .validating → entry.2.address ∉ expired
  | _ => True

instance (s : NatTraversalState) : ∀ e, Decidable (Fresh s e) := fun e => by
  unfold Fresh
  split <;> infer_instance

structure Matched (s : NatTraversalState) : Prop where
  validating : ∀ n c, s.remoteCandidates.get n = some c → c.state = .validating → s.running c.address = true
  running : ∀ n c, s.remoteCandidates.get n = some c → s.running c.address = true → c.state = .validating ∨ c.state = .new
  distinct : ∀ n m c d, s.remoteCandidates.get n = some c → s.remoteCandidates.get m = some d → c.address = d.address → n = m
  known : ∀ a, s.running a = true → ∃ n c, s.remoteCandidates.get n = some c ∧ c.address = a

theorem lookup_filter (p : SocketAddr → Bool) : ∀ l : List (SocketAddr × Nat),
    (l.filter fun v => p v.1).lookup a = if p a then l.lookup a else none
  | [] => by simp
  | (k, v) :: l => by
    have ih := lookup_filter p l
    by_cases hak : a = k
    · subst hak
      cases hp : p a <;> simp [hp, ih]
    · cases hp : p k <;> simp [hp, lookup_cons, beq_eq_false_iff_ne.mpr hak, ih]

theorem running_filter_ne {b : SocketAddr} (map : BTreeMap Nat AddressCandidate) :
    running { s with remoteCandidates := map, activeValidations := s.activeValidations.filter fun v => v.1 ≠ b } a =
      (decide (a ≠ b) && s.running a) := by
  have hlook := lookup_filter (a := a) (fun k => decide (k ≠ b)) s.activeValidations
  rw [running, hlook]
  by_cases hab : a = b <;> simp [hab, running]

theorem running_insertValidation {b : SocketAddr} (challenge : Nat) :
    (s.insertValidation b challenge).running a = (decide (a = b) || s.running a) := by
  have hlook := lookup_filter (a := a) (fun k => decide (k ≠ b)) s.activeValidations
  rw [running, insertValidation, lookup_cons]
  by_cases hab : a = b
  · simp [hab]
  · simp only [beq_eq_false_iff_ne.mpr hab, hlook]
    simp [hab, running]

section
variable {n : Nat} {c d : AddressCandidate}

theorem running_expire {expired : List SocketAddr} :
    (s.checkValidationTimeouts expired).running a = (decide (a ∉ expired) && s.running a) := by
  have hlook := lookup_filter (a := a) (fun k => decide (k ∉ expired)) s.activeValidations
  rw [running, checkValidationTimeouts, hlook]
  by_cases hmem : a ∈ expired <;> simp [hmem, running]

/-- One candidate is set, and the validation of no address but its own begins or ends. -/
theorem Matched.change (h : Matched s)
    (hget : ∀ m, s'.remoteCandidates.get m = if m = n then some c else s.remoteCandidates.get m)
    (hold : ∀ m d, s.remoteCandidates.get m = some d → (m = n ↔ d.address = c.address))
    (hrun : ∀ a, a ≠ c.address → s'.running a = s.running a)
    (hval : c.state = .validating → s'.running c.address = true)
    (hnew : s'.running c.address = true → c.state = .validating ∨ c.state = .new) : Matched s' := by
  have hcases : ∀ m d, s'.remoteCandidates.get m = some d →
      m = n ∧ d = c ∨ s.remoteCandidates.get m = some d ∧ d.address ≠ c.address := by
    intro m d hd
    rw [hget] at hd
    split at hd
    · next heq => exact .inl ⟨heq, (Option.some.inj hd).symm⟩
    · next hne => exact .inr ⟨hd, mt (hold m d hd).mpr hne⟩
  refine ⟨fun m d hd hst => ?_, fun m d hd hr => ?_, fun m k d e hd he hde => ?_, fun a ha => ?_⟩
  · rcases hcases m d hd with ⟨-, rfl⟩ | ⟨hd, hne⟩
    · exact hval hst
    · rw [hrun _ hne]
      exact h.validating m d hd hst
  · rcases hcases m d hd with ⟨-, rfl⟩ | ⟨hd, hne⟩
    · exact hnew hr
    · exact h.running m d hd (hrun _ hne ▸ hr)
  · rcases hcases m d hd with ⟨rfl, rfl⟩ | ⟨hd, hne⟩ <;> rcases hcases k e he with ⟨rfl, rfl⟩ | ⟨he, hne'⟩
    · rfl
    · exact absurd hde.symm hne'
    · exact absurd hde hne
    · exact h.distinct m k d e hd he hde
  · by_cases heq : a = c.address
    · exact ⟨n, c, by rw [hget, if_pos rfl], heq.symm⟩
    · obtain ⟨m, d, hd, rfl⟩ := h.known a (hrun a heq ▸ ha)
      exact ⟨m, d, by rw [hget, if_neg (mt (hold m d hd).mp heq), hd], rfl⟩

/-- A candidate that is there is the only one with its address. -/
theorem Matched.only (h : Matched s) (hc : s.remoteCandidates.get n = some c) :
    ∀ m d, s.remoteCandidates.get m = some d → (m = n ↔ d.address = c.address) := by
  refine fun m d hd => ⟨?_, h.distinct m n d c hd hc⟩
  rintro rfl
  rw [Option.some.inj (hd.symm.trans hc)]

theorem get_insertCandidate_ne {n m priority : Nat} (h : m ≠ n) :
    (s.insertCandidate n a priority).remoteCandidates.get m = s.remoteCandidates.get m := by
  rw [insertCandidate, get_insert, if_neg h]

theorem Matched.insertCandidate (h : Matched s) (priority : Nat)
    (hn : s.remoteCandidates.get n = none) (ha : ∀ entry ∈ s.remoteCandidates.entries, entry.2.address ≠ a) :
    Matched (s.insertCandidate n a priority) := by
  refine h.change (fun m => get_insert ..) (fun m d hd => ?_) (fun _ _ => rfl) nofun fun _ => .inr rfl
  refine iff_of_false ?_ (ha (m, d) (get_eq_some.mp hd))
  rintro rfl
  exact nomatch hn.symm.trans hd

/-- Predictions have numbers of their own, and leave other candidates alone. -/
theorem Matched.generatePredictedCandidates (a : SocketAddr) : ∀ (ports : List Nat) {s : NatTraversalState}, Matched s →
    (ports.map (1000000000 + ·)).Nodup → (∀ n ∈ ports.map (1000000000 + ·), s.remoteCandidates.get n = none) →
    Matched (s.generatePredictedCandidates a ports) ∧ ∀ n c, s.remoteCandidates.get n = some c →
      (s.generatePredictedCandidates a ports).remoteCandidates.get n = some c
  | [], s, h, _, _ => ⟨h, fun _ _ hc => hc⟩
  | port :: ports, s, h, hnodup, hfresh => by
    obtain ⟨hport, hnodup⟩ := nodup_cons.mp hnodup
    obtain ⟨hnone, hfresh⟩ := forall_mem_cons.mp hfresh
    unfold NatTraversalState.generatePredictedCandidates
    dsimp only
    split
    · exact generatePredictedCandidates a ports h hnodup hfresh
    next hnew =>
    split
    · exact ⟨h, fun _ _ hc => hc⟩
    have hnew : ∀ entry ∈ s.remoteCandidates.entries, entry.2.address ≠ { a with port } := by simpa using hnew
    obtain ⟨hmatch, hkept⟩ := generatePredictedCandidates a ports (h.insertCandidate 1 hnone hnew) hnodup
      fun n hn => (get_insertCandidate_ne (ne_of_mem_of_not_mem hn hport)).trans (hfresh n hn)
    refine ⟨hmatch, fun n c hc => hkept n c ?_⟩
    rwa [get_insertCandidate_ne fun heq => by simp_all]

theorem addRemoteCandidate_ok {priority : Nat} (h : s.addRemoteCandidate n a priority checks = .ok s') :
    s' = (s.insertCandidate n a (priority % 2 ^ 32)).generatePredictedCandidates a checks.predictedPorts := by
  unfold addRemoteCandidate at h
  iterate 6
    split at h
    · cases h
  exact (Except.ok.inj h).symm

theorem triggerCandidateValidation_remoteCandidates (challenge : Nat) :
    (s.triggerCandidateValidation a challenge).remoteCandidates = s.remoteCandidates := by
  unfold triggerCandidateValidation
  split <;> rfl

theorem Matched.trigger (h : Matched s) (hc : s.remoteCandidates.get n = some c) (hst : c.state = .new) (challenge : Nat) :
    Matched (s.triggerCandidateValidation c.address challenge) := by
  unfold triggerCandidateValidation
  split
  · exact h
  · refine h.change (n := n) (c := c) (fun m => ?_) (h.only hc) (fun a hne => ?_) (by simp [hst]) fun _ => .inr hst
    · split
      · next heq => exact heq ▸ hc
      · rfl
    · simp [running_insertValidation, hne]

theorem Matched.add (h : Matched s) {priority challenge : Nat} (hfresh : Fresh s (.add n a priority checks challenge)) :
    Matched ((s.handleAddAddress n a priority checks challenge).toOption.getD s) ∧ ∀ m c, s.remoteCandidates.get m = some c →
      ((s.handleAddAddress n a priority checks challenge).toOption.getD s).remoteCandidates.get m = some c := by
  obtain ⟨hnodup, hnone, ha⟩ := hfresh
  obtain ⟨hn, hnodup⟩ := nodup_cons.mp hnodup
  obtain ⟨hnone, hpred⟩ := forall_mem_cons.mp hnone
  unfold handleAddAddress
  cases hadd : s.addRemoteCandidate n a priority checks with
  | error _ => exact ⟨h, fun _ _ hc => hc⟩
  | ok nat =>
    obtain ⟨hmatch, hkept⟩ := Matched.generatePredictedCandidates a checks.predictedPorts
      (h.insertCandidate (priority % 2 ^ 32) hnone ha) hnodup fun m hm =>
        (get_insertCandidate_ne (ne_of_mem_of_not_mem hm hn)).trans (hpred m hm)
    rw [← addRemoteCandidate_ok hadd] at hmatch hkept
    have hnew := hkept n ⟨a, priority % 2 ^ 32, .new, 0, none⟩ (by rw [NatTraversalState.insertCandidate, get_insert, if_pos rfl])
    refine ⟨hmatch.trigger hnew rfl challenge, fun m c hc => ?_⟩
    show (nat.triggerCandidateValidation a challenge).remoteCandidates.get m = some c
    rw [triggerCandidateValidation_remoteCandidates]
    refine hkept m c ?_
    rwa [get_insertCandidate_ne fun heq => by simp_all]

theorem Matched.remove (h : Matched s) (n : Nat) : Matched (s.removeCandidate n) := by
  unfold removeCandidate
  split
  · next c hc =>
    have honly := h.only hc
    refine h.change (c := { c with state := .removed }) (fun m => get_insert ..) honly (fun a hne => ?_) nofun ?_ <;>
      rw [running_filter_ne]
    · simp [hne]
    · simp
  · exact h

theorem startValidation_ok {challenge now : Nat} (hs : s.startValidation n challenge now = .ok s') :
    ∃ c, s.remoteCandidates.get n = some c ∧ c.state = .new ∧ s' = insertValidation { s with
      remoteCandidates := s.remoteCandidates.insert n
        { c with state := .validating, attemptCount := c.attemptCount + 1, lastAttempt := some now } } c.address challenge := by
  unfold startValidation at hs
  split at hs
  · cases hs
  next c hc =>
  split at hs
  · cases hs
  next hst =>
  split at hs
  · cases hs
  split at hs
  · cases hs
  · exact ⟨c, hc, not_not.mp hst, (Except.ok.inj hs).symm⟩

theorem Matched.start (h : Matched s) {challenge now : Nat} (hs : s.startValidation n challenge now = .ok s') :
    Matched s' := by
  obtain ⟨c, hc, -, rfl⟩ := startValidation_ok hs
  have honly := h.only hc
  refine h.change (fun m => get_insert ..) honly (fun a hne => ?_) (fun _ => ?_) fun _ => .inl rfl <;>
    rw [running_insertValidation]
  · simp only [hne, decide_false, Bool.false_or]
    rfl
  · simp

theorem handleValidationSuccess_ok {challenge : Nat} {remote : SocketAddr}
    (hs : s.handleValidationSuccess n remote challenge = .ok s') : ∃ c, s.remoteCandidates.get n = some c ∧
      c.address = remote ∧ s.activeValidations.lookup remote = some challenge ∧ s' = { s with
        remoteCandidates := s.remoteCandidates.insert n { c with state := .valid }
        activeValidations := s.activeValidations.filter fun v => v.1 ≠ remote } := by
  unfold handleValidationSuccess at hs
  split at hs
  · cases hs
  next c hc =>
  split at hs
  · cases hs
  split at hs
  · cases hs
  split at hs
  · cases hs
  cases hs
  exact ⟨c, hc, by simp_all, by simp_all, rfl⟩

theorem Matched.respond (h : Matched s) {challenge : Nat} {remote : SocketAddr}
    (hs : s.handleValidationSuccess n remote challenge = .ok s') : Matched s' ∧
      (s.stateOf n = some .validating ∨ s.stateOf n = some .new) := by
  obtain ⟨c, hc, rfl, hlook, rfl⟩ := handleValidationSuccess_ok hs
  have honly := h.only hc
  refine ⟨?_, ?_⟩
  · refine h.change (c := { c with state := .valid }) (fun m => get_insert ..) honly (fun a hne => ?_) nofun ?_ <;>
      rw [running_filter_ne]
    · simp [hne]
    · simp
  · simpa [stateOf, hc] using h.running n c hc (by rw [NatTraversalState.running, hlook]; rfl)

theorem Matched.expire (h : Matched s) {expired : List SocketAddr} (hfresh : Fresh s (.expire expired)) :
    Matched (s.checkValidationTimeouts expired) where
  validating m d hd hst := by
    rw [running_expire, h.validating m d hd hst, decide_eq_true (hfresh (m, d) (get_eq_some.mp hd) hst)]
    rfl
  running m d hd hr := by
    rw [running_expire, Bool.and_eq_true] at hr
    exact h.running m d hd hr.2
  distinct := h.distinct
  known a ha := by
    rw [running_expire, Bool.and_eq_true] at ha
    exact h.known a ha.2

theorem Matched.step (h : Matched s) (hfresh : Fresh s e) (hs : s.candidateStep e = some s') : Matched s' := by
  cases e <;> cases hs
  case add => exact (h.add hfresh).1
  case remove n => exact h.remove n
  case start n challenge now =>
    cases hr : s.startValidation n challenge now with
    | error _ => exact h
    | ok s' => exact h.start hr
  case respond n remote challenge =>
    cases hr : s.handleValidationSuccess n remote challenge with
    | error _ => exact h
    | ok s' => exact (h.respond hr).1
  case expire expired => exact h.expire hfresh

theorem stateOf_insert {m : Nat} (hs : s'.remoteCandidates = s.remoteCandidates.insert n c) :
    s'.stateOf m = if m = n then some c.state else s.stateOf m := by
  rw [stateOf, hs, get_insert]
  split <;> rfl

theorem Matched.removed (h : Matched s) (hfresh : Fresh s e) (hs : s.candidateStep e = some s')
    (hn : s.stateOf n = some .removed) : s'.stateOf n ≠ some .valid := by
  have hself : s.stateOf n ≠ some .valid := by
    rw [hn]
    nofun
  cases e <;> cases hs
  case add =>
    obtain ⟨c, hc, hst⟩ := Option.map_eq_some_iff.mp hn
    rw [stateOf, (h.add hfresh).2 n c hc, Option.map_some, hst]
    nofun
  case remove m =>
    unfold removeCandidate
    split
    · rw [stateOf_insert rfl]
      split
      · nofun
      · exact hself
    · exact hself
  case start m challenge now =>
    cases hr : s.startValidation m challenge now with
    | error _ => exact hself
    | ok s' =>
      obtain ⟨c, -, -, rfl⟩ := startValidation_ok hr
      rw [Except.toOption, Option.getD_some, stateOf_insert rfl]
      split
      · nofun
      · exact hself
  case respond m remote challenge =>
    cases hr : s.handleValidationSuccess m remote challenge with
    | error _ => exact hself
    | ok s' =>
      have hval := (h.respond hr).2
      obtain ⟨d, hd, -, -, rfl⟩ := handleValidationSuccess_ok hr
      have hne : n ≠ m := by
        rintro rfl
        simp [hn] at hval
      rw [Except.toOption, Option.getD_some, stateOf_insert rfl, if_neg hne]
      exact hself
  case expire expired => exact hself

end

def plainAddress : SocketAddr := ⟨true, 3405803777, 9000⟩

def plainChecks : CandidateChecks := ⟨false, false, .valid, []⟩

def validated : List CandidateEvent := [.add 1 plainAddress 1 plainChecks 4, .start 1 5 0, .respond 1 plainAddress 5]

end NatTraversalState
/-- A peer advertises candidates; what it has advertised and what was predicted so far stand beside them. -/
structure Advertising where
  remote : SocketAddr
  nat : NatTraversalState
  advertised : List Nat
  predicted : List Nat
  closed : Bool

namespace Advertising
variable {s s' : Advertising}
open NatTraversalState

def new (remote : SocketAddr) (maxCandidates : Nat) : Advertising := ⟨remote, .new maxCandidates, [], [], false⟩

/-- Too many candidates close the connection; other candidates that are refused are ignored. -/
def handleAddAddress (self : Advertising) (sequence : Nat) (address : SocketAddr) (priority : Nat)
    (checks : CandidateChecks) (challenge : Nat) : Advertising :=
  let self := { self with advertised := sequence :: self.advertised }
  -- The peer's own address needs no validation.
  if address.ipv4 = self.remote.ipv4 ∧ address.ip = self.remote.ip then self
  else match self.nat.handleAddAddress sequence address priority checks challenge with
    | .ok nat => { self with nat, predicted := checks.predictedPorts.map (1000000000 + ·) ++ self.predicted }
    | .error .tooManyCandidates => { self with closed := true }
    | .error _ => self

def step (self : Advertising) : CandidateEvent → Option Advertising
  | .add sequence address priority checks challenge =>
    some (self.handleAddAddress sequence address priority checks challenge)
  | e => (self.nat.candidateStep e).map fun nat => { self with nat }

/-- The addresses that were ever advertised, withdrawn ones included, and those that were predicted leave room. -/
def Roomy (s : Advertising) : CandidateEvent → Prop
  | .add sequence _ _ _ _ => sequence ∉ s.advertised ∧ s.advertised.length + s.predicted.length < s.nat.maxCandidates
  | _ => True

instance (s : Advertising) : ∀ e, Decidable (Roomy s e)
  | .add .. => inferInstanceAs (Decidable (_ ∧ _))
  | .remove _ | .start .. | .respond .. | .expire _ => isTrue trivial

structure Accounted (s : Advertising) : Prop where
  keys : ∀ n, s.nat.remoteCandidates.get n ≠ none → n ∈ s.advertised ++ s.predicted
  opened : s.closed = false

theorem len_le {m : BTreeMap Nat AddressCandidate} {l : List Nat} (h : ∀ n, m.get n ≠ none → n ∈ l) : m.len ≤ l.length := by
  have hnodup : (m.entries.map Prod.fst).Nodup := pairwise_map.mpr (m.sorted.imp fun h => h.ne)
  have hsubset : m.entries.map Prod.fst ⊆ l := fun n hn => by
    obtain ⟨entry, hent, rfl⟩ := mem_map.mp hn
    exact h entry.1 (by rw [get_eq_some.mpr hent]; nofun)
  have hle := (subperm_of_subset hnodup hsubset).length_le
  rwa [length_map] at hle

theorem keys_predicted (a : SocketAddr) : ∀ (ports : List Nat) (nat : NatTraversalState) (n : Nat),
    (nat.generatePredictedCandidates a ports).remoteCandidates.get n ≠ none →
      nat.remoteCandidates.get n ≠ none ∨ n ∈ ports.map (1000000000 + ·)
  | [], nat, n, h => .inl h
  | port :: ports, nat, n, h => by
    unfold generatePredictedCandidates at h
    dsimp only at h
    split at h
    · exact (keys_predicted a ports nat n h).imp_right (mem_cons_of_mem _)
    split at h
    · exact .inl h
    rcases keys_predicted a ports _ n h with h | h
    · by_cases hn : n = 1000000000 + port
      · exact .inr (hn ▸ mem_cons_self)
      · exact .inl (get_insertCandidate_ne hn ▸ h)
    · exact .inr (mem_cons_of_mem _ h)

theorem addRemoteCandidate_full {nat : NatTraversalState} {n priority : Nat}
    (h : nat.addRemoteCandidate n a priority checks = .error .tooManyCandidates) :
    nat.maxCandidates ≤ nat.remoteCandidates.len := by
  unfold addRemoteCandidate at h
  iterate 4
    split at h
    · cases h
  split at h
  · next hfull => exact hfull
  split at h <;> cases h

theorem Accounted.add (h : Accounted s) {n priority challenge : Nat}
    (hroomy : Roomy s (.add n a priority checks challenge)) :
    Accounted (s.handleAddAddress n a priority checks challenge) := by
  have hkeys : ∀ m, s.nat.remoteCandidates.get m ≠ none → m ∈ n :: s.advertised ++ s.predicted := fun m hm =>
    mem_cons_of_mem _ (h.keys m hm)
  have hlen := (len_le h.keys).trans_lt (length_append ▸ hroomy.2)
  unfold handleAddAddress NatTraversalState.handleAddAddress
  dsimp only
  split
  · exact ⟨hkeys, h.opened⟩
  cases hadd : s.nat.addRemoteCandidate n a priority checks with
  | ok nat =>
    refine ⟨fun m hm => ?_, h.opened⟩
    simp only [Except.map, triggerCandidateValidation_remoteCandidates, addRemoteCandidate_ok hadd] at hm
    simp only [Except.map, cons_append, mem_cons, mem_append]
    rcases keys_predicted a _ _ m hm with hm | hm
    · by_cases hmn : m = n
      · exact .inl hmn
      · have := hkeys m (get_insertCandidate_ne hmn ▸ hm)
        simp only [cons_append, mem_cons, mem_append] at this
        exact this.imp_right (.imp_right .inr)
    · exact .inr (.inr (.inl hm))
  | error error =>
    simp only [Except.map]
    split
    · next heq => cases heq
    · next heq =>
      obtain rfl := Except.error.inj heq
      exact absurd (addRemoteCandidate_full hadd) (by omega)
    · exact ⟨hkeys, h.opened⟩

theorem keys_insert {nat nat' : NatTraversalState} {m n : Nat} {c d : AddressCandidate}
    (hset : nat'.remoteCandidates = nat.remoteCandidates.insert m c) (hd : nat.remoteCandidates.get m = some d)
    (hn : nat'.remoteCandidates.get n ≠ none) : nat.remoteCandidates.get n ≠ none := by
  rw [hset, get_insert] at hn
  split at hn
  · next heq =>
    rw [heq, hd]
    nofun
  · exact hn

theorem keys_candidateStep {nat nat' : NatTraversalState} (h : nat.candidateStep e = some nat')
    (hadd : ∀ n a p c t, e ≠ .add n a p c t) (n : Nat) (hn : nat'.remoteCandidates.get n ≠ none) :
    nat.remoteCandidates.get n ≠ none := by
  cases e <;> cases h
  case add => exact absurd rfl (hadd _ _ _ _ _)
  case remove m =>
    unfold removeCandidate at hn
    split at hn
    · next c hc => exact keys_insert rfl hc hn
    · exact hn
  case start m challenge now =>
    cases hs : nat.startValidation m challenge now with
    | error _ =>
      rw [hs] at hn
      exact hn
    | ok _ =>
      obtain ⟨c, hc, -, rfl⟩ := startValidation_ok hs
      rw [hs] at hn
      exact keys_insert rfl hc hn
  case respond m remote challenge =>
    cases hs : nat.handleValidationSuccess m remote challenge with
    | error _ =>
      rw [hs] at hn
      exact hn
    | ok _ =>
      obtain ⟨c, hc, -, -, rfl⟩ := handleValidationSuccess_ok hs
      rw [hs] at hn
      exact keys_insert rfl hc hn
  case expire => exact hn

theorem Accounted.step (h : Accounted s) (hroomy : Roomy s e) (hs : s.step e = some s') : Accounted s' := by
  cases e with
  | add =>
    cases hs
    exact h.add hroomy
  | _ =>
    simp only [Advertising.step, Option.map_eq_some_iff] at hs
    obtain ⟨nat, hnat, rfl⟩ := hs
    exact ⟨fun n hn => h.keys n (keys_candidateStep hnat nofun n hn), h.opened⟩

/-- A peer for whose addresses there is room is never cut off. -/
theorem candidates_never_too_many {remote : SocketAddr} {maxCandidates : Nat} (h : Reaches step Roomy (· = .new remote maxCandidates) s) :
    s.closed = false :=
  Accounted.opened (h.invariant (fun _ hs => hs ▸ ⟨nofun, rfl⟩) fun _ _ _ hs he ht => Accounted.step hs he ht)

def localhost : SocketAddr := ⟨true, 2130706433, 9000⟩

def secondAddress : SocketAddr := ⟨true, 3405803778, 9000⟩

def replaced : List CandidateEvent := [.add 1 plainAddress 1 plainChecks 5, .remove 1, .add 2 secondAddress 1 plainChecks 5]

theorem candidates_never_too_many_replaced : ∃ s, runFrom step Roomy (.new localhost 2) replaced = some s ∧ s.closed = false :=
  ⟨_, rfl, @candidates_never_too_many _ localhost 2 (.runFrom replaced (.start rfl) (by rfl))⟩

/-- With room for one, the same closes the connection, though one address is live at a time. -/
theorem withdrawn_candidate_counts : ∃ s, runFrom step (fun _ _ => True) (.new localhost 1) replaced = some s ∧ s.closed = true :=
  ⟨_, rfl, by decide +kernel⟩

end Advertising

/-! The rate limiters are sliding windows: a tracker holds what was accepted, less what has left the window. -/

namespace RateLimits

inductive Limiter where
  | candidate
  | coordination
  deriving DecidableEq

def isRateLimited (s : SecurityValidationState) : Limiter → Nat → Option (Bool × SecurityValidationState)
  | .candidate => s.isCandidateRateLimited
  | .coordination => s.isCoordinationRateLimited

def trackerOf (s : SecurityValidationState) : Limiter → List Nat
  | .candidate => s.candidateRateTracker
  | .coordination => s.coordinationRequests

def maximumOf (s : SecurityValidationState) : Limiter → Nat
  | .candidate => s.maxCandidatesPerWindow
  | .coordination => s.maxCoordinationPerWindow

/-- The limiters, the time of the last call and what each of them has accepted. -/
structure Run where
  state : SecurityValidationState
  last : Nat
  accepted : Limiter → List Nat

def Run.step (s : Run) (call : Limiter × Nat) : Option Run :=
  (isRateLimited s.state call.1 call.2).map fun (limited, state) =>
    ⟨state, call.2, if limited then s.accepted else Function.update s.accepted call.1 (s.accepted call.1 ++ [call.2])⟩

/-- The clock does not go back, and is a window past its origin. -/
def Timely (s : Run) (call : Limiter × Nat) : Prop := s.last ≤ call.2 ∧ s.state.rateWindow ≤ call.2

def Started (s : Run) : Prop := ∃ window candidates coordination,
  s = ⟨⟨[], candidates, window, [], coordination⟩, 0, fun _ => []⟩

def within (window start : Nat) (times : List Nat) : List Nat := times.filter fun a => start ≤ a ∧ a ≤ start + window

def recent (window now : Nat) (times : List Nat) : List Nat := times.filter (now ≤ · + window)

structure Sliding (window maximum last : Nat) (tracker accepted : List Nat) : Prop where
  kept : tracker = recent window last accepted
  sorted : accepted.Pairwise (· ≤ ·)
  past : ∀ a ∈ accepted, a ≤ last
  bounded : ∀ start, (within window start accepted).length ≤ maximum

theorem dropWhile_lt_eq_filter {cutoff : Nat} : ∀ {times : List Nat}, times.Pairwise (· ≤ ·) →
    times.dropWhile (· < cutoff) = times.filter (cutoff ≤ ·)
  | [], _ => rfl
  | a :: times, h => by
    obtain ⟨ha, htimes⟩ := pairwise_cons.mp h
    by_cases hlt : a < cutoff
    · simpa [hlt] using dropWhile_lt_eq_filter htimes
    have hall : ∀ b ∈ a :: times, decide (cutoff ≤ b) = true := by grind
    rw [filter_eq_self.mpr hall, dropWhile_cons, if_neg (by simpa using hlt)]

namespace Sliding
variable {window maximum last now : Nat} {tracker accepted : List Nat}

theorem length_le (h : Sliding window maximum last tracker accepted) : tracker.length ≤ maximum := by
  refine le_trans (le_of_eq ?_) (h.bounded (last - window))
  rw [h.kept]
  refine congrArg length (filter_congr fun a ha => ?_)
  have := h.past a ha
  grind

theorem cleanup (h : Sliding window maximum last tracker accepted) (hlast : last ≤ now) :
    tracker.dropWhile (· < now - window) = recent window now accepted ∧
    Sliding window maximum now (recent window now accepted) accepted := by
  refine ⟨?_, rfl, h.sorted, fun a ha => (h.past a ha).trans hlast, h.bounded⟩
  rw [h.kept, recent, dropWhile_lt_eq_filter (h.sorted.sublist filter_sublist), filter_filter]
  exact filter_congr (by grind)

/-- A request that is accepted shares windows only with what the tracker holds. -/
theorem accept (h : Sliding window maximum now (recent window now accepted) accepted)
    (hroom : (recent window now accepted).length < maximum) :
    Sliding window maximum now (recent window now accepted ++ [now]) (accepted ++ [now]) := by
  refine ⟨by simp [recent], ?_, ?_, fun start => ?_⟩
  · simpa [pairwise_append, h.sorted] using h.past
  · simpa [or_imp, forall_and] using h.past
  by_cases hin : start ≤ now ∧ now ≤ start + window
  · have hsub : (within window start accepted).length ≤ (recent window now accepted).length :=
      (monotone_filter_right _ (by grind)).length_le
    rw [within, filter_append, length_append, ← within]
    simpa [hin] using Nat.succ_le_of_lt (hsub.trans_lt hroom)
  · simpa [within, hin] using h.bounded start

theorem request (h : Sliding window maximum last tracker accepted) (hlast : last ≤ now) (hnow : window ≤ now) :
    ∃ tracker', rateLimited window maximum now tracker = some (decide (maximum ≤ (recent window now accepted).length), tracker') ∧
      Sliding window maximum now tracker'
        (if maximum ≤ (recent window now accepted).length then accepted else accepted ++ [now]) := by
  obtain ⟨hclean, h⟩ := h.cleanup hlast
  rw [rateLimited, checkedSub_of_le hnow, Option.map_some, hclean]
  by_cases hfull : maximum ≤ (recent window now accepted).length
  · simpa [hfull] using h
  · simpa [hfull] using h.accept (Nat.lt_of_not_le hfull)

end Sliding

theorem isRateLimited_of_eq {s : SecurityValidationState} {limiter : Limiter} {now : Nat} {limited : Bool}
    {times : List Nat} (h : rateLimited s.rateWindow (maximumOf s limiter) now (trackerOf s limiter) = some (limited, times)) :
    ∃ t, isRateLimited s limiter now = some (limited, t) ∧ t.rateWindow = s.rateWindow ∧ maximumOf t = maximumOf s ∧
      trackerOf t = Function.update (trackerOf s) limiter times := by
  cases limiter <;> refine ⟨_, congrArg (Option.map _) h, rfl, ?_, ?_⟩ <;> funext other <;> cases other <;> rfl

/-- Each limiter slides up to a call of its own. -/
def Exact (s : Run) : Prop := ∀ limiter, ∃ last ≤ s.last,
  Sliding s.state.rateWindow (maximumOf s.state limiter) last (trackerOf s.state limiter) (s.accepted limiter)

theorem Exact.step {s t : Run} {call : Limiter × Nat} (h : Exact s) (hcall : Timely s call) (hstep : s.step call = some t) :
    Exact t := by
  obtain ⟨limiter, now⟩ := call
  obtain ⟨last, hlast, hslide⟩ := h limiter
  obtain ⟨times, hlimited, hnew⟩ := hslide.request (hlast.trans hcall.1) hcall.2
  obtain ⟨state, hst, hwnd, hmaximum, htracker⟩ := isRateLimited_of_eq hlimited
  obtain rfl : _ = t := by simpa [Run.step, hst] using hstep
  intro other
  simp only [hwnd, hmaximum, htracker]
  by_cases hoth : other = limiter
  · subst hoth
    refine ⟨now, le_rfl, ?_⟩
    split <;> simp_all
  · obtain ⟨last', hlast', hslide'⟩ := h other
    refine ⟨last', hlast'.trans hcall.1, ?_⟩
    split <;> simp_all

theorem exact_of_reaches {s : Run} (hs : Reaches Run.step Timely Started s) : Exact s := by
  refine hs.invariant ?_ fun _ _ _ => Exact.step
  rintro _ ⟨window, candidates, coordination, rfl⟩ limiter
  refine ⟨0, le_rfl, ?_⟩
  cases limiter <;> constructor <;> simp [trackerOf, recent, within]

/-- No window has more requests accepted than the maximum and no tracker is longer; a request is refused only when the
    window that ends with it is full. -/
theorem limiters_are_sliding_windows {s : Run} (hs : Reaches Run.step Timely Started s) (limiter : Limiter) :
    (∀ start, (within s.state.rateWindow start (s.accepted limiter)).length ≤ maximumOf s.state limiter) ∧
    (trackerOf s.state limiter).length ≤ maximumOf s.state limiter ∧
    ∀ now, Timely s (limiter, now) → (isRateLimited s.state limiter now).map Prod.fst
      = some (decide (maximumOf s.state limiter ≤ (recent s.state.rateWindow now (s.accepted limiter)).length)) := by
  obtain ⟨last, hlast, hslide⟩ := exact_of_reaches hs limiter
  refine ⟨hslide.bounded, hslide.length_le, fun now hnow => ?_⟩
  obtain ⟨times, hlimited, -⟩ := hslide.request (hlast.trans hnow.1) hnow.2
  obtain ⟨t, ht, -⟩ := isRateLimited_of_eq hlimited
  rw [ht]
  rfl

/-- With one request allowed in a window of ten, the next one is refused up to the end of the window. -/
theorem limiters_are_sliding_windows_refused : ∃ s, Reaches Run.step Timely Started s ∧ s.accepted .candidate = [10] ∧
    (isRateLimited s.state .candidate 20).map Prod.fst = some true := by
  have h : Reaches Run.step Timely Started ⟨⟨[10], 1, 10, [], 1⟩, 10, Function.update (fun _ => []) .candidate [10]⟩ :=
    .next (.candidate, 10) (.start ⟨10, 1, 1, rfl⟩) ⟨zero_le, le_rfl⟩ rfl
  exact ⟨_, h, rfl, (limiters_are_sliding_windows h .candidate).2.2 20 ⟨by decide, by decide⟩⟩

end RateLimits

/-! What becomes of a round of hole punching: repeated PUNCH_ME_NOW frames, timeouts and retries, and the response to the
    challenge of a target. -/

open NatTraversalState Option CoordinationPhase

def CoordinationPhase.active : CoordinationPhase → Bool
  | .preparing | .punching | .validating => true
  | _ => false

def CoordinationPhase.waits : CoordinationPhase → Bool
  | .requesting | .coordinating => true
  | _ => false

namespace NatTraversalState
variable {nat : NatTraversalState} {coord : CoordinationState} {frames : List (Nat × Nat)} {nat' : NatTraversalState}

/-- PUNCH_ME_NOW frames of one round, each with the time of its arrival and the grace period. A frame that is refused
    changes nothing. -/
def punched (nat : NatTraversalState) (round : Nat) (frames : List (Nat × Nat)) : NatTraversalState :=
  frames.foldl (fun nat frame => (nat.handlePeerPunchRequest round frame.1 frame.2).toOption.getD nat) nat

/-- The frames keep the targets and do not move an active phase, and leave what one of them would leave. -/
structure Idempotent (nat : NatTraversalState) (coord : CoordinationState) (frames : List (Nat × Nat)) : Prop where
  targets : (nat.punched coord.round frames).coordination.map (·.punchTargets) = some coord.punchTargets
  phase : coord.state.active = true → (nat.punched coord.round frames).coordination.map (·.state) = some coord.state
  single : ∃ frame ∈ frames, nat.punched coord.round frames = nat.punched coord.round [frame]

/-- There is nothing in the round that could be lost. -/
structure Untouched (coord : CoordinationState) : Prop where
  targets : coord.punchTargets = []
  unsent : coord.punchRequestSent = false
  untried : coord.retryCount = 0
  untimed : coord.timeoutState = []
  unretried : coord.lastRetryAt = none

/-- The frames are refused, or there is one and the round waits for it, or there is nothing to be lost. -/
def Repeatable (coord : CoordinationState) (frames : List (Nat × Nat)) : Prop :=
  coord.round = 0 ∨ match coord.state with
    | .requesting | .coordinating => frames.length = 1 ∨ Untouched coord ∧ ∀ last ∈ frames.getLast?,
        coord.roundStart = last.1 ∧ ∃ frame ∈ frames, frame.1 + frame.2 = last.1 + 150
    | .punching | .validating => False
    | _ => coord.punchTargets = []

def reset (nat : NatTraversalState) (round now : Nat) : NatTraversalState :=
  { nat with coordination := some (.new round [] now 150 .preparing true) }

theorem handlePeerPunchRequest_eq (hc : nat.coordination = some coord) (hrnd : coord.round ≠ 0) (now grace : Nat) :
    nat.handlePeerPunchRequest coord.round now grace = .ok (if coord.state.waits then
      { nat with coordination := some { coord with
          peerPunchReceived := true, state := .preparing, punchStart := now + grace } }
      else nat.reset coord.round now) := by
  have hplausible : nat.isPeerCoordinationSuspicious coord.round = false := by
    simp [isPeerCoordinationSuspicious, hc, hrnd]
  simp only [handlePeerPunchRequest, hplausible, hc, filter_some, reset]
  cases h : coord.state <;> simp [waits]

theorem punched_zero (hrnd : coord.round = 0) : nat.punched coord.round frames = nat := by
  induction frames with
  | nil => rfl
  | cons frame frames ih =>
    have href : (nat.handlePeerPunchRequest coord.round frame.1 frame.2).toOption.getD nat = nat := by
      simp [handlePeerPunchRequest, isPeerCoordinationSuspicious, hrnd, Except.toOption]
    rw [punched, foldl_cons, href]
    exact ih

theorem punched_reset {last : Nat × Nat} (hc : nat.coordination = some coord) (hrnd : coord.round ≠ 0)
    (hst : coord.state.waits = false) (hlast : frames.getLast? = some last) :
    nat.punched coord.round frames = nat.reset coord.round last.1 := by
  induction frames generalizing nat coord with
  | nil => cases hlast
  | cons frame frames ih =>
    rw [punched, foldl_cons, handlePeerPunchRequest_eq hc hrnd, hst]
    cases frames with
    | nil =>
      cases hlast
      rfl
    | cons frame' frames =>
      exact @ih (nat.reset coord.round frame.1) (.new coord.round [] frame.1 150 .preparing true)
        rfl hrnd rfl (getLast?_cons_cons ▸ hlast)

/-- Frames of the current round are taken as one if and only if that loses nothing. -/
theorem punch_frames_idempotent_iff (hc : nat.coordination = some coord) (hframes : frames ≠ []) :
    Idempotent nat coord frames ↔ Repeatable coord frames := by
  by_cases hround : coord.round = 0
  · obtain ⟨frame, hframe⟩ := exists_mem_of_ne_nil frames hframes
    refine iff_of_true ⟨?_, fun _ => ?_, frame, hframe, ?_⟩ (.inl hround) <;> simp [punched_zero hround, hc]
  obtain ⟨last, hlast⟩ := ne_none_iff_exists'.mp (mt getLast?_eq_none_iff.mp hframes)
  have hmem := mem_of_getLast? hlast
  cases hwaits : coord.state.waits with
  | false =>
    have hpunched := punched_reset hc hround hwaits hlast
    have hsingle : nat.punched coord.round [last] = nat.reset coord.round last.1 := punched_reset hc hround hwaits rfl
    constructor
    · intro h
      have htargets := h.targets
      have hphase := h.phase
      refine .inr ?_
      cases hs : coord.state <;> simp_all [reset, CoordinationState.new, waits, active]
    · intro h
      have h := h.resolve_left hround
      refine ⟨?_, ?_, last, hmem, hpunched.trans hsingle.symm⟩ <;> rw [hpunched] <;>
        cases hs : coord.state <;> simp_all [reset, CoordinationState.new, waits, active]
  | true =>
    have hone : ∀ frame, nat.punched coord.round [frame] = { nat with coordination := some { coord with
        peerPunchReceived := true, state := .preparing, punchStart := frame.1 + frame.2 } } := fun frame => by
      simp [punched, handlePeerPunchRequest_eq hc hround, hwaits, Except.toOption]
    have hactive : coord.state.active = false := by
      cases hs : coord.state <;> simp_all [waits, active]
    have hrepeat : Repeatable coord frames ↔ frames.length = 1 ∨ Untouched coord ∧
        coord.roundStart = last.1 ∧ ∃ frame ∈ frames, frame.1 + frame.2 = last.1 + 150 := by
      cases hs : coord.state <;> simp_all [Repeatable, waits]
    rw [hrepeat]
    rcases frames with _ | ⟨frame, _ | ⟨frame', rest⟩⟩
    · exact absurd rfl hframes
    · refine iff_of_true ⟨?_, fun h => ?_, frame, mem_singleton_self _, rfl⟩ (.inl rfl)
      · rw [hone, map_some]
      · exact absurd h (by simp [hactive])
    · have hpunched : nat.punched coord.round (frame :: frame' :: rest) = nat.reset coord.round last.1 := by
        rw [punched, foldl_cons, handlePeerPunchRequest_eq hc hround, hwaits]
        exact @punched_reset _ { coord with
          peerPunchReceived := true, state := .preparing, punchStart := frame.1 + frame.2 } _ last rfl hround rfl
          (getLast?_cons_cons ▸ hlast)
      constructor
      · rintro ⟨htargets, -, frame'', hframe'', hsingle⟩
        rw [hpunched] at htargets hsingle
        rw [hone] at hsingle
        simp only [reset, CoordinationState.new, mk.injEq, some.injEq, CoordinationState.mk.injEq] at hsingle
        obtain ⟨-, -, -, ⟨-, htgts, hstart, hpunch, -, hsent, -, hcount, htimed, hretried⟩, -⟩ := hsingle
        exact .inr ⟨⟨htgts.symm, hsent.symm, hcount.symm, htimed.symm, hretried.symm⟩, hstart.symm, frame'', hframe'',
          hpunch.symm⟩
      · rintro (h | ⟨h, hstart, frame'', hframe'', htime⟩)
        · simp at h
        · refine ⟨?_, fun h => absurd h (by simp [hactive]), frame'', hframe'', ?_⟩
          · rw [hpunched, h.targets]
            rfl
          · rw [hpunched, hone, reset, CoordinationState.new, ← htime, h.targets, h.unsent, h.untried, h.untimed,
              h.unretried, hstart]

def oneTarget (state : CoordinationPhase) : CoordinationState :=
  ⟨1, [⟨⟨true, 3405803777, 9000⟩, 1, 7⟩], 0, 500, state, true, false, 0, [], none⟩

theorem punch_frames_idempotent_first :
    Idempotent { new 8 with coordination := some (oneTarget .coordinating) } (oneTarget .coordinating) [(20, 150)] :=
  (punch_frames_idempotent_iff rfl (cons_ne_nil _ _)).mpr (.inr (.inl rfl))

/-- With the frame of the second target the first is lost. -/
theorem punch_frames_discard : ({ new 8 with coordination := some (oneTarget .coordinating) }.punched 1
      [(20, 150), (21, 150)]).coordination = some (.new 1 [] 21 150 .preparing true) ∧
    ¬ Idempotent { new 8 with coordination := some (oneTarget .coordinating) } (oneTarget .coordinating)
      [(20, 150), (21, 150)] :=
  ⟨rfl, fun h => nomatch h.targets⟩

theorem coordination_generatePredictedCandidates (address : SocketAddr) : ∀ (ports : List Nat) (nat : NatTraversalState),
    (nat.generatePredictedCandidates address ports).coordination = nat.coordination
  | [], _ => rfl
  | port :: ports, nat => by
    unfold generatePredictedCandidates
    dsimp only
    split
    · exact coordination_generatePredictedCandidates address ports nat
    split
    · rfl
    · exact coordination_generatePredictedCandidates address ports _

theorem coordination_handleAddAddress (nat : NatTraversalState) (sequence : Nat) (address : SocketAddr) (priority : Nat)
    (checks : CandidateChecks) (challenge : Nat) :
    ((nat.handleAddAddress sequence address priority checks challenge).toOption.getD nat).coordination =
      nat.coordination := by
  unfold handleAddAddress
  cases hadd : nat.addRemoteCandidate sequence address priority checks with
  | error _ => rfl
  | ok added =>
    obtain rfl := addRemoteCandidate_ok hadd
    simp only [Except.map, Except.toOption, Option.getD_some, triggerCandidateValidation]
    split <;> exact coordination_generatePredictedCandidates address _ _

theorem coordination_startValidation (nat : NatTraversalState) (sequence challenge now : Nat) :
    ((nat.startValidation sequence challenge now).toOption.getD nat).coordination = nat.coordination := by
  cases hs : nat.startValidation sequence challenge now with
  | error _ => rfl
  | ok started =>
    obtain ⟨c, -, -, rfl⟩ := startValidation_ok hs
    rfl

theorem coordination_handleValidationSuccess {sequence token : Nat} {remote : SocketAddr}
    (h : nat.handleValidationSuccess sequence remote token = .ok nat') : nat'.coordination = nat.coordination := by
  obtain ⟨c, -, -, -, rfl⟩ := handleValidationSuccess_ok h
  rfl

theorem coordination_removeCandidate (nat : NatTraversalState) (sequence : Nat) :
    (nat.removeCandidate sequence).coordination = nat.coordination := by
  unfold removeCandidate
  split <;> rfl

end NatTraversalState

def CoordinationPhase.terminal : CoordinationPhase → Bool
  | .succeeded | .failed => true
  | _ => false

namespace Puncher
variable {s s' : Puncher}

/-- A frame of the round that is under way comes only while the round waits for it. The adaptive timeout of a round is
    noticed only while the round is not over and may be tried again, and the timer expires for a round that waits only
    before the request was sent. -/
def Orderly (s : Puncher) : Event → Prop
  | .punchMeNow round _ _ => ∀ coord ∈ s.nat.coordination, coord.round = round → coord.state.waits = true
  | .timeout due _ _ _ => due = true → ∀ coord ∈ s.nat.coordination,
      coord.state.terminal = false ∧ coord.retryCount < CoordinationState.maxRetries
  | .timer _ due => due = true → ∀ coord ∈ s.nat.coordination, coord.state.waits = true → coord.punchRequestSent = false
  | _ => True

instance (s : Puncher) : ∀ e, Decidable (Orderly s e) := fun e => by
  unfold Orderly
  split <;> infer_instance

/-- What a round becomes if it is not replaced. -/
structure Evolved (c c' : CoordinationState) : Prop where
  terminal : c.state.terminal = true → c'.state = c.state
  requesting : (c.state = .requesting → c.punchRequestSent = false) → c'.state = .requesting → c'.punchRequestSent = false
  counted : c'.retryCount = c.retryCount ∨
    c'.retryCount = c.retryCount + 1 ∧ (c'.state ≠ .failed → c.retryCount < CoordinationState.maxRetries)

theorem Evolved.refl (c : CoordinationState) : Evolved c c := ⟨fun _ => rfl, id, .inl rfl⟩

/-- The round goes on, or another one begins, which is not yet to be tried again. -/
inductive Moves (e : Event) : Option CoordinationState → Option CoordinationState → Prop
  | none : Moves e none none
  | kept {c c' : CoordinationState} (h : Evolved c c') : Moves e (some c) (some c')
  | renewed {o : Option CoordinationState} {c' : CoordinationState} (hcount : c'.retryCount = 0)
      (hstate : c'.state ≠ .requesting) (hother : ∀ c ∈ o, c.state.terminal = true →
        ∃ round now grace, e = .punchMeNow round now grace ∧ round ≠ c.round) : Moves e o (some c')

variable {o o' : Option CoordinationState} {f : CoordinationState → CoordinationState} {e : Event}

theorem moves_map (h : ∀ c ∈ o, Evolved c (f c)) : Moves e o (o.map f) := by
  cases o with
  | none => exact .none
  | some c => exact .kept (h c rfl)

theorem moves_of_eq (h : o' = o) : Moves e o o' := by
  subst h
  cases o' with
  | none => exact .none
  | some c => exact .kept (.refl c)

theorem moves_start (s : Puncher) (pairs : List CandidatePair) (targets : List PunchTarget) (now : Nat) (accepted : Bool) :
    Moves e s.nat.coordination (s.initiateCoordination pairs targets now accepted).nat.coordination := by
  unfold Puncher.initiateCoordination
  split
  · next hsend =>
    simp only [NatTraversalState.initiateCoordination, startCoordinationRound]
    split
    · cases accepted with
      | false => exact moves_of_eq rfl
      | true =>
        refine .renewed rfl nofun fun c hc hterm => ?_
        rw [shouldSendPunchRequest, mem_def.mp hc, any_some] at hsend
        simp_all [terminal]
    · exact moves_of_eq rfl
  · exact moves_of_eq rfl

theorem moves_punchMeNow {round now grace : Nat} (hord : Orderly s (.punchMeNow round now grace)) :
    Moves (.punchMeNow round now grace) s.nat.coordination
      ((s.nat.handlePeerPunchRequest round now grace).toOption.getD s.nat).coordination := by
  unfold handlePeerPunchRequest
  split
  · exact moves_of_eq rfl
  split
  · next coord hco =>
    obtain ⟨hco, hwt⟩ := filter_eq_some_iff.mp hco
    rw [hco]
    refine .kept ⟨fun hterm => ?_, fun _ => nofun, .inl rfl⟩
    rcases (of_decide_eq_true hwt).1 with hst | hst <;> simp [hst, terminal] at hterm
  · next hnone =>
    refine .renewed rfl nofun fun c hc hterm => ⟨round, now, grace, rfl, fun heq => ?_⟩
    have hwt := hord c hc heq.symm
    cases hst : c.state <;> simp [hst, terminal, waits] at hterm hwt

theorem moves_challenge (s : Puncher) (now transmissionTime : Nat) :
    Moves e s.nat.coordination (s.sendCoordinatedPathChallenge now transmissionTime).1.nat.coordination := by
  -- A round is over neither when it starts punching nor when it punches.
  have hsta : ∀ c ∈ s.nat.coordination, s.nat.shouldStartPunching now = true → c.state.terminal = false := by
    intro c hc hsta
    simp only [shouldStartPunching, mem_def.mp hc, any_some] at hsta
    cases hst : c.state <;> simp_all [terminal]
  have hval : ∀ c c' : CoordinationState, Evolved c c' →
      Evolved c (if c'.state = .punching then { c' with state := .validating } else c') := by
    intro c c' h
    split
    · next hpunch =>
      refine ⟨fun hterm => ?_, fun _ => nofun, h.counted.imp_right fun hcnt => ⟨hcnt.1, fun _ => hcnt.2 ?_⟩⟩
      · rw [← h.terminal hterm, hpunch] at hterm
        cases hterm
      · rw [hpunch]
        nofun
    · exact h
  unfold sendCoordinatedPathChallenge
  dsimp only
  split
  · split
    · next hpunch =>
      rw [markCoordinationValidating, updateCoordination, startPunchingPhase, updateCoordination, Option.map_map]
      exact moves_map fun c hc => hval c { c with state := .punching, punchStart := max transmissionTime now } ⟨fun hterm => by simp [hsta c hc hpunch] at hterm, fun _ => nofun, .inl rfl⟩
    · exact moves_map fun c _ => hval _ _ (.refl c)
  · split
    · next hpunch =>
      exact moves_map fun c hc => ⟨fun hterm => by simp [hsta c hc hpunch] at hterm, fun _ => nofun, .inl rfl⟩
    · exact moves_of_eq rfl

theorem moves_response (s : Puncher) (sequence token now : Nat) (remote : SocketAddr) :
    Moves e s.nat.coordination (s.handlePathResponse sequence remote token now).nat.coordination := by
  unfold handlePathResponse
  split
  · exact moves_of_eq rfl
  next nat hnat =>
  have hc := coordination_handleValidationSuccess hnat
  unfold handleCoordinationSuccess
  by_cases hval : nat.coordination.any (fun coord =>
    coord.state = .validating ∧ coord.punchTargets.any fun target => target.remoteAddr = remote) = true
  · rw [if_pos hval, ← hc]
    refine moves_map fun c hc => ⟨fun hterm => ?_, fun _ => nofun, .inl rfl⟩
    simp_all [terminal]
  rw [if_neg hval]
  dsimp only
  unfold markPairSucceeded
  split <;> exact moves_of_eq hc

theorem moves_retryRound {nat : NatTraversalState} {c next : CoordinationState} {actions : List TimeoutAction}
    (hc : nat.coordination = some c) (hterm : c.state.terminal = false)
    (hreq : next.state = .requesting → next.punchRequestSent = false) :
    Moves e nat.coordination (nat.retryRound c next actions).1.coordination := by
  rw [hc]
  unfold retryRound
  dsimp only
  split
  · exact .kept ⟨by simp [hterm], fun _ => nofun, .inr ⟨rfl, fun h => absurd rfl h⟩⟩
  · next hlt => exact .kept ⟨by simp [hterm], fun _ => hreq, .inr ⟨rfl, fun _ => by omega⟩⟩

theorem moves_timer {now : Nat} {due : Bool} (hord : Orderly s (.timer now due)) :
    Moves e s.nat.coordination (s.nat.timeoutRound now due).1.coordination := by
  unfold timeoutRound
  split
  · exact moves_of_eq rfl
  next c hc =>
  have hwaits : c.state.waits = true → due = true → c.punchRequestSent = false := fun hwt hdue => hord hdue c hc hwt
  split
  case h_1 hst | h_2 hst =>
    split
    · next hdue => exact moves_retryRound hc (by rw [hst]; rfl) fun _ => hwaits (by rw [hst]; rfl) hdue
    · exact moves_of_eq rfl
  case h_3 hst =>
    split
    · rw [hc]
      exact .kept ⟨fun hterm => by simp [hst, terminal] at hterm, fun _ => nofun, .inl rfl⟩
    · exact moves_of_eq rfl
  case h_4 hst | h_5 hst =>
    split
    · exact moves_retryRound hc (by rw [hst]; rfl) nofun
    · exact moves_of_eq rfl
  case h_6 | h_7 => exact moves_of_eq rfl

theorem handle_moves (hord : Orderly s e) : Moves e s.nat.coordination (s.handle e).nat.coordination := by
  cases e with
  | start pairs targets now accepted => exact moves_start s pairs targets now accepted
  | punchMeNow round now grace => exact moves_punchMeNow hord
  | request =>
    simp only [handle, sendCoordinationRequest]
    split
    · next hsend =>
      refine moves_map fun c hc => ⟨fun hterm => ?_, fun _ => nofun, .inl rfl⟩
      simp only [shouldSendPunchRequest, mem_def.mp hc, any_some] at hsend
      simp_all [terminal]
    · exact moves_of_eq rfl
  | timeout due suitable now punchStart =>
    cases due with
    | false => exact moves_of_eq rfl
    | true =>
      refine moves_map fun c hc => ?_
      obtain ⟨hterm, hlt⟩ := hord rfl c hc
      dsimp only
      split
      · exact ⟨by simp [hterm], fun _ _ => rfl, .inr ⟨rfl, fun _ => hlt⟩⟩
      · exact ⟨by simp [hterm], fun _ => nofun, .inr ⟨rfl, fun _ => hlt⟩⟩
  | challenge now transmissionTime => exact moves_challenge s now transmissionTime
  | response sequence remote token now => exact moves_response s sequence token now remote
  | timer now due => exact moves_timer hord
  | addCandidate => exact moves_of_eq (coordination_handleAddAddress ..)
  | removeCandidate => exact moves_of_eq (coordination_removeCandidate ..)
  | startValidation => exact moves_of_eq (coordination_startValidation ..)
  | expire => exact moves_of_eq rfl
  | pairs => exact moves_of_eq rfl

structure Tried (s : Puncher) : Prop where
  requesting : ∀ coord ∈ s.nat.coordination, coord.state = .requesting → coord.punchRequestSent = false
  counted : ∀ coord ∈ s.nat.coordination, s.retries ≤ coord.retryCount
  retried : s.retries ≤ CoordinationState.maxRetries

theorem Tried.step (h : Tried s) (hord : Orderly s e) (hs : s.step e = some s') : Tried s' := by
  have hmoves := handle_moves hord
  cases hs
  cases hco : s.nat.coordination with
  | none =>
    rw [hco] at hmoves
    cases hnext : (s.handle e).nat.coordination with
    | none => exact ⟨by simp [hnext], by simp [hnext], by simpa [hnext] using h.retried⟩
    | some c' =>
      rw [hnext] at hmoves
      cases hmoves with
      | renewed hcnt hst _ => refine ⟨?_, ?_, ?_⟩ <;> simp [hnext, hcnt, hst]
  | some c =>
    have hcnt := h.counted c hco
    have hretried := h.retried
    rw [hco] at hmoves
    cases hnext : (s.handle e).nat.coordination with
    | none =>
      rw [hnext] at hmoves
      cases hmoves
    | some c' =>
      rw [hnext] at hmoves
      cases hmoves with
      | renewed hzero hst _ => refine ⟨?_, ?_, ?_⟩ <;> simp [hnext, hzero, hst]
      | kept hevo =>
        have hreq := hevo.requesting (h.requesting c hco)
        have hevo := hevo.counted
        refine ⟨fun coord hcoord => ?_, fun coord hcoord => ?_, ?_⟩
        · obtain rfl := Option.some.inj (hnext.symm.trans hcoord)
          exact hreq
        · obtain rfl := Option.some.inj (hnext.symm.trans hcoord)
          simp only [any_some, decide_eq_true_eq]
          split
          · exact Nat.zero_le _
          split <;> omega
        · simp only [any_some, decide_eq_true_eq]
          split
          · exact Nat.zero_le _
          split
          · next hagain =>
            have := hevo.resolve_left (by omega)
            have := this.2 hagain.1
            omega
          · exact hretried

def target : PunchTarget := ⟨⟨true, 3405803777, 9000⟩, 1, 7⟩

/-- A round is made by a frame of the peer and times out, and so a round of our own begins. -/
def begun : List Event := [.addCandidate 1 target.remoteAddr 1 ⟨false, false, .valid, []⟩ 5, .punchMeNow 1 0 150,
  .timeout true true 1000 1500, .start [⟨target.remoteAddr, 1, 0, .waiting⟩] [target] 1500 true]

def retried : List Event := begun ++ [.timeout true true 3000 3500, .request]

def pairAt (s : Puncher) (remote : SocketAddr) : Option PairState :=
  (s.candidatePairs.find? fun pair => pair.remoteAddr = remote).map (·.state)

/-- The address is validated with the very challenge of the target, and its pair has succeeded before. -/
def Expected (s : Puncher) (sequence : Nat) (target : PunchTarget) : Prop :=
  (s.nat.remoteCandidates.get sequence).map (·.address) = some target.remoteAddr ∧
    s.nat.activeValidations.lookup target.remoteAddr = some target.challenge ∧
    s.pairAt target.remoteAddr = some .succeeded

end Puncher
end SaorsaTransport
