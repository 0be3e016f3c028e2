import SaorsaTransport.Masque.Relay

/-! Who uses which port of a relay server, in any interleaving. A loop registers before it looks for its session, and a
    close removes the session before it looks for the loop: so one of the two sees the other, and the socket is handed on
    only after the loop has let go of it. -/

namespace SaorsaTransport.Masque
open Library BTreeMap Option RelayServer

namespace Task

def socket : Task → Option Nat
  | .insertSession _ _ socket _ => some socket
  | .readForwarding _ session _ | .awaitLoop session _ _ | .removeClient session _ | .lease session _ =>
    some session.udpSocket
  | _ => none

def forwards : Task → Bool
  | .claim .. | .readSession .. | .running .. | .finishing .. => true
  | _ => false

/-- The session for which the loop is registered. -/
def registers : Task → Option Nat
  | .readSession id | .running id _ | .finishing id _ => some id
  | _ => none

/-- Neither a loop nor a close that has still to wait for one. -/
def aside : Task → Bool
  | .readForwarding .. | .awaitLoop .. => false
  | t => !t.forwards

/-- The session that is numbered and not yet entered. -/
def pending : Task → Option Nat
  | .insertSession _ id _ _ => some id
  | _ => none

theorem registers_of_any {v : Option Task} (h : v.any forwards = false) : v.bind registers = none := by
  cases v with
  | none => rfl
  | some t => cases t <;> first | rfl | cases h

end Task

inductive Holder where
  | session (id : Nat)
  | task (task : Nat)
  | reservation (peer : Nat)
  deriving DecidableEq

namespace RelayServer
variable {s s' : RelayServer} {τ i id socket : Nat} {o v : Option Task} {t : Task} {choice : Bool} {session : Session}
  {request : Request} {next : Option Request} {leasedTo : Option Nat} {m : BTreeMap Nat Reservation}

/-! ### Steps of one task -/

/-- Task `τ` goes from `o` to `v`. -/
structure Moves (s s' : RelayServer) (τ : Nat) (o v : Option Task) : Prop where
  before : s.tasks τ = o
  after : ∀ i, s'.tasks i = if i = τ then v else s.tasks i

namespace Moves
variable {α : Type} {f : Task → Option α} {p : Task → Bool} {a : α} {P : Option Task → Prop} (h : Moves s s' τ o v)
include h

theorem self : s'.tasks τ = v := by rw [h.after, if_pos rfl]

theorem other (hi : i ≠ τ) : s'.tasks i = s.tasks i := by rw [h.after, if_neg hi]

/-- What holds of a task afterwards holds of the one that moved, or held before. -/
theorem holds (hp : P (s'.tasks i)) : i = τ ∧ P v ∨ i ≠ τ ∧ P (s.tasks i) := by
  by_cases hi : i = τ
  · rw [hi, h.self] at hp
    exact .inl ⟨hi, hp⟩
  · exact .inr ⟨hi, h.other hi ▸ hp⟩

theorem old {x : Task} (hx : s'.tasks i = some x) (hv : v ≠ some x) : i ≠ τ ∧ s.tasks i = some x :=
  (h.holds (P := (· = some x)) hx).resolve_left fun hnew => hv hnew.2

theorem view_eq {β : Type} {g : Option Task → β} (hv : g v = g o) (i : Nat) : g (s'.tasks i) = g (s.tasks i) := by
  by_cases hi : i = τ
  · rw [hi, h.self, h.before, hv]
  · rw [h.other hi]

/-- What holds of one task at most, as long as the task takes nothing another one has. -/
theorem holds_once (hold : ∀ i j, P (s.tasks i) → P (s.tasks j) → i = j)
    (hnew : P v → ∀ i, i ≠ τ → ¬ P (s.tasks i)) {i j : Nat} (hi : P (s'.tasks i)) (hj : P (s'.tasks j)) : i = j := by
  rcases h.holds hi with ⟨rfl, hv⟩ | ⟨hiτ, hi⟩ <;> rcases h.holds hj with ⟨rfl, hv'⟩ | ⟨hjτ, hj⟩
  · rfl
  · exact absurd hj (hnew hv j hjτ)
  · exact absurd hi (hnew hv' i hiτ)
  · exact hold i j hi hj

theorem bind_cases (hf : (s'.tasks i).bind f = some a) :
    i = τ ∧ v.bind f = some a ∨ i ≠ τ ∧ (s.tasks i).bind f = some a := h.holds (P := (·.bind f = some a)) hf

theorem bind_old (hf : (s'.tasks i).bind f = some a) (hv : v.bind f = none) : i ≠ τ ∧ (s.tasks i).bind f = some a :=
  (h.bind_cases hf).resolve_left fun hnew => nomatch hv.symm.trans hnew.2

theorem bind_back (hv : ∀ a, v.bind f = some a → o.bind f = some a) (hf : (s'.tasks i).bind f = some a) :
    (s.tasks i).bind f = some a := by
  rcases h.bind_cases hf with ⟨rfl, hf⟩ | ⟨-, hf⟩
  · rw [h.before]
    exact hv a hf
  · exact hf

theorem bind_eq (hv : v.bind f = o.bind f) (i : Nat) : (s'.tasks i).bind f = (s.tasks i).bind f :=
  h.view_eq (g := (·.bind f)) hv i

theorem bind_once (hold : ∀ i j a, (s.tasks i).bind f = some a → (s.tasks j).bind f = some a → i = j)
    (hnew : ∀ i a, v.bind f = some a → i ≠ τ → (s.tasks i).bind f ≠ some a) (i j : Nat) (a : α)
    (hi : (s'.tasks i).bind f = some a) (hj : (s'.tasks j).bind f = some a) : i = j :=
  h.holds_once (P := (·.bind f = some a)) (fun i j => hold i j a) (fun hv i => hnew i a hv) hi hj

theorem any_eq (hv : v.any p = o.any p) (i : Nat) : (s'.tasks i).any p = (s.tasks i).any p := h.view_eq (g := (·.any p)) hv i

theorem any_cases (hp : (s'.tasks i).any p) : i = τ ∧ v.any p ∨ i ≠ τ ∧ (s.tasks i).any p :=
  h.holds (P := (·.any p = true)) hp

theorem any_old (hp : (s'.tasks i).any p) (hv : v.any p = false) : i ≠ τ ∧ (s.tasks i).any p :=
  (h.any_cases hp).resolve_left fun hnew => nomatch hv.symm.trans hnew.2

theorem any_once (hold : ∀ i j, (s.tasks i).any p → (s.tasks j).any p → i = j)
    (hnew : v.any p → ∀ i, i ≠ τ → (s.tasks i).any p = false) (i j : Nat) (hi : (s'.tasks i).any p)
    (hj : (s'.tasks j).any p) : i = j :=
  h.holds_once (P := (·.any p = true)) hold (fun hv i hne => Bool.eq_false_iff.mp (hnew hv i hne)) hi hj

end Moves

theorem len_remove_le (k : Nat) : (m.remove k).len ≤ m.len := List.length_filter_le _ _

theorem get_of_get_remove {α : Type} {m : BTreeMap Nat α} {k k' : Nat} {r : α} (h : (m.remove k).get k' = some r) :
    k' ≠ k ∧ m.get k' = some r := by rwa [get_remove, ite_none_left_eq_some] at h

/-! ### Numbers of sessions -/

structure Numbered (s : RelayServer) : Prop where
  numbered : ∀ id, s.nextSessionId ≤ id → s.sessions.get id = none
  pending : ∀ i id, (s.tasks i).bind Task.pending = some id → id < s.nextSessionId ∧ s.sessions.get id = none
  single : ∀ i j id, (s.tasks i).bind Task.pending = some id → (s.tasks j).bind Task.pending = some id → i = j

section
variable (h : Numbered s)
include h

theorem Numbered.keep (hm : Moves s s' τ o v) (hv : v.bind Task.pending = none)
    (hsess : ∀ id, s.sessions.get id = none → s'.sessions.get id = none) (hid : s'.nextSessionId = s.nextSessionId) :
    Numbered s' where
  numbered id hle := hsess id (h.numbered id (hid ▸ hle))
  pending i id hi := by
    obtain ⟨hlt, hnone⟩ := h.pending i id (hm.bind_old hi hv).2
    exact ⟨hid ▸ hlt, hsess id hnone⟩
  single i j id hi hj := h.single i j id (hm.bind_old hi hv).2 (hm.bind_old hj hv).2

theorem Numbered.createSession (hm : Moves s s' τ o (some (.insertSession request s.nextSessionId socket leasedTo)))
    (hsess : s'.sessions = s.sessions) (hid : s'.nextSessionId = s.nextSessionId + 1) : Numbered s' := by
  refine ⟨fun id hle => hsess ▸ h.numbered id (by omega), fun i id hi => ?_, hm.bind_once h.single fun i id hv _ hi => ?_⟩
  · rw [hsess, hid]
    rcases hm.bind_cases hi with ⟨-, hv⟩ | ⟨-, hi⟩
    · obtain rfl := some.inj hv
      exact ⟨Nat.lt_succ_self _, h.numbered _ le_rfl⟩
    · exact ⟨Nat.lt_succ_of_lt (h.pending i id hi).1, (h.pending i id hi).2⟩
  · -- The number is larger than those that are pending.
    exact absurd (some.inj hv) (ne_of_gt (h.pending i id hi).1)

theorem Numbered.insertSession (hm : Moves s s' τ (some (.insertSession request id socket leasedTo)) v)
    (hv : v.bind Task.pending = none) (hsess : s'.sessions = s.sessions.insert id session)
    (hid : s'.nextSessionId = s.nextSessionId) : Numbered s' := by
  have hown : (s.tasks τ).bind Task.pending = some id := by rw [hm.before]; rfl
  constructor <;> try simp only [hsess, hid, get_insert]
  case numbered => grind [Numbered]
  case pending =>
    intro i id' hi
    obtain ⟨hne, hi⟩ := hm.bind_old hi hv
    grind [Numbered]
  case single => exact fun i j id' hi hj => h.single i j id' (hm.bind_old hi hv).2 (hm.bind_old hj hv).2

theorem Numbered.advance (ht : s.tasks τ = some t) (hs : s.advance τ choice t = some s') : Numbered s' := by
  cases t with
  | insertSession request id socket leasedTo =>
    cases hs
    exact h.insertSession ⟨ht, fun _ => rfl⟩ rfl rfl rfl
  | remove id next =>
    simp only [advance, closed] at hs
    (repeat' split at hs) <;> cases hs <;> refine h.keep ⟨ht, fun _ => rfl⟩ rfl (fun id' hget => ?_) rfl
    · show (s.sessions.remove id).get id' = none
      rw [get_remove, hget, ite_self]
    all_goals exact hget
  | _ =>
    simp only [advance, closed] at hs
    (repeat' split at hs) <;> cases hs <;> first
      | exact h.keep ⟨ht, fun _ => rfl⟩ rfl (fun _ hget => hget) rfl
      | exact h.createSession ⟨ht, fun _ => rfl⟩ rfl rfl

end

/-! ### Loops and the sockets they use -/

/-- The socket of a loop belongs to its session, or to the close that waits, or will wait, for the loop. -/
def Uses (s : RelayServer) (τ id socket : Nat) : Prop :=
  (∃ session, s.sessions.get id = some session ∧ session.udpSocket = socket) ∨
    ∃ τ' session next, session.udpSocket = socket ∧
      (s.tasks τ' = some (.readForwarding id session next) ∨ s.tasks τ' = some (.awaitLoop session τ next))

theorem Uses.move {k : Nat} (h : Uses s i id k) (hm : Moves s s' τ o v)
    (hget : ∀ session, s.sessions.get id = some session → session.udpSocket = k → Uses s' i id k)
    (hclose : ∀ session next, session.udpSocket = k → o = some (.readForwarding id session next) ∨
      o = some (.awaitLoop session i next) → Uses s' i id k) : Uses s' i id k := by
  rcases h with ⟨session, hses, hk⟩ | ⟨τ', session, next, hk, hc⟩
  · exact hget session hses hk
  by_cases hτ : τ' = τ
  · rw [hτ, hm.before] at hc
    exact hclose session next hk hc
  · exact .inr ⟨τ', session, next, hk, by rwa [hm.other hτ]⟩

theorem Uses.aside {k : Nat} (h : Uses s i id k) (hm : Moves s s' τ o v) (ho : o.all Task.aside ∨ o.any Task.forwards)
    (hget : ∀ session, s.sessions.get id = some session → s'.sessions.get id = some session) : Uses s' i id k := by
  refine h.move hm (fun session hses hk => .inl ⟨session, hget session hses, hk⟩) ?_
  rintro session next - (rfl | rfl) <;> rcases ho with ho | ho <;> cases ho

/-- A loop is registered until it is done. -/
structure Looped (s : RelayServer) : Prop where
  live : ∀ i, (s.tasks i).any Task.forwards = true → s.done i = false
  registered : ∀ i id, (s.tasks i).bind Task.registers = some id → s.forwarding id = some i
  used : ∀ i id socket, s.tasks i = some (.running id socket) → Uses s i id socket
  fresh : ∀ i, s.nextTask ≤ i → s.tasks i = none ∧ s.done i = false

section
variable (h : Looped s)
include h

theorem Looped.lt_nextTask (ht : s.tasks τ = some t) : τ < s.nextTask := by
  by_contra hle
  rw [(h.fresh τ (not_lt.mp hle)).1] at ht
  cases ht

theorem Looped.fresh_move (hm : Moves s s' τ (some t) v) (hi : s.nextTask ≤ i) : s'.tasks i = none ∧ s.done i = false := by
  rw [hm.other (ne_of_gt ((h.lt_nextTask hm.before).trans_le hi))]
  exact h.fresh i hi

/-- What the loops go by is the same. -/
def SameLoops (s s' : RelayServer) : Prop := s'.forwarding = s.forwarding ∧ s'.done = s.done ∧ s'.nextTask = s.nextTask

section
variable (hm : Moves s s' τ (some t) v) (hv : v.any Task.forwards = false) (hsame : SameLoops s s')
include hm hv hsame

/-- A task that is no loop afterwards; what is left to show is that the loops still have their sockets. -/
theorem Looped.quiet (hused : ∀ i id k, s.tasks i = some (.running id k) → Uses s i id k → Uses s' i id k) : Looped s' := by
  obtain ⟨hfwd, hdone, hnext⟩ := hsame
  constructor <;> try simp only [hfwd, hdone, hnext]
  case live => exact fun i hi => h.live i (hm.any_old hi hv).2
  case registered => exact fun i id hi => h.registered i id (hm.bind_old hi (Task.registers_of_any hv)).2
  case used =>
    intro i id k hi
    obtain ⟨-, hi⟩ := hm.old hi (by rintro rfl; cases hv)
    exact hused i id k hi (h.used i id k hi)
  case fresh => exact fun i hi => h.fresh_move hm hi

theorem Looped.aside (ht : t.aside ∨ t.forwards)
    (hget : ∀ id session, s.sessions.get id = some session → s'.sessions.get id = some session) : Looped s' :=
  h.quiet hm hv hsame fun _ id _ _ hu => hu.aside hm ht (hget id)

/-- A close goes on; the loops that rely on it have to be looked after. -/
theorem Looped.close (hsess : s'.sessions = s.sessions)
    (hclose : ∀ i id k session next, s.tasks i = some (.running id k) → session.udpSocket = k →
      some t = some (.readForwarding id session next) ∨ some t = some (.awaitLoop session i next) → Uses s' i id k) : Looped s' :=
  h.quiet hm hv hsame fun i id k hi hu => hu.move hm (fun session hses hk => .inl ⟨session, hsess ▸ hses, hk⟩)
    fun session next => hclose i id k session next hi

end

theorem Looped.remove (hm : Moves s s' τ (some (.remove id next)) (some (.readForwarding id session next)))
    (hses : s.sessions.get id = some session) (hsess : s'.sessions = s.sessions.remove id) (hsame : SameLoops s s') :
    Looped s' := by
  refine h.quiet hm rfl hsame fun i id' k _ hu => hu.move hm (fun session' hget hk => ?_) ?_
  · by_cases hid : id' = id
    · -- The close takes over from the session.
      subst hid
      obtain rfl := some.inj (hses.symm.trans hget)
      exact .inr ⟨τ, session, next, hk, .inl hm.self⟩
    · exact .inl ⟨session', by rw [hsess, get_remove, if_neg hid, hget], hk⟩
  · rintro _ _ - (hc | hc) <;> cases hc

/-- A loop goes on, and the others stay registered; the socket it starts to use is that of its session. -/
theorem Looped.loop (hm : Moves s s' τ (some t) v) (ht : t.forwards)
    (hlive : ∀ i, i ≠ τ ∨ v.any Task.forwards → s'.done i = s.done i)
    (hreg : ∀ id, v.bind Task.registers = some id → s'.forwarding id = some τ)
    (hothers : ∀ i id, i ≠ τ → s.forwarding id = some i → s'.forwarding id = some i)
    (hsocket : ∀ id k, v = some (.running id k) → ∃ session, s.sessions.get id = some session ∧ session.udpSocket = k)
    (hsess : s'.sessions = s.sessions) (hnext : s'.nextTask = s.nextTask) : Looped s' where
  live i hi := by
    rcases hm.any_cases hi with ⟨rfl, hv⟩ | ⟨hne, hi⟩
    · exact (hlive i (.inr hv)).trans (h.live i (by rw [hm.before]; exact ht))
    · exact (hlive i (.inl hne)).trans (h.live i hi)
  registered i id hi := by
    rcases hm.bind_cases hi with ⟨rfl, hv⟩ | ⟨hne, hi⟩
    · exact hreg id hv
    · exact hothers i id hne (h.registered i id hi)
  used i id k hi := by
    by_cases hiτ : i = τ
    · obtain ⟨session, hget, hk⟩ := hsocket id k (by rw [← hi, hiτ, hm.self])
      exact .inl ⟨session, hsess ▸ hget, hk⟩
    · exact (h.used i id k (hm.other hiτ ▸ hi)).aside hm (.inr ht) fun _ hget => hsess ▸ hget
  fresh i hi := by
    obtain ⟨htask, hdone⟩ := h.fresh_move hm (hnext ▸ hi)
    exact ⟨htask, (hlive i (.inl (ne_of_gt ((h.lt_nextTask hm.before).trans_le (hnext ▸ hi))))).trans hdone⟩

theorem Looped.advance (hn : Numbered s) (ht : s.tasks τ = some t) (hs : s.advance τ choice t = some s') : Looped s' := by
  have hrunning : ∀ {i id k}, s.tasks i = some (.running id k) → s.forwarding id = some i ∧ s.done i = false := fun {i id _} hi =>
    ⟨h.registered i id (by rw [hi]; rfl), h.live i (by rw [hi]; rfl)⟩
  cases t with
  | insertSession request id socket leasedTo =>
    cases hs
    refine h.aside ⟨ht, fun _ => rfl⟩ rfl ⟨rfl, rfl, rfl⟩ (.inl rfl) fun id' session' hget => ?_
    have hnew := (hn.pending τ id (by rw [ht]; rfl)).2
    refine get_insert.trans ((if_neg ?_).trans hget)
    rintro rfl
    cases hnew.symm.trans hget
  | remove id next =>
    simp only [advance, closed] at hs
    (repeat' split at hs) <;> cases hs
    · next session hses => exact h.remove ⟨ht, fun _ => rfl⟩ hses rfl ⟨rfl, rfl, rfl⟩
    all_goals exact h.aside ⟨ht, fun _ => rfl⟩ rfl ⟨rfl, rfl, rfl⟩ (.inl rfl) fun _ _ hget => hget
  | readForwarding id session next =>
    simp only [advance] at hs
    split at hs <;> cases hs
    · next loop hloop =>
      refine h.close ⟨ht, fun _ => rfl⟩ rfl ⟨rfl, rfl, rfl⟩ rfl fun i id' k session' next' hi hk hc => ?_
      rcases hc with hc | hc <;> cases hc
      -- This close goes on to wait for the loop that is registered.
      obtain rfl := some.inj (hloop.symm.trans (hrunning hi).1)
      exact .inr ⟨τ, session, next, hk, .inr (if_pos rfl)⟩
    · next hnone =>
      refine h.close ⟨ht, fun _ => rfl⟩ rfl ⟨rfl, rfl, rfl⟩ rfl fun i id' k session' next' hi hk hc => ?_
      rcases hc with hc | hc <;> cases hc
      cases hnone.symm.trans (hrunning hi).1
  | awaitLoop session loop next =>
    simp only [advance] at hs
    split at hs <;> cases hs
    next hdone =>
    refine h.close ⟨ht, fun _ => rfl⟩ rfl ⟨rfl, rfl, rfl⟩ rfl fun i id' k session' next' hi hk hc => ?_
    rcases hc with hc | hc <;> cases hc
    -- The loop that was waited for is done, and this one is not.
    cases hdone.symm.trans (hrunning hi).2
  | claim id =>
    simp only [advance] at hs
    split at hs <;> cases hs
    · exact h.aside ⟨ht, fun _ => rfl⟩ rfl ⟨rfl, rfl, rfl⟩ (.inr rfl) fun _ _ hget => hget
    · next hfree =>
      refine h.loop ⟨ht, fun _ => rfl⟩ rfl (fun _ _ => rfl) ?_ (fun i id' _ hfwd => (if_neg ?_).trans hfwd) nofun rfl rfl
      · rintro _ ⟨⟩
        exact if_pos rfl
      · rintro rfl
        exact hfree (by rw [hfwd]; rfl)
  | readSession id | running id socket =>
    have hown : s.forwarding id = some τ := h.registered τ id (by rw [ht]; rfl)
    simp only [advance] at hs
    split at hs <;> cases hs <;>
      refine h.loop ⟨ht, fun _ => rfl⟩ rfl (fun _ _ => rfl) (by rintro _ ⟨⟩; exact hown) (fun _ _ _ hfwd => hfwd) ?_ rfl rfl <;>
      rintro _ _ ⟨⟩
    all_goals exact ⟨_, by assumption, rfl⟩
  | finishing id close =>
    have hown : s.forwarding id = some τ := h.registered τ id (by rw [ht]; rfl)
    simp only [advance] at hs
    split at hs <;> cases hs <;>
      refine h.loop ⟨ht, fun _ => rfl⟩ rfl (fun i hi => ?_) nofun (fun i id' hne hfwd => (if_neg ?_).trans hfwd) nofun rfl rfl
    all_goals first
      | simp [setTask, setForwarding, hi.resolve_right (by rintro ⟨⟩)]
      | rintro rfl
        exact hne (some.inj (hfwd.symm.trans hown))
  | _ =>
    simp only [advance, closed] at hs
    (repeat' split at hs) <;> cases hs <;>
      exact h.aside ⟨ht, fun _ => rfl⟩ rfl ⟨rfl, rfl, rfl⟩ (.inl rfl) fun _ _ hget => hget

theorem Looped.spawn (ht : t.registers = none) : Looped (s.spawn t) := by
  obtain ⟨hnone, hdone⟩ := h.fresh s.nextTask le_rfl
  have hm : Moves s (s.spawn t) s.nextTask none (some t) := ⟨hnone, fun _ => rfl⟩
  refine ⟨fun i hi => ?_, fun i id hi => h.registered i id (hm.bind_old hi ht).2, fun i id k hi => ?_, fun i hi => ?_⟩
  · rcases hm.any_cases hi with ⟨rfl, -⟩ | ⟨-, hi⟩
    · exact hdone
    · exact h.live i hi
  · obtain ⟨-, hi⟩ := hm.old hi (by rintro ⟨⟩; cases ht)
    exact (h.used i id k hi).aside hm (.inl rfl) fun _ hget => hget
  · have hle : s.nextTask < i := hi
    rw [hm.other (ne_of_gt hle)]
    exact h.fresh i (le_of_lt hle)

end

/-! ### Whose a socket is -/

def socketOf (s : RelayServer) : Holder → Option Nat
  | .session id => (s.sessions.get id).map (·.udpSocket)
  | .task task => (s.tasks task).bind Task.socket
  | .reservation peer => (s.reservations.get peer).map (·.udpSocket)

structure Owned (s : RelayServer) : Prop where
  exclusive : ∀ o o' k, s.socketOf o = some k → s.socketOf o' = some k → o = o'
  bound : ∀ o k, s.socketOf o = some k → k < s.nextSocket

section
variable (h : Owned s)
include h

theorem Owned.move (a b : Holder) (hnext : s'.nextSocket = s.nextSocket)
    (hmove : ∀ o k, s'.socketOf o = some k → o ≠ a ∧ s.socketOf o = some k ∨ o = b ∧ s.socketOf a = some k) : Owned s' where
  exclusive o o' k ho ho' := by
    have := h.exclusive
    grind
  bound o k ho := by
    rw [hnext]
    rcases hmove o k ho with ⟨-, ho⟩ | ⟨-, ho⟩ <;> exact h.bound _ k ho

theorem Owned.fresh (b : Holder) (hnext : s'.nextSocket = s.nextSocket + 1)
    (hmove : ∀ o k, s'.socketOf o = some k → s.socketOf o = some k ∨ o = b ∧ k = s.nextSocket) : Owned s' where
  exclusive o o' k ho ho' := by
    have := h.exclusive o o' k
    have := h.bound
    grind
  bound o k ho := by
    have := h.bound o k
    grind

theorem Owned.keep (hkeep : ∀ o k, s'.socketOf o = some k → s.socketOf o = some k)
    (hnext : s'.nextSocket = s.nextSocket) : Owned s' where
  exclusive o o' k ho ho' := h.exclusive o o' k (hkeep o k ho) (hkeep o' k ho')
  bound o k ho := hnext ▸ h.bound o k (hkeep o k ho)

variable (hm : Moves s s' τ o v)
include hm

theorem Owned.task (hv : ∀ k, v.bind Task.socket = some k → o.bind Task.socket = some k)
    (hsess : s'.sessions = s.sessions) (hres : ∀ peer r, s'.reservations.get peer = some r → s.reservations.get peer = some r)
    (hnext : s'.nextSocket = s.nextSocket) : Owned s' := by
  refine h.keep (fun o k ho => ?_) hnext
  cases o with
  | session id => rwa [socketOf, hsess] at ho
  | task i => exact hm.bind_back hv ho
  | reservation peer =>
    obtain ⟨r, hr, hk⟩ := map_eq_some_iff.mp ho
    exact map_eq_some_iff.mpr ⟨r, hres peer r hr, hk⟩

theorem Owned.reclaim {peer : Nat} {r : Reservation} (hv : v.bind Task.socket = some r.udpSocket)
    (hr : s.reservations.get peer = some r) (hsess : s'.sessions = s.sessions)
    (hres : s'.reservations = s.reservations.remove peer) (hnext : s'.nextSocket = s.nextSocket) : Owned s' := by
  refine h.move (.reservation peer) (.task τ) hnext fun o k ho => ?_
  cases o <;> simp only [socketOf, hsess, hres, get_remove, hm.after] at ho ⊢ <;> grind

theorem Owned.bindSocket (hv : v.bind Task.socket = some s.nextSocket) (hsess : s'.sessions = s.sessions)
    (hres : s'.reservations = s.reservations) (hnext : s'.nextSocket = s.nextSocket + 1) : Owned s' := by
  refine h.fresh (.task τ) hnext fun o k ho => ?_
  cases o <;> simp only [socketOf, hsess, hres, hm.after] at ho ⊢ <;> grind

theorem Owned.insertSession (hv : v.bind Task.socket = none)
    (hown : o.bind Task.socket = some session.udpSocket) (hsess : s'.sessions = s.sessions.insert id session)
    (hres : s'.reservations = s.reservations) (hnext : s'.nextSocket = s.nextSocket) : Owned s' := by
  refine h.move (.task τ) (.session id) hnext fun o k ho => ?_
  cases o <;> simp only [socketOf, hsess, hres, get_insert, hm.after, hm.before, hown] at ho ⊢ <;> grind

theorem Owned.remove (hv : v.bind Task.socket = some session.udpSocket)
    (hses : s.sessions.get id = some session) (hsess : s'.sessions = s.sessions.remove id)
    (hres : s'.reservations = s.reservations) (hnext : s'.nextSocket = s.nextSocket) : Owned s' := by
  refine h.move (.session id) (.task τ) hnext fun o k ho => ?_
  cases o <;> simp only [socketOf, hsess, hres, get_remove, hm.after] at ho ⊢ <;> grind

end

theorem get_lease {peer : Nat} {r : Reservation} (h : (s.leaseReservation session).reservations.get peer = some r) :
    session.peerId ≠ some peer ∧ s.reservations.get peer = some r ∨
      session.peerId = some peer ∧ r.udpSocket = session.udpSocket ∧ r.leasedTo = peer := by
  unfold leaseReservation at h
  cases hp : session.peerId with
  | none =>
    rw [hp] at h
    exact .inl ⟨nofun, h⟩
  | some p =>
    simp only [hp, get_insert] at h
    split at h
    · next heq =>
      cases h
      exact .inr ⟨congrArg some heq.symm, rfl, heq.symm⟩
    next hne =>
    refine .inl ⟨fun heq => hne (some.inj heq).symm, ?_⟩
    split at h
    · cases hl : (s.reservations.entries.argmin (·.2.releasedAt)).map Prod.fst with
      | none => simpa [hl] using h
      | some k =>
        simp only [hl, Option.elim] at h
        exact (get_of_get_remove h).2
    · exact h

section
variable (h : Owned s)
include h

theorem Owned.lease (hm : Moves s s' τ (some (.lease session next)) v)
    (hv : v.bind Task.socket = none) (hsess : s'.sessions = s.sessions)
    (hres : s'.reservations = (s.leaseReservation session).reservations) (hnext : s'.nextSocket = s.nextSocket) : Owned s' := by
  refine h.move (.task τ) (session.peerId.elim (.task τ) .reservation) hnext fun o k ho => ?_
  cases o with
  | session id | task i =>
    simp only [socketOf, hsess, hm.after, hm.before] at ho ⊢
    grind
  | reservation peer =>
    rw [socketOf, hres] at ho
    obtain ⟨r, hr, rfl⟩ := map_eq_some_iff.mp ho
    rcases get_lease hr with ⟨-, hr⟩ | ⟨hp, hk, -⟩
    · exact .inl ⟨nofun, map_eq_some_iff.mpr ⟨r, hr, rfl⟩⟩
    · exact .inr ⟨by rw [hp]; rfl, by rw [socketOf, hm.before, hk]; rfl⟩

theorem Owned.advance (ht : s.tasks τ = some t) (hs : s.advance τ choice t = some s') : Owned s' := by
  cases t with
  | reclaim request =>
    simp only [advance] at hs
    (repeat' split at hs) <;> cases hs
    · exact h.task ⟨ht, fun _ => rfl⟩ nofun rfl (fun _ _ hr => hr) rfl
    · next hr => exact h.reclaim ⟨ht, fun _ => rfl⟩ rfl (filter_eq_some_iff.mp hr).1 rfl rfl rfl
    · exact h.task ⟨ht, fun _ => rfl⟩ nofun rfl (fun _ _ hr => (get_of_get_remove hr).2) rfl
  | _ =>
    simp only [advance, closed] at hs
    (repeat' split at hs) <;> cases hs <;> first
      | exact h.task ⟨ht, fun _ => rfl⟩ (fun _ hk => hk) rfl (fun _ _ hr => hr) rfl
      | exact h.bindSocket ⟨ht, fun _ => rfl⟩ rfl rfl rfl rfl
      | exact h.insertSession ⟨ht, fun _ => rfl⟩ rfl rfl rfl rfl rfl
      | exact h.lease ⟨ht, fun _ => rfl⟩ rfl rfl rfl rfl
      | exact h.remove ⟨ht, fun _ => rfl⟩ rfl (by assumption) rfl rfl rfl

end

/-! ### Whom a reservation goes to -/

/-- Reservations are kept under the identity they were leased to, and handed to no other. -/
structure Leased (s : RelayServer) : Prop where
  leased : ∀ peer r, s.reservations.get peer = some r → r.leasedTo = peer
  handed : ∀ τ request id k peer, s.tasks τ = some (.insertSession request id k (some peer)) → request.peer = some peer
  bound : s.reservations.len ≤ s.maxReservations

theorem len_lease (hpos : 0 < s.maxReservations) (hbd : s.reservations.len ≤ s.maxReservations) (session : Session) :
    (s.leaseReservation session).reservations.len ≤ s.maxReservations := by
  unfold leaseReservation
  cases session.peerId with
  | none => exact hbd
  | some peer =>
    dsimp only
    split
    · next hfull =>
      cases harg : s.reservations.entries.argmin (·.2.releasedAt) with
      | none =>
        have hnil := List.argmin_eq_none.mp harg
        have hzero : s.reservations.len = 0 := by simp [BTreeMap.len, hnil]
        omega
      | some entry =>
        have hlt := len_remove_lt (List.argmin_mem (by rw [harg]; rfl) : entry ∈ s.reservations.entries)
        exact len_insert_le.trans (hlt.trans_le hbd)
    next hroom =>
    cases hget : s.reservations.get peer with
    | none =>
      have hlt : s.reservations.len < s.maxReservations := by simpa [hget] using hroom
      exact len_insert_le.trans hlt
    | some r => exact (len_insert_of_get hget).trans_le hbd

section
variable (h : Leased s)
include h

theorem Leased.keep (hm : Moves s s' τ o v)
    (hv : ∀ request id k peer, v = some (.insertSession request id k (some peer)) → request.peer = some peer)
    (hleased : ∀ peer r, s'.reservations.get peer = some r → r.leasedTo = peer)
    (hbound : s'.reservations.len ≤ s'.maxReservations) : Leased s' where
  leased := hleased
  handed i request id k peer hi := by
    by_cases hiτ : i = τ
    · exact hv request id k peer (by rw [← hi, hiτ, hm.self])
    · exact h.handed i request id k peer (hm.other hiτ ▸ hi)
  bound := hbound

theorem Leased.advance (hpos : 0 < s.maxReservations) (ht : s.tasks τ = some t) (hs : s.advance τ choice t = some s') :
    Leased s' := by
  cases t with
  | reclaim request =>
    simp only [advance] at hs
    (repeat' split at hs) <;> cases hs
    · exact h.keep ⟨ht, fun _ => rfl⟩ nofun h.leased h.bound
    all_goals
      refine h.keep ⟨ht, fun _ => rfl⟩ ?_ (fun _ _ hr => h.leased _ _ (get_of_get_remove hr).2) ((len_remove_le _).trans h.bound)
      rintro _ _ _ _ ⟨⟩
    next hpeer _ r hr => rw [hpeer, h.leased _ r (filter_eq_some_iff.mp hr).1]
  | lease session next =>
    cases hs
    refine h.keep ⟨ht, fun _ => rfl⟩ nofun (fun peer r hr => ?_) (len_lease hpos h.bound session)
    rcases get_lease hr with ⟨-, hr⟩ | ⟨-, -, hr⟩
    · exact h.leased peer r hr
    · exact hr
  | _ =>
    simp only [advance, closed] at hs
    (repeat' split at hs) <;> cases hs <;> exact h.keep ⟨ht, fun _ => rfl⟩ (by rintro _ _ _ _ ⟨⟩) h.leased h.bound

end

/-- One loop at most runs for a session, and it uses the socket of the session, or of a close that has still to wait for
    it; a socket that is reserved is used by none. Reservations go to the identity they were leased to, and there are not
    too many. -/
structure PortsExclusive (s : RelayServer) : Prop where
  oneLoop : ∀ τ τ' id socket socket', s.tasks τ = some (.running id socket) →
    s.tasks τ' = some (.running id socket') → τ = τ'
  used : ∀ τ id socket, s.tasks τ = some (.running id socket) → Uses s τ id socket
  released : ∀ peer r τ id, s.reservations.get peer = some r → s.tasks τ ≠ some (.running id r.udpSocket)
  handed : ∀ τ request id socket peer, s.tasks τ = some (.insertSession request id socket (some peer)) →
    request.peer = some peer
  bound : s.reservations.len ≤ s.maxReservations

structure Inv (s : RelayServer) : Prop where
  numbered : Numbered s
  looped : Looped s
  owned : Owned s
  leased : Leased s

theorem Inv.portsExclusive (h : Inv s) : PortsExclusive s where
  oneLoop τ τ' id socket socket' hτ hτ' := by
    have hfwd := h.looped.registered τ id (by rw [hτ]; rfl)
    exact some.inj (hfwd.symm.trans (h.looped.registered τ' id (by rw [hτ']; rfl)))
  used := h.looped.used
  released peer r τ id hr hτ := by
    have hres : s.socketOf (.reservation peer) = some r.udpSocket := by rw [socketOf, hr, map_some]
    rcases h.looped.used τ id _ hτ with ⟨session, hget, hsock⟩ | ⟨τ', session, next, hsock, hclose⟩
    · exact nomatch h.owned.exclusive (.reservation peer) (.session id) _ hres (by rw [socketOf, hget, ← hsock]; rfl)
    refine nomatch h.owned.exclusive (.reservation peer) (.task τ') _ hres ?_
    rcases hclose with hclose | hclose <;> rw [socketOf, hclose, ← hsock] <;> rfl
  handed := h.leased.handed
  bound := h.leased.bound

theorem inv_new (maxSessions : UInt64) (maxReservations : Nat) : Inv (.new maxSessions maxReservations) where
  numbered := by constructor <;> simp [new]
  looped := by constructor <;> simp [new]
  owned := by constructor <;> intro o <;> cases o <;> simp [new, socketOf]
  leased := ⟨by simp [new], by simp [new], zero_le⟩

theorem Inv.spawn (h : Inv s) (hreg : t.registers = none) (hpending : t.pending = none) (hsocket : t.socket = none) :
    Inv (s.spawn t) := by
  have hm : Moves s (s.spawn t) s.nextTask none (some t) := ⟨(h.looped.fresh _ le_rfl).1, fun _ => rfl⟩
  refine ⟨h.numbered.keep hm hpending (fun _ hget => hget) rfl, h.looped.spawn hreg,
    h.owned.task hm (fun k hk => ?_) rfl (fun _ _ hr => hr) rfl,
    h.leased.keep hm (fun _ _ _ _ hv => ?_) h.leased.leased h.leased.bound⟩
  · cases hsocket.symm.trans hk
  · cases hv
    cases hpending

theorem get_expire (stale : List Nat) {peer : Nat} {r : Reservation}
    (h : (stale.foldl BTreeMap.remove m).get peer = some r) : m.get peer = some r := by
  induction stale generalizing m with
  | nil => exact h
  | cons k stale ih => exact (get_of_get_remove (ih h)).2

theorem len_expire (stale : List Nat) (m : BTreeMap Nat Reservation) : (stale.foldl BTreeMap.remove m).len ≤ m.len := by
  induction stale generalizing m with
  | nil => exact le_rfl
  | cons k stale ih => exact (ih _).trans (len_remove_le k)

theorem Inv.step (h : Inv s) (hpos : 0 < s.maxReservations) {e : Event} (hs : s.step e = some s') : Inv s' := by
  cases e with
  | connect request =>
    cases hs
    cases request.peer with
    | none | some peer => exact h.spawn rfl rfl rfl
  | close id | forward id =>
    cases hs
    exact h.spawn rfl rfl rfl
  | advance task choice =>
    obtain ⟨t, ht, hs⟩ := bind_eq_some_iff.mp hs
    exact ⟨h.numbered.advance ht hs, h.looped.advance h.numbered ht hs, h.owned.advance ht hs, h.leased.advance hpos ht hs⟩
  | expire stale =>
    cases hs
    refine ⟨{ h.numbered with }, { h.looped with }, h.owned.keep (fun o k ho => ?_) rfl,
      ⟨fun peer r hr => h.leased.leased peer r (get_expire stale hr), h.leased.handed, (len_expire stale _).trans h.leased.bound⟩⟩
    cases o with
    | reservation peer =>
      obtain ⟨r, hr, rfl⟩ := map_eq_some_iff.mp ho
      exact map_eq_some_iff.mpr ⟨r, get_expire stale hr, rfl⟩
    | _ => exact ho

theorem step_maxReservations {e : Event} (hs : s.step e = some s') : s'.maxReservations = s.maxReservations := by
  cases e with
  | advance task choice =>
    obtain ⟨t, -, hs⟩ := bind_eq_some_iff.mp hs
    cases t <;> simp only [advance, closed] at hs <;> (repeat' split at hs) <;> cases hs <;> rfl
  | _ =>
    cases hs
    rfl

/-- Whatever the interleaving, ports are used by one at a time, if there may be reservations at all. -/
theorem ports_exclusive {maxSessions : UInt64} {maxReservations : Nat} (hpos : 0 < maxReservations)
    (h : Reaches step (fun _ _ => True) (· = .new maxSessions maxReservations) s) : PortsExclusive s := by
  refine (h.invariant (P := fun s => Inv s ∧ s.maxReservations = maxReservations) ?_ ?_).1.portsExclusive
  · rintro _ rfl
    exact ⟨inv_new _ _, rfl⟩
  · rintro s e s' ⟨hinv, hmax⟩ - hs
    exact ⟨hinv.step (hmax.symm ▸ hpos) hs, (step_maxReservations hs).trans hmax⟩

def returning : Request := ⟨⟨true, 3221225985, 9000⟩, some 7⟩

/-- A request is served, a loop starts, and the session is closed once the loop has stopped. -/
def served : List Event :=
  [.connect returning] ++ List.replicate 8 (.advance 0 true) ++
    [.forward 1, .advance 1 true, .advance 1 true, .close 1, .advance 2 true, .advance 2 true, .advance 1 true,
      .advance 1 true, .advance 2 true, .advance 2 true, .advance 2 true, .advance 2 true]

/-- The socket of the session is kept for the client. -/
theorem ports_exclusive_served : ∃ s, runFrom step (fun _ _ => True) (.new 1 1) served = some s ∧
    s.reservations.get 7 = some ⟨0, 0, 7⟩ ∧ PortsExclusive s :=
  ⟨_, rfl, by decide +kernel, @ports_exclusive _ 1 1 Nat.one_pos (.runFrom served (.start rfl) rfl)⟩

/-- A server that may keep no reservations keeps one. -/
theorem reservation_over_limit : ∃ s, runFrom step (fun _ _ => True) (.new 1 0) served = some s ∧
    s.maxReservations = 0 ∧ s.reservations.len = 1 ∧ ¬ PortsExclusive s :=
  ⟨_, rfl, rfl, by decide +kernel, fun h => absurd h.bound (by decide +kernel)⟩

end RelayServer

/-! Which sessions a relay server admits. The lock of an identity is held from the handover on, so two sessions never have
    one identity. The other checks are for nothing if another request passes them at the same time, or if a session is
    closed before its client is entered. -/

open List

namespace Task

/-- The request was found to have room. -/
def admitted : Task → Bool
  | .duplicate .. | .reclaim .. | .bindSocket .. | .insertSession .. | .insertClient .. => true
  | _ => false

/-- The client whose entry will be removed. -/
def closes : Task → Option SocketAddr
  | .readForwarding _ session _ | .awaitLoop session _ _ | .removeClient session _ => some session.clientAddress
  | _ => none

/-- The session is gone, but still counted. -/
def closing : Task → Bool
  | .readForwarding .. | .awaitLoop .. | .removeClient .. | .lease .. | .recordTerminated .. => true
  | _ => false

/-- The session whose client has still to be entered. -/
def entering : Task → Option (Nat × SocketAddr)
  | .insertClient request id => some (id, request.client)
  | _ => none

def checked : Task → Option SocketAddr
  | .reclaim request | .bindSocket request | .insertSession request _ _ _ | .insertClient request _ => some request.client
  | _ => none

/-- The identity whose lock the task holds. -/
def locked : Task → Option Nat
  | .handover _ peer => some peer
  | .capacity request | .duplicate request | .reclaim request | .bindSocket request | .insertSession request _ _ _
  | .insertClient request _ => request.peer
  | .remove _ next | .readForwarding _ _ next | .awaitLoop _ _ next | .removeClient _ next | .lease _ next
  | .recordTerminated next => next.bind Request.peer
  | _ => none

/-- The identity that has no session any more, but for the one given. -/
def cleared : Task → Option (Nat × Option Nat)
  | .capacity request | .duplicate request | .reclaim request | .bindSocket request | .insertSession request _ _ _ =>
    request.peer.map fun peer => (peer, none)
  | .remove id next => (next.bind Request.peer).map fun peer => (peer, some id)
  | .readForwarding _ _ next | .awaitLoop _ _ next | .removeClient _ next | .lease _ next | .recordTerminated next =>
    (next.bind Request.peer).map fun peer => (peer, none)
  | _ => none

def names : Task → Option (Request × Nat)
  | .lock request peer | .handover request peer => some (request, peer)
  | _ => none

theorem cleared_locked {t : Task} {peer : Nat} {only : Option Nat} (h : t.cleared = some (peer, only)) :
    t.locked = some peer := by
  cases t <;> simp only [cleared, locked, map_eq_some_iff, Prod.mk.injEq, reduceCtorEq] at h ⊢ <;>
    obtain ⟨peer, hpeer, rfl, -⟩ := h <;> exact hpeer

theorem of_not_admitted {t : Task} (h : t.admitted = false) : t.checked = none ∧ t.pending = none ∧ t.entering = none := by
  cases t <;> first | exact ⟨rfl, rfl, rfl⟩ | cases h

theorem admitted_of_entering {o : Option Task} {x : Nat × SocketAddr} (h : o.bind entering = some x) :
    o.any admitted = true := by
  obtain ⟨t, rfl, ht⟩ := bind_eq_some_iff.mp h
  cases t <;> first | rfl | cases ht

theorem checked_of_entering {o : Option Task} {id : Nat} {a : SocketAddr} (h : o.bind entering = some (id, a)) :
    o.bind checked = some a := by
  obtain ⟨t, rfl, ht⟩ := bind_eq_some_iff.mp h
  cases t <;> cases ht
  rfl

end Task

namespace RelayServer
variable {s s' : RelayServer} {τ i id socket : Nat} {o v : Option Task} {t : Task} {choice : Bool} {session : Session}
  {request : Request} {next : Option Request} {leasedTo : Option Nat}

/-- A request goes past the check for room only when no other is on its way, and a session is closed only once its client
    is entered. -/
def Careful (s : RelayServer) : Event → Prop
  | .advance task _ => match s.tasks task with
    | some (.capacity _) => ∀ i < s.nextTask, (s.tasks i).any Task.admitted = false
    | some (.remove id _) => ∀ i < s.nextTask, ((s.tasks i).bind Task.entering).all (·.1 ≠ id) = true
    | _ => True
  | _ => True

instance (s : RelayServer) : ∀ e, Decidable (Careful s e)
  | .advance task choice => by
    unfold Careful
    dsimp only
    split <;> infer_instance
  | .connect _ | .close _ | .forward _ | .expire _ => isTrue trivial

/-! ### The entries of clients -/

structure Indexed (s : RelayServer) : Prop where
  numbered : ∀ a id, s.clientToSession a = some id → id < s.nextSessionId
  mapped : ∀ a id, s.clientToSession a = some id → (∀ i, (s.tasks i).bind Task.closes ≠ some a) →
    (s.sessions.get id).map (·.clientAddress) = some a
  live : ∀ id a, (s.sessions.get id).map (·.clientAddress) = some a → (∀ i, (s.tasks i).bind Task.entering ≠ some (id, a)) →
    s.clientToSession a = some id
  closes : ∀ i a, (s.tasks i).bind Task.closes = some a → ∃ id, s.clientToSession a = some id ∧ s.sessions.get id = none
  closesOnce : ∀ i j a, (s.tasks i).bind Task.closes = some a → (s.tasks j).bind Task.closes = some a → i = j
  admittedOnce : ∀ i j, (s.tasks i).any Task.admitted = true → (s.tasks j).any Task.admitted = true → i = j
  checked : ∀ i a, (s.tasks i).bind Task.checked = some a → s.clientToSession a = none
  pending : ∀ i id, (s.tasks i).bind Task.pending = some id → ∀ a, s.clientToSession a ≠ some id
  entering : ∀ i id a, (s.tasks i).bind Task.entering = some (id, a) → (s.sessions.get id).map (·.clientAddress) = some a

section
variable (h : Indexed s)
include h

theorem Indexed.alone (ht : s.tasks τ = some t) (hadm : t.admitted) (hi : i ≠ τ) :
    (s.tasks i).any Task.admitted = false ∧ (s.tasks i).bind Task.checked = none ∧
      (s.tasks i).bind Task.pending = none ∧ (s.tasks i).bind Task.entering = none := by
  have hfalse : (s.tasks i).any Task.admitted = false :=
    Bool.not_eq_true _ ▸ fun htrue => hi (h.admittedOnce i τ htrue (by rw [ht]; exact hadm))
  refine ⟨hfalse, ?_⟩
  cases hx : s.tasks i with
  | none => exact ⟨rfl, rfl, rfl⟩
  | some x => exact Task.of_not_admitted (by rwa [hx] at hfalse)

/-- No entry, session or close changes; the task may pass a check. -/
theorem Indexed.keep (hm : Moves s s' τ o v) (hcloses : v.bind Task.closes = o.bind Task.closes)
    (hent : v.bind Task.entering = o.bind Task.entering)
    (hadm : v.any Task.admitted → ∀ i, i ≠ τ → (s.tasks i).any Task.admitted = false)
    (hchecked : ∀ a, v.bind Task.checked = some a → s.clientToSession a = none)
    (hpend : ∀ id, v.bind Task.pending = some id → ∀ a, s.clientToSession a ≠ some id)
    (hsess : s'.sessions = s.sessions) (hclients : s'.clientToSession = s.clientToSession)
    (hnext : s.nextSessionId ≤ s'.nextSessionId) : Indexed s' := by
  have hcloses' := hm.bind_eq hcloses
  have hent' := hm.bind_eq hent
  constructor <;> try simp only [hsess, hclients, hcloses', hent']
  case numbered => exact fun a id hid => (h.numbered a id hid).trans_le hnext
  case mapped => exact h.mapped
  case live => exact h.live
  case closes => exact h.closes
  case closesOnce => exact h.closesOnce
  case admittedOnce => exact hm.any_once h.admittedOnce hadm
  case checked =>
    intro i a hi
    rcases hm.bind_cases hi with ⟨-, hv⟩ | ⟨-, hi⟩
    · exact hchecked a hv
    · exact h.checked i a hi
  case pending =>
    intro i id hi
    rcases hm.bind_cases hi with ⟨-, hv⟩ | ⟨-, hi⟩
    · exact hpend id hv
    · exact h.pending i id hi
  case entering => exact h.entering

section
variable (hnext : s'.nextSessionId = s.nextSessionId)
include hnext

theorem Indexed.insertSession
    (hm : Moves s s' τ (some (.insertSession request id socket leasedTo)) (some (.insertClient request id)))
    (hsess : s'.sessions = s.sessions.insert id session) (haddr : session.clientAddress = request.client)
    (hclients : s'.clientToSession = s.clientToSession) : Indexed s' := by
  have hfree := h.pending τ id (by rw [hm.before]; rfl)
  have halone := fun i => h.alone (i := i) hm.before rfl
  have hcloses := hm.bind_eq (f := Task.closes) rfl
  constructor <;> try simp only [hsess, hclients, hnext, hcloses, get_insert]
  case live =>
    intro id' a hid hno
    have := hno τ
    have := h.live id' a
    grind [hm.self, hm.before, Task.entering]
  case admittedOnce => exact hm.any_once h.admittedOnce fun _ i hi => (halone i hi).1
  case checked => exact fun i a hi => h.checked i a (hm.bind_back (fun _ hv => hv) hi)
  case pending => exact fun i id' hi => h.pending i id' (hm.bind_old hi rfl).2
  case entering =>
    intro i id' a hi
    rcases hm.bind_cases hi with ⟨-, hv⟩ | ⟨hiτ, hi⟩ <;> grind [Task.entering]
  all_goals grind [Indexed]

theorem Indexed.insertClient (hn : Numbered s) (hm : Moves s s' τ (some (.insertClient request id)) none)
    (hsess : s'.sessions = s.sessions)
    (hclients : s'.clientToSession = (s.setClient request.client (some id)).clientToSession) : Indexed s' := by
  have hlive := h.entering τ id request.client (by rw [hm.before]; rfl)
  have hnone := h.checked τ request.client (by rw [hm.before]; rfl)
  have hknown := hn.numbered id
  have halone := fun i => h.alone (i := i) hm.before rfl
  have hcloses := hm.bind_eq (f := Task.closes) rfl
  constructor <;> try simp only [hsess, hclients, hnext, hcloses, setClient]
  case closesOnce => exact h.closesOnce
  case admittedOnce => exact hm.any_once h.admittedOnce nofun
  case live =>
    intro id' a hid _
    -- Nobody else is about to enter a client.
    have := h.live id' a hid
    grind [hm.before, Task.entering]
  case checked | pending | entering =>
    intro i
    by_cases hi : i = τ
    · simp [hi, hm.self]
    · simp [hm.other hi, halone i hi]
  all_goals grind [Indexed]

theorem Indexed.remove (hm : Moves s s' τ (some (.remove id next)) (some (.readForwarding id session next)))
    (hses : s.sessions.get id = some session) (hentered : ∀ i a, (s.tasks i).bind Task.entering ≠ some (id, a))
    (hsess : s'.sessions = s.sessions.remove id) (hclients : s'.clientToSession = s.clientToSession) : Indexed s' := by
  have hent := hm.bind_eq (f := Task.entering) rfl
  have hown : s.clientToSession session.clientAddress = some id :=
    h.live id session.clientAddress (by rw [hses]; rfl) fun i => hentered i _
  have hcloses : ∀ i a, (s'.tasks i).bind Task.closes = some a ↔
      i = τ ∧ a = session.clientAddress ∨ (s.tasks i).bind Task.closes = some a := fun i a => by
    by_cases hi : i = τ
    · simp [hi, hm.before, hm.self, Task.closes, eq_comm]
    · simp [hi, hm.other hi]
  constructor <;> try simp only [hsess, hclients, hnext, hent, hcloses, get_remove, ne_eq]
  case admittedOnce => exact hm.any_once h.admittedOnce nofun
  case checked => exact fun i a hi => h.checked i a (hm.bind_old hi rfl).2
  case pending => exact fun i id' hi => h.pending i id' (hm.bind_old hi rfl).2
  all_goals grind [Indexed]

theorem Indexed.removeClient (hm : Moves s s' τ (some (.removeClient session next)) (some (.lease session next)))
    (hsess : s'.sessions = s.sessions)
    (hclients : s'.clientToSession = (s.setClient session.clientAddress none).clientToSession) : Indexed s' := by
  have hown : (s.tasks τ).bind Task.closes = some session.clientAddress := by rw [hm.before]; rfl
  have hent := hm.bind_eq (f := Task.entering) rfl
  have hcloses : ∀ i a, (s'.tasks i).bind Task.closes = some a ↔ i ≠ τ ∧ (s.tasks i).bind Task.closes = some a := fun i a =>
    ⟨fun hi => hm.bind_old hi rfl, fun hi => hm.other hi.1 ▸ hi.2⟩
  constructor <;> try simp only [hsess, hclients, hnext, hent, hcloses, setClient, ne_eq]
  case admittedOnce => exact hm.any_once h.admittedOnce nofun
  case checked => exact fun i a hi => by rw [h.checked i a (hm.bind_old hi rfl).2, ite_self]
  case pending => exact fun i id hi a hid => h.pending i id (hm.bind_old hi rfl).2 a (ite_none_left_eq_some.mp hid).2
  all_goals grind [Indexed]

end

theorem Indexed.advance (hn : Numbered s) (hl : Looped s) (hcare : Careful s (.advance τ choice)) (ht : s.tasks τ = some t)
    (hs : s.advance τ choice t = some s') : Indexed s' := by
  have hchecked : ∀ a, t.checked = some a → s.clientToSession a = none := fun a ha => h.checked τ a (by rw [ht]; exact ha)
  have hfresh : ∀ id, some s.nextSessionId = some id → ∀ a, s.clientToSession a ≠ some id := fun id hid a ha =>
    absurd (h.numbered a id ha) (not_lt.mpr (some.inj hid).le)
  simp only [Careful, ht] at hcare
  cases t with
  | capacity request =>
    have hnone : ∀ i, (s.tasks i).any Task.admitted = false := fun i => by
      rcases lt_or_ge i s.nextTask with hi | hi
      · exact hcare i hi
      · rw [(hl.fresh i hi).1]
        rfl
    simp only [advance] at hs
    split at hs <;> cases hs <;>
      exact h.keep ⟨ht, fun _ => rfl⟩ rfl rfl (fun _ i _ => hnone i) nofun nofun rfl rfl le_rfl
  | duplicate request =>
    simp only [advance] at hs
    split at hs <;> cases hs
    · exact h.keep (v := none) ⟨ht, fun _ => rfl⟩ rfl rfl nofun nofun nofun rfl rfl le_rfl
    · next hpass =>
      have hfree : s.clientToSession request.client = none := by simp_all
      exact h.keep ⟨ht, fun _ => rfl⟩ rfl rfl (fun _ _ hi => (h.alone ht rfl hi).1) (by rintro _ ⟨⟩; exact hfree) nofun
        rfl rfl le_rfl
  | reclaim request | bindSocket request =>
    simp only [advance] at hs
    (repeat' split at hs) <;> cases hs <;> first
      | exact h.keep (v := none) ⟨ht, fun _ => rfl⟩ rfl rfl nofun nofun nofun rfl rfl le_rfl
      | exact h.keep ⟨ht, fun _ => rfl⟩ rfl rfl (fun _ _ hi => (h.alone ht rfl hi).1) hchecked nofun rfl rfl le_rfl
      | exact h.keep ⟨ht, fun _ => rfl⟩ rfl rfl (fun _ _ hi => (h.alone ht rfl hi).1) hchecked hfresh rfl rfl (Nat.le_succ _)
  | insertSession request id socket leasedTo =>
    cases hs
    exact h.insertSession rfl ⟨ht, fun _ => rfl⟩ rfl rfl rfl
  | insertClient request id =>
    cases hs
    exact h.insertClient rfl hn ⟨ht, fun _ => rfl⟩ rfl rfl
  | remove id next =>
    have hentered : ∀ i a, (s.tasks i).bind Task.entering ≠ some (id, a) := fun i a hi => by
      rcases lt_or_ge i s.nextTask with hlt | hle
      · simpa [hi] using hcare i hlt
      · rw [(hl.fresh i hle).1] at hi
        cases hi
    simp only [advance, closed] at hs
    (repeat' split at hs) <;> cases hs
    · next session hses => exact h.remove rfl ⟨ht, fun _ => rfl⟩ hses hentered rfl rfl
    all_goals exact h.keep ⟨ht, fun _ => rfl⟩ rfl rfl nofun nofun nofun rfl rfl le_rfl
  | removeClient session next =>
    cases hs
    exact h.removeClient rfl ⟨ht, fun _ => rfl⟩ rfl rfl
  | _ =>
    simp only [advance, closed] at hs
    (repeat' split at hs) <;> cases hs <;>
      exact h.keep ⟨ht, fun _ => rfl⟩ rfl rfl nofun nofun nofun rfl rfl le_rfl

end

/-! ### One session for each identity -/

structure Identified (s : RelayServer) : Prop where
  identity : ∀ id id' session session' peer, s.sessions.get id = some session → s.sessions.get id' = some session' →
    session.peerId = some peer → session'.peerId = some peer → id = id'
  locked : ∀ i peer, (s.tasks i).bind Task.locked = some peer → s.peerLocks peer = true
  lockedOnce : ∀ i j peer, (s.tasks i).bind Task.locked = some peer → (s.tasks j).bind Task.locked = some peer → i = j
  cleared : ∀ i peer only, (s.tasks i).bind Task.cleared = some (peer, only) →
    ∀ id session, s.sessions.get id = some session → session.peerId = some peer → only = some id
  named : ∀ i request peer, (s.tasks i).bind Task.names = some (request, peer) → request.peer = some peer

section
variable (h : Identified s)
include h

/-- No session is new, and no lock is taken, or let go by another task. -/
theorem Identified.move (hm : Moves s s' τ o v) (hlocked : ∀ peer, v.bind Task.locked = some peer → o.bind Task.locked = some peer)
    (hclr : ∀ peer only, v.bind Task.cleared = some (peer, only) → ∀ id session, s'.sessions.get id = some session →
      session.peerId = some peer → only = some id)
    (hnamed : ∀ request peer, v.bind Task.names = some (request, peer) → request.peer = some peer)
    (hsess : ∀ id session, s'.sessions.get id = some session → s.sessions.get id = some session)
    (hlocks : ∀ i peer, (s'.tasks i).bind Task.locked = some peer → s.peerLocks peer = true → s'.peerLocks peer = true) :
    Identified s' where
  identity id id' session session' peer hid hid' := h.identity id id' session session' peer (hsess _ _ hid) (hsess _ _ hid')
  locked i peer hi := hlocks i peer hi (h.locked i peer (hm.bind_back hlocked hi))
  lockedOnce i j peer hi hj := h.lockedOnce i j peer (hm.bind_back hlocked hi) (hm.bind_back hlocked hj)
  cleared i peer only hi := by
    rcases hm.bind_cases hi with ⟨-, hv⟩ | ⟨-, hi⟩
    · exact hclr peer only hv
    · exact fun id session hget => h.cleared i peer only hi id session (hsess id session hget)
  named i request peer hi := by
    rcases hm.bind_cases hi with ⟨-, hv⟩ | ⟨-, hi⟩
    · exact hnamed request peer hv
    · exact h.named i request peer hi

theorem Identified.keep (hm : Moves s s' τ (some t) v) (hlocked : v.bind Task.locked = t.locked)
    (hclr : ∀ x, v.bind Task.cleared = some x → t.cleared = some x) (hnamed : v.bind Task.names = none)
    (hsess : s'.sessions = s.sessions) (hlocks : s'.peerLocks = s.peerLocks) : Identified s' := by
  refine h.move hm (fun _ hv => hlocked.symm.trans hv) (fun peer only hv id session hget => ?_)
    (fun _ _ hv => nomatch hnamed.symm.trans hv) (fun _ _ hget => hsess ▸ hget) fun _ _ _ hl => hlocks ▸ hl
  exact h.cleared τ peer only (by rw [hm.before]; exact hclr _ hv) id session (hsess ▸ hget)

/-- The request is answered, and its lock is let go. -/
theorem Identified.answer (hm : Moves s s' τ (some t) none) (hlocked : t.locked = request.peer)
    (hsess : s'.sessions = s.sessions) (hlocks : s'.peerLocks = (s.setLock request.peer false).peerLocks) : Identified s' := by
  refine h.move hm nofun nofun nofun (fun _ _ hget => hsess ▸ hget) fun i peer hi hl => ?_
  obtain ⟨hiτ, hi⟩ := hm.bind_old hi rfl
  rw [hlocks]
  refine (if_neg fun heq => ?_).trans hl
  exact hiτ (h.lockedOnce i τ peer hi (by rw [hm.before]; exact hlocked.trans heq.symm))

theorem Identified.lock {peer : Nat} (ht : s.tasks τ = some (.lock request peer)) (hfree : s.peerLocks peer = false) :
    Identified ((s.setLock (some peer) true).setTask τ (some (.handover request peer))) := by
  have hm : Moves s ((s.setLock (some peer) true).setTask τ _) τ _ (some (.handover request peer)) := ⟨ht, fun _ => rfl⟩
  refine ⟨h.identity, fun i p hi => ?_, hm.bind_once h.lockedOnce fun i p hp _ hi => ?_,
    fun i p only hi => h.cleared i p only (hm.bind_old hi rfl).2, fun i r p hi => h.named i r p (hm.bind_back (fun _ => id) hi)⟩
  · show (if some p = some peer then true else s.peerLocks p) = true
    rcases hm.bind_cases hi with ⟨-, hp⟩ | ⟨-, hi⟩
    · cases hp
      rw [if_pos rfl]
    · rw [h.locked i p hi, ite_self]
  · cases hp
    cases hfree.symm.trans (h.locked i peer hi)

theorem Identified.insertSession
    (hm : Moves s s' τ (some (.insertSession request id socket leasedTo)) (some (.insertClient request id)))
    (hsess : s'.sessions = s.sessions.insert id session) (hpeer : session.peerId = request.peer)
    (hlocks : s'.peerLocks = s.peerLocks) : Identified s' := by
  have hfree : ∀ {id' session' peer}, s.sessions.get id' = some session' → session'.peerId = some peer →
      session.peerId ≠ some peer := fun hget hpeer' hreq => by
    cases h.cleared τ _ none (by simp [hm.before, Task.cleared, ← hpeer, hreq]) _ _ hget hpeer'
  have hlocked := hm.bind_eq (f := Task.locked) rfl
  constructor <;> try simp only [hsess, hlocks, hlocked, get_insert]
  case identity => grind [Identified]
  case locked => exact h.locked
  case lockedOnce => exact h.lockedOnce
  case cleared =>
    intro i peer only hi id' session' hget hpeer'
    obtain ⟨hiτ, hi⟩ := hm.bind_old hi rfl
    obtain ⟨x, hx, hclr⟩ := bind_eq_some_iff.mp hi
    -- The lock of the identity is held by this task.
    have hne : session.peerId ≠ some peer := fun hp => hiτ (h.lockedOnce i τ peer (by rw [hx]; exact Task.cleared_locked hclr)
      (by rw [hm.before]; exact hpeer.symm.trans hp))
    have := h.cleared i peer only hi id' session'
    grind
  case named => exact fun i r p hi => h.named i r p (hm.bind_old hi rfl).2

theorem Identified.remove (ht : s.tasks τ = some (.remove id next))
    (hs : s.advance τ choice (.remove id next) = some s') : Identified s' := by
  have honly : ∀ {peer id' session}, next.bind Request.peer = some peer → s.sessions.get id' = some session →
      session.peerId = some peer → id' = id := fun hnext hget hpeer =>
    (some.inj (h.cleared τ _ (some id) (by simp [ht, Task.cleared, hnext]) _ _ hget hpeer)).symm
  simp only [advance, closed] at hs
  (repeat' split at hs) <;> cases hs
  · next session hses =>
    refine h.move ⟨ht, fun _ => rfl⟩ (fun _ hv => hv) (fun peer only hv id' session' hget hpeer => ?_) nofun
      (fun id' session' hget => (get_of_get_remove hget).2) fun _ _ _ hl => hl
    obtain ⟨hne, hget⟩ := get_of_get_remove hget
    exact absurd (honly (Task.cleared_locked (t := .readForwarding id session next) hv) hget hpeer) hne
  · next hnone _ request =>
    refine h.move ⟨ht, fun _ => rfl⟩ (fun _ hv => hv) (fun peer only hv id' session' hget hpeer => ?_) nofun
      (fun _ _ hget => hget) fun _ _ _ hl => hl
    obtain rfl := honly (Task.cleared_locked (t := .capacity request) hv) hget hpeer
    cases hnone.symm.trans hget
  · exact h.keep (v := none) ⟨ht, fun _ => rfl⟩ rfl nofun rfl rfl rfl

theorem Identified.handover {peer : Nat} (ht : s.tasks τ = some (.handover request peer))
    (hs : s.advance τ choice (.handover request peer) = some s') : Identified s' := by
  have hnamed : request.peer = some peer := h.named τ request peer (by rw [ht]; rfl)
  simp only [advance] at hs
  split at hs <;> cases hs
  · next id session hfind =>
    have hget := get_eq_some.mpr (mem_of_find?_eq_some hfind : (id, session) ∈ s.sessions)
    have hpeer : session.peerId = some peer := by simpa using find?_some hfind
    refine h.move ⟨ht, fun _ => rfl⟩ (fun _ hv => hnamed.symm.trans hv) (fun p only hv id' session' hget' hpeer' => ?_) nofun
      (fun _ _ hget => hget) fun _ _ _ hl => hl
    simp only [bind_some, Task.cleared, hnamed, map_some, some.injEq, Prod.mk.injEq] at hv
    obtain ⟨rfl, rfl⟩ := hv
    rw [h.identity id id' session session' peer hget hget' hpeer hpeer']
  · next hfind =>
    refine h.move ⟨ht, fun _ => rfl⟩ (fun _ hv => hnamed.symm.trans hv) (fun p only hv id session hget hpeer => ?_) nofun
      (fun _ _ hget => hget) fun _ _ _ hl => hl
    have hp : p = peer := some.inj ((Task.cleared_locked (t := .capacity request) hv).symm.trans hnamed)
    simpa [hp ▸ hpeer] using find?_eq_none.mp hfind (id, session) (get_eq_some.mp hget)

theorem Identified.advance (ht : s.tasks τ = some t) (hs : s.advance τ choice t = some s') : Identified s' := by
  cases t with
  | lock request peer =>
    simp only [advance] at hs
    split at hs <;> cases hs
    next hfree => exact h.lock ht (Bool.eq_false_iff.mpr hfree)
  | handover request peer => exact h.handover ht hs
  | insertSession request id socket leasedTo =>
    cases hs
    exact h.insertSession ⟨ht, fun _ => rfl⟩ rfl rfl rfl
  | remove id next => exact h.remove ht hs
  | _ =>
    simp only [advance, closed] at hs
    (repeat' split at hs) <;> cases hs <;> first
      | exact h.keep ⟨ht, fun _ => rfl⟩ rfl (fun _ => id) rfl rfl rfl
      | exact h.answer ⟨ht, fun _ => rfl⟩ rfl rfl rfl

end

/-! ### The counter of sessions -/

/-- The counter is that of the sessions and of those that are being closed, but for one that is being entered. -/
structure Counted (s : RelayServer) (closers : Finset Nat) : Prop where
  closing : ∀ i, i ∈ closers ↔ (s.tasks i).any Task.closing = true
  count : (∃ i x, (s.tasks i).bind Task.entering = some x ∧ s.activeSessions.toNat + 1 = s.sessions.len + closers.card) ∨
    (∀ i, (s.tasks i).bind Task.entering = none) ∧ s.activeSessions.toNat = s.sessions.len + closers.card
  room : ∀ i, (s.tasks i).any Task.admitted = true → s.activeSessions.toNat < s.maxSessions.toNat
  bound : s.activeSessions.toNat ≤ s.maxSessions.toNat

variable {closers closers' : Finset Nat}

section
variable (h : Counted s closers)
include h

theorem Counted.len_le : s.sessions.len ≤ s.maxSessions.toNat := by
  have hbound := h.bound
  rcases h.count with ⟨i, x, hent, hlen⟩ | ⟨-, hlen⟩
  · have := h.room i (Task.admitted_of_entering hent)
    omega
  · omega

variable (hmax : s'.maxSessions = s.maxSessions)
include hmax

section
variable (hm : Moves s s' τ o v) (hent : v.bind Task.entering = o.bind Task.entering)
  (hadm : v.any Task.admitted → o.any Task.admitted ∨ s.activeSessions.toNat < s.maxSessions.toNat)
include hm hent hadm

/-- The sessions and those that are closed are as many as before, and nobody enters or leaves. -/
theorem Counted.move (hclosing : ∀ i, i ∈ closers' ↔ (s'.tasks i).any Task.closing)
    (hlen : s'.sessions.len + closers'.card = s.sessions.len + closers.card) (hact : s'.activeSessions = s.activeSessions) :
    Counted s' closers' := by
  have hent' := hm.bind_eq hent
  constructor <;> try simp only [hent', hlen, hact, hmax]
  case closing => exact hclosing
  case count => exact h.count
  case room =>
    intro i hi
    rcases hm.any_cases hi with ⟨-, hv⟩ | ⟨-, hi⟩
    · exact (hadm hv).elim (fun ho => h.room τ (by rw [hm.before, ho])) id
    · exact h.room i hi
  case bound => exact h.bound

theorem Counted.keep (hclosing : v.any Task.closing = o.any Task.closing) (hsess : s'.sessions = s.sessions)
    (hact : s'.activeSessions = s.activeSessions) : Counted s' closers :=
  h.move hmax hm hent hadm (fun i => by rw [hm.any_eq hclosing, h.closing]) (by rw [hsess]) hact

end

theorem Counted.remove (hm : Moves s s' τ (some (.remove id next)) (some (.readForwarding id session next)))
    (hses : s.sessions.get id = some session) (hsess : s'.sessions = s.sessions.remove id)
    (hact : s'.activeSessions = s.activeSessions) : Counted s' (insert τ closers) := by
  have hnot : τ ∉ closers := by simp [h.closing, hm.before, Task.closing]
  refine h.move hmax hm rfl nofun (fun i => ?_) ?_ hact
  · by_cases hi : i = τ
    · simp [hi, hm.self, Task.closing]
    · simp [hi, hm.other hi, h.closing]
  · have := len_remove_of_get hses
    rw [hsess, Finset.card_insert_of_notMem hnot]
    omega

variable (hi : Indexed s)
include hi

theorem Counted.insertSession
    (hm : Moves s s' τ (some (.insertSession request id socket leasedTo)) (some (.insertClient request id)))
    (hnew : s.sessions.get id = none) (hsess : s'.sessions = s.sessions.insert id session)
    (hact : s'.activeSessions = s.activeSessions) : Counted s' closers := by
  have hlen := len_insert_of_none (v := session) hnew
  refine ⟨fun i => by rw [hm.any_eq rfl, h.closing], .inl ⟨τ, _, by rw [hm.self]; rfl, ?_⟩, fun i hadm => ?_, ?_⟩
  · rcases h.count with ⟨i, x, hent, -⟩ | ⟨-, hlen'⟩
    · -- Nobody else was on the way.
      have := hi.alone (i := i) hm.before rfl
      grind [hm.before, Task.entering]
    · rw [hact, hsess, hlen]
      omega
  · rw [hm.any_eq rfl] at hadm
    rw [hact, hmax]
    exact h.room i hadm
  · rw [hact, hmax]
    exact h.bound

theorem Counted.insertClient (hm : Moves s s' τ (some (.insertClient request id)) none) (hsess : s'.sessions = s.sessions)
    (hact : s'.activeSessions = s.activeSessions + 1) : Counted s' closers := by
  have hroom := h.room τ (by rw [hm.before]; rfl)
  have hnat : s'.activeSessions.toNat = s.activeSessions.toNat + 1 := by
    have := s.maxSessions.toNat_lt
    rw [hact, UInt64.toNat_add]
    exact Nat.mod_eq_of_lt (by simp; omega)
  refine ⟨fun i => by rw [hm.any_eq rfl, h.closing], .inr ⟨fun i => ?_, ?_⟩, fun i hadm => ?_, by rw [hnat, hmax]; exact hroom⟩
  · by_cases hiτ : i = τ
    · rw [hiτ, hm.self]
      rfl
    · rw [hm.other hiτ, (hi.alone hm.before rfl hiτ).2.2.2]
  · rcases h.count with ⟨-, -, -, hlen⟩ | ⟨hnone, -⟩
    · rw [hnat, hsess, hlen]
    · cases hm.before ▸ hnone τ
  · obtain ⟨hiτ, hadm⟩ := hm.any_old hadm rfl
    cases (hi.alone hm.before rfl hiτ).1.symm.trans hadm

theorem Counted.recordTerminated (hm : Moves s s' τ (some (.recordTerminated next)) v) (hclosing : v.any Task.closing = false)
    (hent : v.bind Task.entering = none) (hadm : v.any Task.admitted = false) (hsess : s'.sessions = s.sessions)
    (hact : s'.activeSessions = s.activeSessions - 1) : Counted s' (closers.erase τ) := by
  have hbound := h.bound
  have hcard := Finset.card_erase_add_one ((h.closing τ).mpr (by rw [hm.before]; rfl))
  have hent' := hm.bind_eq (f := Task.entering) hent
  have hpos : 1 ≤ s.activeSessions.toNat := by
    rcases h.count with ⟨i, x, hx, hlen⟩ | ⟨-, hlen⟩
    · -- One that is being entered is among the sessions.
      obtain ⟨session, hget, -⟩ := map_eq_some_iff.mp (hi.entering i x.1 x.2 hx)
      have := len_remove_of_get hget
      omega
    · omega
  have hnat : s'.activeSessions.toNat + 1 = s.activeSessions.toNat := by
    rw [hact, UInt64.toNat_sub_of_le _ _ (UInt64.le_iff_toNat_le.mpr (by simpa using hpos))]
    exact Nat.sub_add_cancel hpos
  refine ⟨fun i => ?_, ?_, fun i hi => ?_, by rw [hmax]; omega⟩
  · by_cases hiτ : i = τ
    · simp [hiτ, hm.self, hclosing]
    · simp [hiτ, hm.other hiτ, h.closing]
  · simp only [hent', hsess]
    rcases h.count with ⟨i, x, hx, hlen⟩ | ⟨hnone, hlen⟩
    · exact .inl ⟨i, x, hx, by omega⟩
    · exact .inr ⟨hnone, by omega⟩
  · have := h.room i (hm.any_old hi hadm).2
    rw [hmax]
    omega

omit hmax in
theorem Counted.advance (hn : Numbered s) (ht : s.tasks τ = some t) (hs : s.advance τ choice t = some s') :
    ∃ closers', Counted s' closers' := by
  cases t with
  | capacity request =>
    simp only [advance] at hs
    split at hs <;> cases hs
    · exact ⟨_, h.keep (v := none) rfl ⟨ht, fun _ => rfl⟩ rfl nofun rfl rfl rfl⟩
    · next hroom => exact ⟨_, h.keep rfl ⟨ht, fun _ => rfl⟩ rfl (fun _ => .inr (UInt64.not_le.mp hroom)) rfl rfl rfl⟩
  | insertSession request id socket leasedTo =>
    cases hs
    exact ⟨_, h.insertSession rfl hi ⟨ht, fun _ => rfl⟩ (hn.pending τ id (by rw [ht]; rfl)).2 rfl rfl⟩
  | insertClient request id =>
    cases hs
    exact ⟨_, h.insertClient rfl hi ⟨ht, fun _ => rfl⟩ rfl rfl⟩
  | recordTerminated next =>
    simp only [advance, closed] at hs
    split at hs <;> cases hs <;> exact ⟨_, h.recordTerminated rfl hi ⟨ht, fun _ => rfl⟩ rfl rfl rfl rfl rfl⟩
  | _ =>
    simp only [advance, closed] at hs
    (repeat' split at hs) <;> cases hs <;> first
      | exact ⟨_, h.keep rfl ⟨ht, fun _ => rfl⟩ rfl .inl rfl rfl rfl⟩
      | exact ⟨_, h.keep rfl ⟨ht, fun _ => rfl⟩ rfl nofun rfl rfl rfl⟩
      | exact ⟨_, h.remove rfl ⟨ht, fun _ => rfl⟩ (by assumption) rfl rfl⟩

end

/-- Between the two map operations of a request its session is live and has no entry, and between those of a close the
    entry is that of a session that is not live any more; otherwise a client has an entry if and only if its session is
    live. There is room for the sessions, and no two have one identity. -/
structure Admitted (s : RelayServer) : Prop where
  index : ∀ a, (∀ i, (s.tasks i).bind Task.closes ≠ some a ∧ ((s.tasks i).bind Task.entering).map Prod.snd ≠ some a) →
    ∀ id, s.clientToSession a = some id ↔ (s.sessions.get id).map (·.clientAddress) = some a
  entering : ∀ i id a, (s.tasks i).bind Task.entering = some (id, a) →
    (s.sessions.get id).map (·.clientAddress) = some a ∧ s.clientToSession a = none
  closing : ∀ i a, (s.tasks i).bind Task.closes = some a → ∃ id, s.clientToSession a = some id ∧ s.sessions.get id = none
  room : s.sessions.len ≤ s.maxSessions.toNat
  identity : ∀ id id' session session' peer, s.sessions.get id = some session → s.sessions.get id' = some session' →
    session.peerId = some peer → session'.peerId = some peer → id = id'

structure Registered (s : RelayServer) : Prop where
  numbered : Numbered s
  looped : Looped s
  indexed : Indexed s
  identified : Identified s
  counted : ∃ closers, Counted s closers

theorem Registered.admitted (h : Registered s) : Admitted s where
  index a ha id := by
    refine ⟨fun hid => h.indexed.mapped a id hid fun i => (ha i).1, fun hid => h.indexed.live id a hid fun i hi => ?_⟩
    exact (ha i).2 (by rw [hi]; rfl)
  entering i id a hi := ⟨h.indexed.entering i id a hi, h.indexed.checked i a (Task.checked_of_entering hi)⟩
  closing := h.indexed.closes
  room := by
    obtain ⟨closers, hc⟩ := h.counted
    exact hc.len_le
  identity := h.identified.identity

theorem registered_new (maxSessions : UInt64) (maxReservations : Nat) : Registered (.new maxSessions maxReservations) where
  numbered := (inv_new maxSessions maxReservations).numbered
  looped := (inv_new maxSessions maxReservations).looped
  indexed := by constructor <;> simp [new]
  identified := by constructor <;> simp [new]
  counted := ⟨∅, by constructor <;> simp [new, BTreeMap.len, BTreeMap.empty]⟩

theorem Registered.spawn (h : Registered s) (hreg : t.registers = none) (hadm : t.admitted = false)
    (hclosing : t.closing = false) (hlocked : t.locked = none)
    (hnamed : ∀ request peer, t.names = some (request, peer) → request.peer = some peer) : Registered (s.spawn t) := by
  have hm : Moves s (s.spawn t) s.nextTask none (some t) := ⟨(h.looped.fresh _ le_rfl).1, fun _ => rfl⟩
  obtain ⟨hchecked, hpending, hentering⟩ := Task.of_not_admitted hadm
  have hcloses : t.closes = none := by cases t <;> first | rfl | cases hclosing
  obtain ⟨closers, hc⟩ := h.counted
  refine ⟨h.numbered.keep hm hpending (fun _ hget => hget) rfl, h.looped.spawn hreg,
    h.indexed.keep hm hcloses hentering ?_ ?_ ?_ rfl rfl le_rfl,
    h.identified.move hm ?_ ?_ hnamed (fun _ _ hget => hget) fun _ _ _ hl => hl,
    closers, hc.keep rfl hm hentering ?_ hclosing rfl rfl⟩
  all_goals simp only [any_some, bind_some, hadm, hchecked, hpending, hlocked]
  case refine_5 => exact fun _ _ hx => nomatch hlocked.symm.trans (Task.cleared_locked hx)
  all_goals nofun

theorem Registered.step (h : Registered s) {e : Event} (hcare : Careful s e) (hs : s.step e = some s') : Registered s' := by
  cases e with
  | connect request =>
    cases hs
    cases hp : request.peer with
    | none => exact h.spawn rfl rfl rfl hp nofun
    | some peer => exact h.spawn rfl rfl rfl rfl (by rintro _ _ ⟨⟩; exact hp)
  | close id | forward id =>
    cases hs
    exact h.spawn rfl rfl rfl rfl nofun
  | advance task choice =>
    obtain ⟨t, ht, hs⟩ := bind_eq_some_iff.mp hs
    obtain ⟨closers, hc⟩ := h.counted
    exact ⟨h.numbered.advance ht hs, h.looped.advance h.numbered ht hs, h.indexed.advance h.numbered h.looped hcare ht hs,
      h.identified.advance ht hs, hc.advance h.indexed h.numbered ht hs⟩
  | expire stale =>
    cases hs
    obtain ⟨closers, hc⟩ := h.counted
    exact ⟨{ h.numbered with }, { h.looped with }, { h.indexed with }, { h.identified with }, closers, { hc with }⟩

/-- In every run of that kind, what is admitted is consistent. -/
theorem admission_consistent {maxSessions : UInt64} {maxReservations : Nat}
    (h : Reaches step Careful (· = .new maxSessions maxReservations) s) : Admitted s :=
  Registered.admitted (h.invariant (fun _ hs => hs ▸ registered_new _ _) fun _ _ _ hs he ht => hs.step he ht)

def anonymous : Request := ⟨⟨true, 3221225986, 9000⟩, none⟩

def twoClients : List Event :=
  [.connect returning, .connect anonymous] ++ replicate 8 (.advance 0 true) ++ replicate 6 (.advance 1 true)

theorem admission_consistent_twoClients : ∃ s, runFrom step Careful (.new 2 1) twoClients = some s ∧
    s.clientToSession returning.client = some 1 ∧ s.clientToSession anonymous.client = some 2 ∧ Admitted s :=
  ⟨_, rfl, by decide +kernel, by decide +kernel,
    @admission_consistent _ 2 1 (.runFrom twoClients (.start rfl) rfl)⟩

/-- Two requests of one client pass the checks together. -/
def together : List Event :=
  [.connect anonymous, .connect anonymous, .advance 0 true, .advance 1 true, .advance 0 true, .advance 1 true] ++
    replicate 4 (.advance 0 true) ++ replicate 4 (.advance 1 true)

/-- Both are served, though there is room for one, and once the first session is closed the second has no entry. -/
theorem admission_over_limit : ∃ s s', runFrom step (fun _ _ => True) (.new 1 1) together = some s ∧
    s.sessions.len = 2 ∧ ¬ Admitted s ∧
    runFrom step (fun _ _ => True) s (.close 1 :: replicate 5 (.advance 2 true)) = some s' ∧
    s'.clientToSession anonymous.client = none ∧ s'.sessions.get 2 = some ⟨anonymous.client, none, 1⟩ :=
  ⟨_, _, rfl, by decide +kernel, fun h => absurd h.room (by decide +kernel), rfl, by decide +kernel, by decide +kernel⟩

end RelayServer
end SaorsaTransport.Masque
