import Mathlib.Algebra.Order.Ring.Nat

/-! Arithmetic of fixed-width unsigned integers on naturals. A subtraction below zero is a panic of
    the program, so it is `none`; additions that saturate name their bound. -/

namespace Library

/-- `a - b`, or a panic when the difference is below zero. -/
def checkedSub (a b : Nat) : Option Nat := if b ≤ a then some (a - b) else none

theorem checkedSub_eq_some {a b c : Nat} : checkedSub a b = some c ↔ a = b + c := by
  unfold checkedSub
  split
  · rw [Option.some.injEq]
    omega
  · simp only [reduceCtorEq, false_iff]
    omega

variable {a b : Nat}

theorem checkedSub_of_le (h : b ≤ a) : checkedSub a b = some (a - b) := if_pos h

/-- After a step that may panic, the rest of the computation cannot. -/
theorem exists_of_bind {α β : Type} {x : Option α} {f : α → β} {b : β}
    (h : (x.bind fun a => some (f a)) = some b) : ∃ a, x = some a ∧ f a = b := by
  obtain ⟨a, ha, h⟩ := Option.bind_eq_some_iff.mp h
  exact ⟨a, ha, Option.some.inj h⟩

theorem exists_of_map {α β : Type} {x : Option α} {f : α → β} {b : β} {P : α → Prop} (h : x.map f = some b)
    (hP : ∀ a, x = some a → f a = b → P a) : ∃ a, x = some a ∧ P a := by
  obtain ⟨a, ha, hb⟩ := Option.map_eq_some_iff.mp h
  exact ⟨a, ha, hP a ha hb⟩

def u64Max : Nat := 2 ^ 64 - 1

/-- `a + b`, or a panic when the sum does not fit in 64 bits. -/
def checkedAdd (a b : Nat) : Option Nat := if a + b ≤ u64Max then some (a + b) else none

def saturatingAdd (a b : Nat) : Nat := min (a + b) u64Max

theorem saturatingAdd_of_le (h : a + b ≤ u64Max) : saturatingAdd a b = a + b := min_eq_left h

def wrappingAdd (a b : Nat) : Nat := (a + b) % 2 ^ 64

theorem wrappingAdd_of_le (h : a + b ≤ u64Max) : wrappingAdd a b = a + b :=
  Nat.mod_eq_of_lt (Nat.lt_of_le_of_lt h (by decide))

def wrappingSub (a b : Nat) : Nat := if b ≤ a then a - b else a + 2 ^ 64 - b

/-! Runs of a machine. A run is a list of events each of which was admitted in the state it met, and an invariant is
    what every admitted step keeps. -/

open Option

variable {σ ε : Type}

/-- The state `t` is reached from a start state, by steps that were all admitted. -/
inductive Reaches (step : σ → ε → Option σ) (allow : σ → ε → Prop) (start : σ → Prop) : σ → Prop
  | start {s : σ} : start s → Reaches step allow start s
  | next {s t : σ} (e : ε) : Reaches step allow start s → allow s e → step s e = some t → Reaches step allow start t

variable {step : σ → ε → Option σ} {allow : σ → ε → Prop} {start : σ → Prop}

theorem Reaches.invariant {P : σ → Prop} (hsta : ∀ s, start s → P s)
    (hstep : ∀ s e t, P s → allow s e → step s e = some t → P t) {s : σ} (h : Reaches step allow start s) : P s := by
  induction h with
  | start hs => exact hsta _ hs
  | next e _ ha ht ih => exact hstep _ e _ ih ha ht

theorem Reaches.map {τ : Type} {step' : τ → ε → Option τ} {allow' : τ → ε → Prop} {start' : τ → Prop} (f : σ → τ)
    (hsta : ∀ s, start s → start' (f s)) (hallow : ∀ s e, allow s e → allow' (f s) e)
    (hstep : ∀ s e t, step s e = some t → step' (f s) e = some (f t)) {s : σ} (h : Reaches step allow start s) :
    Reaches step' allow' start' (f s) := by
  induction h with
  | start hs => exact .start (hsta _ hs)
  | next e _ ha ht ih => exact .next e ih (hallow _ e ha) (hstep _ e _ ht)

/-- Run a list of events from `s`; `none` if one is not admitted or crashes. -/
def runFrom (step : σ → ε → Option σ) (allow : σ → ε → Prop) [∀ s e, Decidable (allow s e)] : σ → List ε → Option σ
  | s, [] => some s
  | s, e :: es => if allow s e then (step s e).bind fun t => runFrom step allow t es else none

theorem Reaches.runFrom [∀ s e, Decidable (allow s e)] : ∀ (es : List ε) {s t : σ}, Reaches step allow start s →
    runFrom step allow s es = some t → Reaches step allow start t
  | [], s, t, h, ht => by
    obtain rfl : s = t := some.inj ht
    exact h
  | e :: es, s, t, h, ht => by
    unfold Library.runFrom at ht
    split at ht
    · next ha =>
      obtain ⟨u, hu, ht⟩ := bind_eq_some_iff.mp ht
      exact Reaches.runFrom es (.next e h ha hu) ht
    · cases ht

theorem Reaches.exists_of_runFrom [∀ s e, Decidable (allow s e)] {s : σ} (h : Reaches step allow start s) (es : List ε)
    {P : σ → Prop} [DecidablePred P] (hrun : (Library.runFrom step allow s es).any (P ·) = true) :
    ∃ t, Reaches step allow start t ∧ P t := by
  obtain ⟨t, ht, hP⟩ := any_eq_true _ _ |>.mp hrun
  exact ⟨t, h.runFrom es ht, of_decide_eq_true hP⟩

/-- What each step of a fold relates is related from its start to its end. -/
theorem foldlM_rel {α : Type} {R : σ → σ → Prop} (hrefl : ∀ s, R s s) (htrans : ∀ {s t u}, R s t → R t u → R s u)
    {f : σ → α → Option σ} (hf : ∀ {s t a}, f s a = some t → R s t) :
    ∀ {l : List α} {s t : σ}, l.foldlM f s = some t → R s t
  | [], s, t, h => by
    obtain rfl : s = t := some.inj h
    exact hrefl s
  | a :: l, s, t, h => by
    obtain ⟨u, hu, h⟩ := bind_eq_some_iff.mp h
    exact htrans (hf hu) (foldlM_rel hrefl htrans hf h)

/-! Serial numbers: indices that are known only by their lowest `w` bits. Two indices that are less than half the range
    apart are told apart, and their signed distance is that of the numbers. -/

def serial (w k : Nat) : BitVec w := BitVec.ofNat w k

variable {w a b : Nat}

theorem serial_succ (w k : Nat) : serial w k + 1 = serial w (k + 1) := (BitVec.ofNat_add k 1).symm

theorem toInt_serial_sub (w a b : Nat) : (serial w b - serial w a).toInt = ((b : Int) - a).bmod (2 ^ w) := by
  rw [serial, serial, BitVec.toInt_sub, BitVec.toInt_ofNat', BitVec.toInt_ofNat', Int.bmod_sub_bmod, Int.sub_bmod_bmod]

/-- The distance of two numbers is the distance of the indices, if that is less than half the range. -/
theorem toInt_serial_sub_of_near (hlow : a ≤ b + 2 ^ w / 2) (hhigh : b < a + 2 ^ w / 2) :
    (serial w b - serial w a).toInt = (b : Int) - a := by
  rw [toInt_serial_sub]
  generalize 2 ^ w = m at hlow hhigh
  refine Int.bmod_eq_of_le ?_ ?_ <;> omega

theorem serial_inj_of_near (hlow : a < b + 2 ^ w) (hhigh : b < a + 2 ^ w) : serial w a = serial w b ↔ a = b := by
  refine ⟨fun h => ?_, fun h => h ▸ rfl⟩
  have hmod : a % 2 ^ w = b % 2 ^ w := by simpa [serial] using congrArg BitVec.toNat h
  have hle : ∀ {x y : Nat}, x < y + 2 ^ w → x % 2 ^ w = y % 2 ^ w → x ≤ y := by
    intro x y hlt heq
    have hzero := Nat.sub_mod_eq_zero_of_mod_eq heq
    rw [Nat.mod_eq_of_lt (by omega)] at hzero
    exact Nat.sub_eq_zero_iff_le.mp hzero
  exact le_antisymm (hle hlow hmod) (hle hhigh hmod.symm)

/-! Programs that fail: what their results are like, and what their failures are like. -/

variable {ε α β : Type}

/-- The result satisfies `ok`, or the failure satisfies `err`. -/
def Holds (ok : α → Prop) (err : ε → Prop) : Except ε α → Prop
  | .ok a => ok a
  | .error e => err e

variable {ok : α → Prop} {err : ε → Prop} {x : Except ε α}

section
variable (h : Holds ok err x)
include h

theorem Holds.bind {ok' : β → Prop} {f : α → Except ε β} (hf : ∀ a, ok a → Holds ok' err (f a)) :
    Holds ok' err (x >>= f) := by
  cases x with
  | ok a => exact hf a h
  | error e => exact h

theorem Holds.map {ok' : β → Prop} {f : α → β} (hf : ∀ a, ok a → ok' (f a)) : Holds ok' err (f <$> x) := by
  cases x with
  | ok a => exact hf a h
  | error e => exact h

theorem Holds.imp {ok' : α → Prop} (hok : ∀ a, ok a → ok' a) : Holds ok' err x := by
  cases x with
  | ok a => exact hok a h
  | error e => exact h

theorem Holds.and {ok' : α → Prop} (h' : Holds ok' (fun _ => True) x) : Holds (fun a => ok a ∧ ok' a) err x := by
  cases x with
  | ok a => exact ⟨h, h'⟩
  | error e => exact h

theorem Holds.of_ok {a : α} (hx : x = .ok a) : ok a := by
  subst hx
  exact h

end

theorem eq_ok_of_toOption {a : α} (h : x.toOption = some a) : x = .ok a := by
  cases x with
  | ok b => rw [Option.some.inj h]
  | error e => cases h

def forEach (f : α → β → Except ε α) : α → List β → Except ε α
  | a, [] => .ok a
  | a, b :: bs => f a b >>= fun a => forEach f a bs

theorem Holds.forEach {f : α → β → Except ε α} (inv : List β → α → Prop)
    (hf : ∀ a b bs, inv (b :: bs) a → Holds (inv bs) err (f a b)) :
    ∀ (bs : List β) {a : α}, inv bs a → Holds (inv []) err (Library.forEach f a bs)
  | [], _, h => h
  | b :: bs, a, h => (hf a b bs h).bind fun _ h' => Holds.forEach inv hf bs h'

end Library
