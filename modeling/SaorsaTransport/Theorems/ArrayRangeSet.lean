import Mathlib.Data.List.TakeWhile
import SaorsaTransport.Theorems.RangeSet

/-! The vector of ranges stays a tidy list, and its operations do to its points what they say. -/

namespace SaorsaTransport.ArrayRangeSet
open Library List

variable {s : ArrayRangeSet} {x : Nat × Nat}

theorem contains_iff (hs : Tidy s.ranges) {x : Nat} : s.contains x = true ↔ x ∈ points s.ranges := by
  obtain ⟨l⟩ := s
  unfold contains
  induction l with
  | nil => simp
  | cons r l ih =>
    obtain ⟨hlt, hbeh, hl⟩ := tidy_cons.mp hs
    rw [mem_points_cons, takeWhile_cons]
    by_cases hr : r.1 ≤ x
    · simp only [hr, decide_true, if_true, length_cons, Nat.add_one_ne_zero, if_false, Nat.add_one_sub_one]
      cases hw : l.takeWhile fun range => decide (range.1 ≤ x) with
      | nil =>
        -- The next range starts behind `x`, so only the first one can hold it.
        have hout : x ∉ points l := by
          rw [← ih hl]
          simp [hw]
        simp [hout]
      | cons q w =>
        have hq' : q ∈ l ∧ q.1 ≤ x := by
          have hmem := hw ▸ mem_cons_self
          exact ⟨(takeWhile_sublist _).mem hmem, by simpa using mem_takeWhile_imp hmem⟩
        have hnot : ¬InSpan r x := fun hin => by
          have := hbeh q hq'.1
          simp only [InSpan] at hin
          omega
        rw [or_iff_right hnot, ← ih hl, hw]
        simp
    have hnot : ∀ o ∈ points l, o ≠ x := fun o ho heq => by
      have := hs.lt_of_mem_tail ho
      omega
    simp only [hr, decide_false, Bool.false_eq_true, if_false, length_nil, if_true, false_iff, not_or]
    exact ⟨fun hin => hr hin.1, fun ho => hnot x ho rfl⟩

/-- Merging the followers of `curr` gives a tidy list of the same points, which starts where `curr` does. -/
theorem mergeNext_spec : ∀ {l : List (Nat × Nat)} (curr : Nat × Nat), Tidy l → curr.1 < curr.2 → (∀ q ∈ l, curr.1 ≤ q.1) →
    Tidy (mergeNext curr l) ∧ (∀ o, o ∈ points (mergeNext curr l) ↔ InSpan curr o ∨ o ∈ points l) ∧
      ∀ q ∈ mergeNext curr l, curr.1 ≤ q.1
  | [], curr, _, hlt, _ => by
    unfold mergeNext
    exact ⟨tidy_cons.mpr ⟨hlt, by simp, tidy_nil⟩, fun o => mem_points_cons, by simp⟩
  | next :: l, curr, hl, hlt, hge => by
    obtain ⟨hnext, hbeh, hl'⟩ := tidy_cons.mp hl
    have hcn := hge next mem_cons_self
    unfold mergeNext
    split
    · next htouch =>
      obtain ⟨h1, h2, h3⟩ := mergeNext_spec (curr.1, max next.2 curr.2) hl' (show curr.1 < max next.2 curr.2 by omega)
        fun q hq => hge q (mem_cons_of_mem _ hq)
      refine ⟨h1, fun o => ?_, h3⟩
      rw [h2 o, mem_points_cons, ← or_assoc]
      refine or_congr_left ?_
      simp only [InSpan]
      omega
    next hgap =>
    have hgap := not_le.mp hgap
    refine ⟨tidy_cons.mpr ⟨hlt, fun q hq => ?_, hl⟩, fun o => mem_points_cons, fun q hq => ?_⟩
    · rcases mem_cons.mp hq with rfl | hq
      · exact hgap
      have := hbeh q hq
      omega
    · rcases mem_cons.mp hq with rfl | hq
      · exact le_rfl
      · exact hge q hq

theorem joinHead_spec {range : Nat × Nat} {l : List (Nat × Nat)} (h : Tidy (range :: l)) (hx : x.1 < x.2)
    (h₁ : range.1 ≤ x.2) (h₂ : x.1 ≤ range.2) (h₃ : range.2 < x.2) : Tidy (mergeNext (min x.1 range.1, x.2) l) ∧
      (∀ o, o ∈ points (mergeNext (min x.1 range.1, x.2) l) ↔ o ∈ points (range :: l) ∨ InSpan x o) ∧
        ∀ q ∈ mergeNext (min x.1 range.1, x.2) l, min x.1 range.1 ≤ q.1 := by
  obtain ⟨hlt, hbeh, hl⟩ := tidy_cons.mp h
  obtain ⟨h1, h2, h3⟩ := mergeNext_spec (min x.1 range.1, x.2) hl (show min x.1 range.1 < x.2 by omega) fun q hq => by
      have := hbeh q hq
      simp only
      omega
  refine ⟨h1, fun o => ?_, h3⟩
  rw [h2 o, mem_points_cons, or_right_comm]
  refine or_congr_left ?_
  simp only [InSpan]
  omega

/-- What the loop of `insert` makes of a list: it adds the points of `x`, and starts no earlier than the list or
    `x` did. -/
structure Inserted (x : Nat × Nat) (l : List (Nat × Nat)) (result : List (Nat × Nat) × Bool) : Prop where
  tidy : Tidy result.1
  points : ∀ o, o ∈ points result.1 ↔ o ∈ points l ∨ InSpan x o
  start : ∀ k, (∀ q ∈ l, k < q.1) → k < x.1 → ∀ q ∈ result.1, k < q.1
  flag : result.2 = true ↔ ∃ o, InSpan x o ∧ o ∉ Library.points l

theorem insertAt_spec {x : Nat × Nat} (hx : x.1 < x.2) :
    ∀ {l : List (Nat × Nat)}, Tidy l → Inserted x l (insertAt x false l)
  | [], _ => by
    unfold insertAt
    refine ⟨tidy_cons.mpr ⟨hx, by simp, tidy_nil⟩, fun o => ?_, fun k _ hk => by simpa using hk, ?_⟩
    · rw [mem_points_cons, or_comm]
    · exact iff_of_true rfl ⟨x.1, ⟨le_rfl, hx⟩, by simp⟩
  | range :: l, h => by
    obtain ⟨hlt, hbeh, hl⟩ := tidy_cons.mp h
    have hfst := h.firstRun
    have hnew : x.1 < range.1 → ∃ o, InSpan x o ∧ o ∉ points (range :: l) := fun hleft =>
      ⟨x.1, ⟨le_rfl, hx⟩, fun hmem => absurd (hfst.least _ hmem) (not_le.mpr hleft)⟩
    unfold insertAt
    split
    · next hpre =>
      have hall : ∀ q ∈ range :: l, x.2 < q.1 := fun q hq => by
        rcases mem_cons.mp hq with rfl | hq
        · exact hpre
        have := hbeh q hq
        omega
      refine ⟨tidy_cons.mpr ⟨hx, hall, h⟩, fun o => ?_, fun k hk hkx q hq => ?_, iff_of_true rfl (hnew (hx.trans hpre))⟩
      · rw [mem_points_cons, or_comm]
      · rcases mem_cons.mp hq with rfl | hq
        · exact hkx
        · exact hk q hq
    next hpre =>
    have hrch := not_lt.mp hpre
    -- What joining to the head gives, whichever of the two starts first.
    have hjoin : x.1 ≤ range.2 → range.2 < x.2 → Inserted x (range :: l) (mergeNext (min x.1 range.1, x.2) l, true) := by
      intro h₂ h₃
      obtain ⟨h1, h2, h3⟩ := joinHead_spec h hx hrch h₂ h₃
      refine ⟨h1, h2, fun k hk hkx q hq => ?_, iff_of_true rfl ⟨range.2, ⟨h₂, h₃⟩, hfst.stop⟩⟩
      exact (lt_min hkx (hk range mem_cons_self)).trans_le (h3 q hq)
    by_cases hleft : x.1 < range.1
    · simp only [hleft, if_true]
      by_cases hin : x.2 ≤ range.2
      · rw [if_pos hin]
        refine ⟨tidy_cons.mpr ⟨hleft.trans hlt, hbeh, hl⟩, fun o => ?_, fun k hk hkx q hq => ?_,
          iff_of_true rfl (hnew hleft)⟩
        · rw [mem_points_cons, mem_points_cons, or_right_comm]
          refine or_congr_left ?_
          simp only [InSpan]
          omega
        · rcases mem_cons.mp hq with rfl | hq
          · exact hkx
          · exact hk q (mem_cons_of_mem _ hq)
      rw [if_neg hin, if_pos (hleft.trans hlt).le]
      have := hjoin (hleft.trans hlt).le (not_le.mp hin)
      rwa [min_eq_left hleft.le] at this
    simp only [hleft, if_false]
    have hright := not_lt.mp hleft
    split
    · next hin =>
      have hsub : ∀ o, InSpan x o → o ∈ points (range :: l) := fun o ho =>
        mem_points_cons.mpr (.inl ⟨hright.trans ho.1, ho.2.trans_le hin⟩)
      exact ⟨h, fun o => ⟨.inl, fun ho => ho.elim id (hsub o)⟩, fun k hk _ => hk,
        ⟨by rintro ⟨⟩, by rintro ⟨o, ho, hout⟩; exact absurd (hsub o ho) hout⟩⟩
    next hin =>
    split
    · next htouch =>
      have := hjoin htouch (not_le.mp hin)
      rwa [min_eq_right hright] at this
    next htouch =>
    have hgap := not_le.mp htouch
    have I := insertAt_spec hx hl
    refine ⟨tidy_cons.mpr ⟨hlt, I.start _ hbeh hgap, I.tidy⟩, fun o => ?_, fun k hk hkx q hq => ?_, ?_⟩
    · rw [mem_points_cons, I.points o, mem_points_cons, or_assoc]
    · rcases mem_cons.mp hq with rfl | hq
      · exact hk q mem_cons_self
      · exact I.start k (fun r hr => hk r (mem_cons_of_mem _ hr)) hkx q hq
    · rw [I.flag]
      refine exists_congr fun o => and_congr_right fun ho => not_congr ?_
      rw [mem_points_cons, or_iff_right]
      exact fun hin => absurd (hgap.trans_le ho.1) (lt_asymm hin.2)

theorem insert_spec (hs : Tidy s.ranges) :
    Tidy (s.insert x).1.ranges ∧ (∀ o, o ∈ points (s.insert x).1.ranges ↔ o ∈ points s.ranges ∨ InSpan x o) ∧
      ((s.insert x).2 = true ↔ ∃ o, InSpan x o ∧ o ∉ points s.ranges) := by
  unfold insert
  split
  · next hemp =>
    have hnone := not_inSpan hemp
    exact ⟨hs, fun o => (or_iff_left (hnone o)).symm, ⟨nofun, fun ⟨o, ho, _⟩ => absurd ho (hnone o)⟩⟩
  next hne =>
  have I := insertAt_spec (not_le.mp hne) hs
  exact ⟨I.tidy, I.points, I.flag⟩

/-- What the loop of `remove` makes of a list: it takes the points of `x` out, and starts no earlier. -/
structure Removed (x : Nat × Nat) (l : List (Nat × Nat)) (result : List (Nat × Nat)) : Prop where
  tidy : Tidy result
  points : ∀ o, o ∈ points result ↔ o ∈ points l ∧ ¬InSpan x o
  start : ∀ k, (∀ q ∈ l, k < q.1) → ∀ q ∈ result, k < q.1

theorem Removed.cons {range q : Nat × Nat} {l m : List (Nat × Nat)} (h : Tidy (range :: l)) (R : Removed x l m)
    (hlt : q.1 < q.2) (hsub₁ : range.1 ≤ q.1) (hsub₂ : q.2 ≤ range.2)
    (hmem : ∀ o, InSpan q o ↔ InSpan range o ∧ ¬InSpan x o) : Removed x (range :: l) (q :: m) where
  tidy := tidy_cons.mpr ⟨hlt, R.start _ fun r hr => hsub₂.trans_lt ((tidy_cons.mp h).2.1 r hr), R.tidy⟩
  points o := by rw [mem_points_cons, R.points o, hmem o, mem_points_cons, or_and_right]
  start k hk r hr := by
    rcases mem_cons.mp hr with rfl | hr
    · exact (hk range mem_cons_self).trans_le hsub₁
    · exact R.start k (fun r hr => hk r (mem_cons_of_mem _ hr)) r hr

theorem removeAt_spec {x : Nat × Nat} (hx : x.1 < x.2) : ∀ {l : List (Nat × Nat)} (result : Bool), Tidy l →
    Removed x l (removeAt x result l).1 ∧
      ((removeAt x result l).2 = true ↔ result = true ∨ ∃ o, InSpan x o ∧ o ∈ points l)
  | [], result, _ => by
    unfold removeAt
    exact ⟨⟨tidy_nil, by simp, by simp⟩, by simp⟩
  | range :: l, result, h => by
    obtain ⟨hlt, hbeh, hl⟩ := tidy_cons.mp h
    unfold removeAt
    split
    · next hpre =>
      have hout : ∀ o ∈ points (range :: l), ¬InSpan x o := fun o ho hin => by
        have := h.firstRun.least o ho
        simp only [InSpan] at hin
        omega
      refine ⟨⟨h, fun o => ⟨fun ho => ⟨ho, hout o ho⟩, And.left⟩, fun k hk => hk⟩, ?_⟩
      exact (or_iff_left (by rintro ⟨o, ho, hmem⟩; exact hout o hmem ho)).symm
    next hpre =>
    split
    · next haft =>
      obtain ⟨R, hflag⟩ := removeAt_spec hx result hl
      have hout : ∀ o, InSpan range o → ¬InSpan x o := fun o ho hin => by
        simp only [InSpan] at ho hin
        omega
      refine ⟨R.cons h hlt le_rfl le_rfl fun o => ⟨fun ho => ⟨ho, hout o ho⟩, And.left⟩, ?_⟩
      rw [hflag]
      refine or_congr_right (exists_congr fun o => and_congr_right fun ho => ?_)
      rw [mem_points_cons, or_iff_right fun hin => hout o hin ho]
    next haft =>
    obtain ⟨R, hflag⟩ := removeAt_spec hx true hl
    have hhit : ∃ o, InSpan x o ∧ o ∈ points (range :: l) :=
      ⟨max x.1 range.1, by simp only [InSpan]; omega, mem_points_cons.mpr (.inl (by simp only [InSpan]; omega))⟩
    have hflag : (removeAt x true l).2 = true ↔ result = true ∨ ∃ o, InSpan x o ∧ o ∈ points (range :: l) :=
      iff_of_true (hflag.mpr (.inl rfl)) (.inr hhit)
    dsimp only
    split
    · next hboth =>
      refine ⟨⟨R.tidy, fun o => ?_, fun k hk => R.start k fun q hq => hk q (mem_cons_of_mem _ hq)⟩, hflag⟩
      have hin : InSpan range o → InSpan x o := fun ho => by
        simp only [InSpan] at ho ⊢
        omega
      rw [R.points o, mem_points_cons, or_and_right, or_iff_right fun h => h.2 (hin h.1)]
    next hboth =>
    split
    · next hleft =>
      refine ⟨R.cons h (show x.2 < range.2 by omega) (show range.1 ≤ x.2 by omega) le_rfl fun o => ?_, hflag⟩
      simp only [InSpan]
      omega
    next hleft =>
    split
    · next hright =>
      refine ⟨R.cons h (not_le.mp hleft) le_rfl (show x.1 ≤ range.2 by omega) fun o => ?_, hflag⟩
      simp only [InSpan]
      omega
    next hright =>
    have hbeh' : ∀ q ∈ (removeAt x true l).1, range.2 < q.1 := R.start _ hbeh
    refine ⟨⟨tidy_cons.mpr ⟨not_le.mp hleft, fun q hq => ?_, tidy_cons.mpr ⟨not_le.mp hright, hbeh',
      R.tidy⟩⟩, fun o => ?_, fun k hk q hq => ?_⟩, hflag⟩
    · rcases mem_cons.mp hq with rfl | hq
      · exact hx
      have := hbeh' q hq
      omega
    · have hspl : InSpan (range.1, x.1) o ∨ InSpan (x.2, range.2) o ↔ InSpan range o ∧ ¬InSpan x o := by
        simp only [InSpan]
        omega
      rw [mem_points_cons, mem_points_cons, R.points o, ← or_assoc, hspl, mem_points_cons, or_and_right]
    · have := hk range mem_cons_self
      rcases mem_cons.mp hq with rfl | hq
      · exact this
      rcases mem_cons.mp hq with rfl | hq
      · simp only
        omega
      · exact this.trans (hlt.trans (hbeh' q hq))

theorem remove_spec (hs : Tidy s.ranges) :
    Tidy (s.remove x).1.ranges ∧ (∀ o, o ∈ points (s.remove x).1.ranges ↔ o ∈ points s.ranges ∧ ¬InSpan x o) ∧
      ((s.remove x).2 = true ↔ ∃ o, InSpan x o ∧ o ∈ points s.ranges) := by
  unfold remove
  split
  · next hemp =>
    have hnone := not_inSpan hemp
    exact ⟨hs, fun o => (and_iff_left (hnone o)).symm, ⟨nofun, fun ⟨o, ho, _⟩ => absurd ho (hnone o)⟩⟩
  next hne =>
  obtain ⟨R, hflag⟩ := removeAt_spec (not_le.mp hne) false hs
  exact ⟨R.tidy, R.points, hflag.trans (or_iff_right Bool.false_ne_true)⟩

end SaorsaTransport.ArrayRangeSet

/-! The two range sets of the source against the set of offsets they stand for. Both do what the operations say of
    the set, the set determines the ranges and the results, so the two cannot differ. -/

namespace SaorsaTransport
open Library RangeSet ArrayRangeSet

inductive RangeOp where
  | insert (x : Nat × Nat)
  | insertOne (x : Nat)
  | remove (x : Nat × Nat)
  | popMin

inductive RangeResult where
  | changed (flag : Bool)
  | popped (range : Option (Nat × Nat))
  deriving DecidableEq

def RangeSet.apply (s : RangeSet) : RangeOp → RangeSet × RangeResult
  | .insert x => (s.insert x).map id .changed
  | .insertOne x => (s.insertOne x).map id .changed
  | .remove x => (s.remove x).map id .changed
  | .popMin =>
    match s.popMin with
    | none => (s, .popped none)
    | some (range, s) => (s, .popped (some range))

def ArrayRangeSet.apply (s : ArrayRangeSet) : RangeOp → ArrayRangeSet × RangeResult
  | .insert x => (s.insert x).map id .changed
  | .insertOne x => (s.insertOne x).map id .changed
  | .remove x => (s.remove x).map id .changed
  | .popMin =>
    match s.popMin with
    | none => (s, .popped none)
    | some (range, s) => (s, .popped (some range))

def applyAll {σ : Type} (apply : σ → RangeOp → σ × RangeResult) : σ → List RangeOp → σ × List RangeResult
  | s, [] => (s, [])
  | s, op :: ops =>
    let (s, result) := apply s op
    let (s, results) := applyAll apply s ops
    (s, result :: results)

namespace RangeOp

def span (x : Nat × Nat) : Set Nat := {o | InSpan x o}

/-- What an operation means: the set `T` it makes of the set `S`, and the result that says so. -/
inductive Does (S : Set Nat) : RangeOp → RangeResult → Set Nat → Prop
  | insert {x : Nat × Nat} {flag : Bool} {T : Set Nat} :
      T = S ∪ span x → (flag = true ↔ T ≠ S) → Does S (.insert x) (.changed flag) T
  | insertOne {x : Nat} {flag : Bool} {T : Set Nat} :
      T = S ∪ {x} → (flag = true ↔ T ≠ S) → Does S (.insertOne x) (.changed flag) T
  | remove {x : Nat × Nat} {flag : Bool} {T : Set Nat} :
      T = S \ span x → (flag = true ↔ T ≠ S) → Does S (.remove x) (.changed flag) T
  | popMin {r : Nat × Nat} {T : Set Nat} : FirstRun S r → T = S \ span r → Does S .popMin (.popped (some r)) T
  | popMinEmpty : S = ∅ → Does S .popMin (.popped none) S

inductive DoesAll : Set Nat → List RangeOp → List RangeResult → Set Nat → Prop
  | nil {S : Set Nat} : DoesAll S [] [] S
  | cons {S T U : Set Nat} {op : RangeOp} {ops : List RangeOp} {result : RangeResult} {results : List RangeResult} :
      Does S op result T → DoesAll T ops results U → DoesAll S (op :: ops) (result :: results) U

theorem Does.unique {S T T' : Set Nat} {op : RangeOp} {result result' : RangeResult} (h : Does S op result T)
    (h' : Does S op result' T') : result = result' ∧ T = T' := by
  have hflag : ∀ {f f' : Bool}, (f = true ↔ T ≠ S) → (f' = true ↔ T ≠ S) → RangeResult.changed f = .changed f' :=
    fun h h' => congrArg _ (Bool.eq_iff_iff.mpr (h.trans h'.symm))
  cases h with
  | insert hT h =>
    cases h' with
    | insert hT' h' =>
      obtain rfl := hT.trans hT'.symm
      exact ⟨hflag h h', rfl⟩
  | insertOne hT h =>
    cases h' with
    | insertOne hT' h' =>
      obtain rfl := hT.trans hT'.symm
      exact ⟨hflag h h', rfl⟩
  | remove hT h =>
    cases h' with
    | remove hT' h' =>
      obtain rfl := hT.trans hT'.symm
      exact ⟨hflag h h', rfl⟩
  | popMin h hT =>
    cases h' with
    | popMin h' hT' =>
      obtain rfl := h.unique h'
      exact ⟨rfl, hT.trans hT'.symm⟩
    | popMinEmpty hemp => exact absurd (h.sub _ ⟨le_rfl, h.lt⟩) (hemp ▸ id)
  | popMinEmpty hemp =>
    cases h' with
    | popMin h' => exact absurd (h'.sub _ ⟨le_rfl, h'.lt⟩) (hemp ▸ id)
    | popMinEmpty => exact ⟨rfl, rfl⟩

theorem DoesAll.unique {S T T' : Set Nat} {ops : List RangeOp} {results results' : List RangeResult}
    (h : DoesAll S ops results T) (h' : DoesAll S ops results' T') : results = results' ∧ T = T' := by
  induction h generalizing results' T' with
  | nil =>
    cases h'
    exact ⟨rfl, rfl⟩
  | cons h _ ih =>
    cases h' with
    | cons h' hs' =>
      obtain ⟨rfl, rfl⟩ := h.unique h'
      obtain ⟨rfl, rfl⟩ := ih hs'
      exact ⟨rfl, rfl⟩

def Fits : RangeOp → Prop
  | .insertOne x => x + 1 ≤ u64Max
  | _ => True

end RangeOp

open RangeOp

section Implements
variable {σ : Type} {ranges : σ → List (Nat × Nat)} {good : σ → Prop} {apply : σ → RangeOp → σ × RangeResult}

/-- States that stand for the set of their ranges, and operations that do to the set what they say. -/
structure Implements (ranges : σ → List (Nat × Nat)) (good : σ → Prop) (apply : σ → RangeOp → σ × RangeResult) :
    Prop where
  tidy : ∀ s, good s → Tidy (ranges s)
  step : ∀ s op, good s → op.Fits →
    good (apply s op).1 ∧ op.Does (points (ranges s)) (apply s op).2 (points (ranges (apply s op).1))

theorem Implements.run (h : Implements ranges good apply) : ∀ (ops : List RangeOp) {s : σ}, good s →
    (∀ op ∈ ops, op.Fits) → good (applyAll apply s ops).1 ∧
      DoesAll (points (ranges s)) ops (applyAll apply s ops).2 (points (ranges (applyAll apply s ops).1))
  | [], s, hs, _ => ⟨hs, .nil⟩
  | op :: ops, s, hs, hfit => by
    obtain ⟨hgood, hdoes⟩ := h.step s op hs (hfit op List.mem_cons_self)
    obtain ⟨hgood', hall⟩ := h.run ops hgood fun op hop => hfit op (List.mem_cons_of_mem _ hop)
    exact ⟨hgood', .cons hdoes hall⟩

end Implements

theorem ne_of_union {S X T : Set Nat} (hT : T = S ∪ X) : (∃ o, o ∈ X ∧ o ∉ S) ↔ T ≠ S := by
  rw [hT, Ne, Set.union_eq_left, Set.not_subset]

theorem ne_of_sdiff {S X T : Set Nat} (hT : T = S \ X) : (∃ o, o ∈ X ∧ o ∈ S) ↔ T ≠ S := by
  rw [hT, Ne, sdiff_eq_left, Set.not_disjoint_iff]
  exact exists_congr fun o => and_comm

theorem span_one (x : Nat) : span (x, x + 1) = {x} := by
  ext o
  rw [Set.mem_singleton_iff]
  exact (show x ≤ o ∧ o < x + 1 ↔ o = x by omega)

theorem rangeSet_implements : Implements RangeSet.iter RangeSet.Canonical RangeSet.apply where
  tidy _ h := h.tidy
  step s op h hfit := by
    cases op with
    | insert x =>
      obtain ⟨hgood, hmem⟩ := insert_spec (x := x) h
      exact ⟨hgood, .insert (Set.ext hmem) ((insert_flag h).trans (ne_of_union (Set.ext hmem)))⟩
    | insertOne x =>
      obtain ⟨hgood, hmem, hflag⟩ := insertOne_spec h hfit
      have hT := Set.ext hmem
      exact ⟨hgood, .insertOne (span_one x ▸ hT) (hflag.trans (ne_of_union hT))⟩
    | remove x =>
      obtain ⟨hgood, hmem, hflag⟩ := remove_spec (x := x) h
      exact ⟨hgood, .remove (Set.ext hmem) (hflag.trans (ne_of_sdiff (Set.ext hmem)))⟩
    | popMin =>
      unfold RangeSet.apply
      cases hpop : s.popMin with
      | none =>
        refine ⟨h, .popMinEmpty (Set.eq_empty_of_forall_notMem fun o => ?_)⟩
        exact not_mem_of_popMin hpop o
      | some q =>
        obtain ⟨hgood, hlt, hmem, hbeh⟩ := popMin_spec h hpop
        refine ⟨hgood, .popMin ⟨hlt, fun o ho => (hmem o).mpr (.inr ho), fun hstop => ?_, fun o ho => ?_⟩
          (Set.ext fun o => ⟨fun ho => ⟨(hmem o).mpr (.inl ho), fun hin => ?_⟩, fun ⟨ho, hout⟩ => ?_⟩)⟩
        · rcases (hmem _).mp hstop with ho | ho
          · exact lt_irrefl _ (hbeh _ ho)
          · exact lt_irrefl _ ho.2
        · rcases (hmem o).mp ho with ho | ho
          · exact (hlt.trans (hbeh o ho)).le
          · exact ho.1
        · exact lt_asymm hin.2 (hbeh o ho)
        · exact ((hmem o).mp ho).resolve_right hout

theorem arrayRangeSet_implements : Implements ranges (fun s => Tidy s.ranges) ArrayRangeSet.apply where
  tidy _ h := h
  step s op h hfit := by
    cases op with
    | insert x =>
      obtain ⟨hgood, hmem, hflag⟩ := insert_spec (x := x) h
      exact ⟨hgood, .insert (Set.ext hmem) (hflag.trans (ne_of_union (Set.ext hmem)))⟩
    | insertOne x =>
      have hone : s.apply (.insertOne x) = (s.insert (x, x + 1)).map id .changed := by
        rw [ArrayRangeSet.apply, ArrayRangeSet.insertOne, wrappingAdd_of_le hfit]
      obtain ⟨hgood, hmem, hflag⟩ := insert_spec (x := (x, x + 1)) h
      have hT := Set.ext hmem
      rw [hone]
      exact ⟨hgood, .insertOne (span_one x ▸ hT) (hflag.trans (ne_of_union hT))⟩
    | remove x =>
      obtain ⟨hgood, hmem, hflag⟩ := remove_spec (x := x) h
      exact ⟨hgood, .remove (Set.ext hmem) (hflag.trans (ne_of_sdiff (Set.ext hmem)))⟩
    | popMin =>
      obtain ⟨l⟩ := s
      cases l with
      | nil => exact ⟨tidy_nil, .popMinEmpty points_nil⟩
      | cons r l => exact ⟨(tidy_cons.mp h).2.2, .popMin h.firstRun (Set.ext fun o => h.mem_tail)⟩

/-- After any operations both range sets hold the same tidy ranges, which are those of the set that the operations
    describe; the results are those of the set as well, and `contains` decides it. -/
theorem range_sets_refine (ops : List RangeOp) (hfit : ∀ op ∈ ops, op.Fits) :
    let b := applyAll RangeSet.apply RangeSet.new ops
    let a := applyAll ArrayRangeSet.apply ArrayRangeSet.new ops
    Tidy b.1.iter ∧ a.1.ranges = b.1.iter ∧ a.2 = b.2 ∧ DoesAll ∅ ops b.2 (points b.1.iter) ∧
      ∀ o, (b.1.contains o = true ↔ o ∈ points b.1.iter) ∧ (a.1.contains o = true ↔ o ∈ points b.1.iter) := by
  intro b a
  have hempty := points_nil
  obtain ⟨hb, hdo⟩ := rangeSet_implements.run ops canonical_new hfit
  obtain ⟨ha, hdo'⟩ := arrayRangeSet_implements.run ops (s := ArrayRangeSet.new) tidy_nil hfit
  obtain ⟨hresults, hpoints⟩ := hdo'.unique hdo
  have hranges := ha.unique hb.tidy hpoints
  refine ⟨hb.tidy, hranges, hresults, hempty ▸ hdo, fun o => ⟨contains_iff hb.toSeparated, ?_⟩⟩
  rw [ArrayRangeSet.contains_iff ha, hranges]

theorem range_sets_refine_joined :
    let ops : List RangeOp := [.insert (4, 8), .insertOne 3, .insert (0, 3), .remove (5, 6), .insert (9, 9), .popMin]
    (∀ op ∈ ops, op.Fits) ∧ (applyAll ArrayRangeSet.apply ArrayRangeSet.new ops).1.ranges = [(6, 8)] ∧
      (applyAll RangeSet.apply RangeSet.new ops).1.iter = [(6, 8)] := by
  intro ops
  have hfit : ∀ op ∈ ops, op.Fits := by
    simp [ops, RangeOp.Fits, u64Max]
  have h := range_sets_refine ops hfit
  have harray : (applyAll ArrayRangeSet.apply ArrayRangeSet.new ops).1.ranges = [(6, 8)] := by decide +kernel
  exact ⟨hfit, harray, h.2.1.symm.trans harray⟩

end SaorsaTransport
