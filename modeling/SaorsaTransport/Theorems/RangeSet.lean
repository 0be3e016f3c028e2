import SaorsaTransport.RangeSet

/-! `insert` and `pop_min` on range sets: the ranges stay apart, and the offsets of the set are those
    that were added. Ranges kept apart may still be empty; `Canonical` sets hold no empty range. -/

namespace SaorsaTransport.RangeSet
open Library BTreeMap

def Mem (s : RangeSet) (o : Nat) : Prop := ∃ r ∈ s.ranges, InSpan r o

instance {s : RangeSet} {o : Nat} : Decidable (Mem s o) :=
  inferInstanceAs (Decidable (∃ r ∈ s.ranges.entries, InSpan r o))

/-- No range ends before it starts, and between two ranges there is a gap. -/
structure Separated (s : RangeSet) : Prop where
  le : ∀ r ∈ s.ranges, r.1 ≤ r.2
  gap : ∀ r ∈ s.ranges, ∀ q ∈ s.ranges, r.1 < q.1 → r.2 < q.1

structure Canonical (s : RangeSet) : Prop extends Separated s where
  lt : ∀ r ∈ s.ranges, r.1 < r.2

theorem separated_new : Separated new := ⟨by simp [new], by simp [new]⟩

theorem canonical_new : Canonical new := ⟨separated_new, by simp [new]⟩

theorem not_mem_new (o : Nat) : ¬Mem new o := by simp [Mem, new]

variable {s : RangeSet} {x : Nat × Nat} {p : Nat × Nat}

theorem Separated.subset {t : RangeSet} (h : Separated s) (hsub : ∀ r ∈ t.ranges, r ∈ s.ranges) : Separated t where
  le r hr := h.le r (hsub r hr)
  gap r hr q hq := h.gap r (hsub r hr) q (hsub q hq)

theorem Canonical.subset {s t : RangeSet} (h : Canonical s) (hsub : ∀ r ∈ t.ranges, r ∈ s.ranges) : Canonical t where
  toSeparated := h.toSeparated.subset hsub
  lt r hr := h.lt r (hsub r hr)

theorem mem_remove_sub {k : Nat} : ∀ r ∈ (s.ranges.remove k), r ∈ s.ranges :=
  fun _ hr => (mem_remove.mp hr).2

variable {o : Nat}

theorem Separated.eq_of_inSpan (h : Separated s) {r q : Nat × Nat} (hr : r ∈ s.ranges)
    (hq : q ∈ s.ranges) (hro : InSpan r o) (hqo : InSpan q o) : r = q := by
  obtain ⟨hr1, hr2⟩ := hro
  obtain ⟨hq1, hq2⟩ := hqo
  rcases lt_trichotomy r.1 q.1 with hlt | heq | hlt
  · have := h.gap r hr q hq hlt
    omega
  · exact eq_of_key hr hq heq
  have := h.gap q hq r hr hlt
  omega

theorem mem_split (hp : p ∈ s.ranges) (o : Nat) : Mem s o ↔ Mem ⟨s.ranges.remove p.1⟩ o ∨ InSpan p o := by
  constructor
  · rintro ⟨r, hr, hro⟩
    by_cases hk : r.1 = p.1
    · exact .inr (eq_of_key hr hp hk ▸ hro)
    · exact .inl ⟨r, mem_remove.mpr ⟨hk, hr⟩, hro⟩
  · rintro (⟨r, hr, hro⟩ | ho)
    · exact ⟨r, mem_remove_sub r hr, hro⟩
    · exact ⟨p, hp, ho⟩

theorem mem_insertEntry_iff (hx : ∀ r ∈ s.ranges, r.1 ≠ x.1) (o : Nat) :
    Mem ⟨s.ranges.insert x.1 x.2⟩ o ↔ Mem s o ∨ InSpan x o := by
  constructor
  · rintro ⟨r, hr, hro⟩
    rcases mem_insert.mp hr with rfl | ⟨-, hr⟩
    · exact .inr hro
    · exact .inl ⟨r, hr, hro⟩
  · rintro (⟨r, hr, hro⟩ | ho)
    · exact ⟨r, mem_insert.mpr (.inr ⟨hx r hr, hr⟩), hro⟩
    · exact ⟨x, mem_insert.mpr (.inl rfl), ho⟩

theorem Separated.insertEntry (h : Separated s) (hx : x.1 ≤ x.2)
    (hside : ∀ r ∈ s.ranges, r.2 < x.1 ∨ x.2 < r.1) : Separated ⟨s.ranges.insert x.1 x.2⟩ where
  le r hr := by
    rcases mem_insert.mp hr with rfl | ⟨-, hr⟩
    · exact hx
    · exact h.le r hr
  gap r hr q hq hlt := by
    rcases mem_insert.mp hr with rfl | ⟨-, hr⟩ <;> rcases mem_insert.mp hq with rfl | ⟨-, hq⟩
    · exact absurd hlt (lt_irrefl _)
    · have := h.le q hq
      rcases hside q hq with hs | hs
      · omega
      · exact hs
    · have := h.le r hr
      rcases hside r hr with hs | hs
      · exact hs
      · omega
    · exact h.gap r hr q hq hlt

def Beside (s : RangeSet) (x : Nat × Nat) : Prop := ∀ r ∈ s.ranges, r.2 < x.1 ∨ x.1 < r.1

/-- What the loop of `insert` leaves: a longer range with a gap on both sides, and the same offsets. -/
structure Absorbed (s : RangeSet) (x : Nat × Nat) (t : RangeSet) (y : Nat × Nat) : Prop where
  start : y.1 = x.1
  longer : x.2 ≤ y.2
  sub : ∀ r ∈ t.ranges, r ∈ s.ranges
  side : ∀ r ∈ t.ranges, r.2 < y.1 ∨ y.2 < r.1
  mem : ∀ o, Mem t o ∨ InSpan y o ↔ Mem s o ∨ InSpan x o

theorem inSpan_extend {next : Nat × Nat} (h₁ : x.1 ≤ next.1) (h₂ : next.1 ≤ x.2) :
    InSpan (x.1, max next.2 x.2) o ↔ InSpan next o ∨ InSpan x o := by
  simp only [InSpan]
  omega

theorem absorb_spec : ∀ {fuel : Nat} {s : RangeSet} {x : Nat × Nat}, s.len ≤ fuel → Separated s → x.1 ≤ x.2 →
    Beside s x → Absorbed s x (absorb fuel s x).1 (absorb fuel s x).2 := by
  intro fuel
  induction fuel with
  | zero =>
    intro s x hlen _ _ _
    -- A set without entries has no successor to absorb.
    have hnone : ∀ r, r ∉ s.ranges := fun r hr => by
      have := len_remove_lt hr
      have hlen : s.ranges.len = 0 := Nat.le_zero.mp hlen
      omega
    exact ⟨rfl, le_rfl, fun r hr => hr, fun r hr => absurd hr (hnone r), fun o => Iff.rfl⟩
  | succ fuel ih =>
    intro s x hlen hs hx hbeside
    unfold absorb
    cases hsucc : s.succ x.1 with
    | none =>
      refine ⟨rfl, le_rfl, fun r hr => hr, fun r hr => ?_, fun o => Iff.rfl⟩
      rcases hbeside r hr with hr' | hr'
      · exact .inl hr'
      · exact absurd (firstGT_eq_none hsucc r hr) (not_le.mpr hr')
    | some next =>
      obtain ⟨hnext, hgt, hleast⟩ := firstGT_eq_some hsucc
      by_cases hstop : x.2 < next.1
      · simp only [hstop, if_true]
        refine ⟨rfl, le_rfl, fun r hr => hr, fun r hr => ?_, fun o => Iff.rfl⟩
        rcases hbeside r hr with hr' | hr'
        · exact .inl hr'
        · exact .inr (hstop.trans_le (hleast r hr hr'))
      simp only [hstop, if_false]
      have hlt := len_remove_lt hnext
      have A := ih (s := ⟨s.ranges.remove next.1⟩) (x := (x.1, max next.2 x.2))
        (Nat.le_of_lt_succ (hlt.trans_le hlen)) (hs.subset mem_remove_sub)
        (hx.trans (le_max_right _ _)) (fun r hr => hbeside r (mem_remove_sub r hr))
      refine ⟨A.start, (le_max_right _ _).trans A.longer, fun r hr => mem_remove_sub r (A.sub r hr), A.side, fun o => ?_⟩
      rw [A.mem o, mem_split hnext o, inSpan_extend hgt.le (not_lt.mp hstop), or_assoc]

theorem Absorbed.insertEntry {s t : RangeSet} {x y : Nat × Nat} (hs : Separated s) (hx : x.1 ≤ x.2) (A : Absorbed s x t y) :
    Separated ⟨t.ranges.insert y.1 y.2⟩ ∧ ∀ o, Mem ⟨t.ranges.insert y.1 y.2⟩ o ↔ Mem s o ∨ InSpan x o := by
  have ht := hs.subset A.sub
  have hy : y.1 ≤ y.2 := A.start ▸ hx.trans A.longer
  refine ⟨ht.insertEntry hy A.side, fun o => ?_⟩
  rw [← A.mem o]
  refine mem_insertEntry_iff (fun r hr heq => ?_) o
  have := ht.le r hr
  have := A.side r hr
  omega

theorem insertFrom_spec (hs : Separated s) (hx : x.1 ≤ x.2) (hb : Beside s x) :
    Separated (s.insertFrom x) ∧ (∀ o, Mem (s.insertFrom x) o ↔ Mem s o ∨ InSpan x o) ∧
      ((∀ r ∈ s.ranges, r.1 < r.2) → x.1 < x.2 → ∀ r ∈ (s.insertFrom x).ranges, r.1 < r.2) := by
  have A := absorb_spec le_rfl hs hx hb
  unfold insertFrom
  generalize absorb s.len s x = p at A ⊢
  obtain ⟨h1, h2⟩ := A.insertEntry hs hx
  refine ⟨h1, h2, fun hlt hx' r hr => ?_⟩
  rcases mem_insert.mp hr with rfl | ⟨-, hr⟩
  · have hsta := A.start
    have hlonger := A.longer
    simp only at hsta hlonger ⊢
    omega
  · exact hlt r (A.sub r hr)

/-- Every other range ends before the predecessor starts, or starts after `o`. -/
theorem Separated.others (hs : Separated s) (hpred : s.pred o = some p) (r : Nat × Nat)
    (hr : r ∈ s.ranges) (hk : r.1 ≠ p.1) : r.2 < p.1 ∨ o < r.1 := by
  obtain ⟨hp, -, hgreat⟩ := lastLE_eq_some hpred
  by_cases hro : r.1 ≤ o
  · exact .inl (hs.gap r hr p hp (lt_of_le_of_ne (hgreat r hr hro) hk))
  · exact .inr (not_le.mp hro)

theorem Separated.beside (hs : Separated s) (hpred : s.pred x.1 = some p) (hlt : p.2 < x.1) : Beside s x := by
  obtain ⟨hp, hple, -⟩ := lastLE_eq_some hpred
  intro r hr
  by_cases hk : r.1 = p.1
  · rw [eq_of_key hr hp hk]
    exact .inl hlt
  · exact (hs.others hpred r hr hk).imp_left fun h => h.trans_le hple

theorem insert_spec (hs : Canonical s) : Canonical (s.insert x).1 ∧ ∀ o, Mem (s.insert x).1 o ↔ Mem s o ∨ InSpan x o := by
  unfold insert
  split
  · next hemp =>
    refine ⟨hs, fun o => ⟨.inl, fun h => h.resolve_right fun h => ?_⟩⟩
    exact not_inSpan hemp _ h
  next hne =>
  have hlt : x.1 < x.2 := not_le.mp hne
  cases hpred : s.pred x.1 with
  | none =>
    have hb : Beside s x := fun r hr => .inr (lastLE_eq_none hpred r hr)
    obtain ⟨h1, h2, h3⟩ := insertFrom_spec hs.toSeparated hlt.le hb
    exact ⟨⟨h1, h3 hs.lt hlt⟩, h2⟩
  | some p =>
    obtain ⟨hp, hple, -⟩ := lastLE_eq_some hpred
    dsimp only
    split
    · next hin =>
      refine ⟨hs, fun o => ⟨.inl, fun h => h.elim id fun ho => ⟨p, hp, ?_⟩⟩⟩
      exact ⟨hple.trans ho.1, ho.2.trans_le hin⟩
    next hin =>
    split
    · next htouch =>
      have hb : Beside ⟨s.ranges.remove p.1⟩ (p.1, x.2) := fun r hr => by
        obtain ⟨hk, hr⟩ := mem_remove.mp hr
        exact (hs.others hpred r hr hk).imp_right fun h => hple.trans_lt h
      have hc := hs.subset (t := ⟨s.ranges.remove p.1⟩) mem_remove_sub
      obtain ⟨h1, h2, h3⟩ := insertFrom_spec hc.toSeparated (show p.1 ≤ x.2 by omega) hb
      refine ⟨⟨h1, h3 hc.lt (show p.1 < x.2 by omega)⟩, fun o => ?_⟩
      rw [h2 o, mem_split hp o, or_assoc]
      refine or_congr_right ?_
      simp only [InSpan]
      omega
    next htouch =>
    have hb := hs.beside hpred (not_le.mp htouch)
    obtain ⟨h1, h2, h3⟩ := insertFrom_spec hs.toSeparated hlt.le hb
    exact ⟨⟨h1, h3 hs.lt hlt⟩, h2⟩

theorem popMin_spec {t : RangeSet} {r : Nat × Nat} (hs : Canonical s) (h : s.popMin = some (r, t)) :
    Canonical t ∧ r.1 < r.2 ∧ (∀ o, Mem s o ↔ Mem t o ∨ InSpan r o) ∧ ∀ o, Mem t o → r.2 < o := by
  unfold popMin peekMin at h
  cases hf : s.ranges.first with
  | none => rw [hf] at h; cases h
  | some q =>
    rw [hf] at h
    obtain ⟨rfl, rfl⟩ := Prod.mk.inj (Option.some.inj h)
    obtain ⟨hmem, hleast⟩ := first_eq_some hf
    refine ⟨hs.subset mem_remove_sub, hs.lt q hmem, mem_split hmem, fun o ho => ?_⟩
    obtain ⟨p, hp, hpo⟩ := ho
    obtain ⟨hk, hp⟩ := mem_remove.mp hp
    have hlt : q.1 < p.1 := (hleast p hp).lt_of_ne' hk
    exact (hs.gap q hmem p hp hlt).trans_le hpo.1

theorem popMin_of_min {k : Nat} (h : s.min = some k) : ∃ r t, s.popMin = some (r, t) ∧ r.1 = k := by
  obtain ⟨r, hr, rfl⟩ := Option.map_eq_some_iff.mp h
  exact ⟨r, _, by rw [popMin, peekMin, hr, Option.map_some], rfl⟩

theorem not_mem_of_popMin (h : s.popMin = none) (o : Nat) : ¬s.Mem o := by
  rintro ⟨r, hr, -⟩
  exact first_eq_none (Option.map_eq_none_iff.mp h) r hr

theorem cover_iter (hs : Separated s) (o : Nat) : cover s.iter o = mark (s.Mem o) := by
  have horder : s.iter.Pairwise (·.2 ≤ ·.1) := s.ranges.sorted.imp_of_mem fun hr hq hlt => (hs.gap _ hr _ hq hlt).le
  rw [← mark_of_le_one (cover_le_one_of_order horder)]
  exact mark_congr cover_pos_iff

/-! `insert_one`, `remove` and `contains` on range sets, and what the flags of the operations say: a flag is set
    exactly when an offset entered the set or left it. -/

variable {s t : RangeSet} {p x : Nat × Nat}

theorem Canonical.tidy (h : Canonical s) : Tidy s.iter :=
  ⟨h.lt, s.ranges.sorted.imp_of_mem fun hr hq hlt => h.gap _ hr _ hq hlt⟩

theorem contains_iff (hs : Separated s) : s.contains o = true ↔ s.Mem o := by
  unfold contains
  cases hpred : s.pred o with
  | none =>
    refine ⟨nofun, fun ⟨r, hr, hro⟩ => ?_⟩
    exact absurd hro.1 (not_le.mpr (lastLE_eq_none hpred r hr))
  | some p =>
    obtain ⟨hp, hple, hgreat⟩ := lastLE_eq_some hpred
    simp only [Option.any_some, decide_eq_true_eq]
    refine ⟨fun h => ⟨p, hp, hple, h⟩, fun ⟨r, hr, hro⟩ => ?_⟩
    rcases lt_or_ge r.1 p.1 with hlt | hge
    · have := hs.gap r hr p hp hlt
      exact absurd hro.2 (by omega)
    rw [← eq_of_key hr hp (le_antisymm (hgreat r hr hro.1) hge)]
    exact hro.2

theorem Canonical.not_mem_end (hs : Canonical s) (hp : p ∈ s.ranges) : ¬s.Mem p.2 := by
  rintro ⟨r, hr, hro⟩
  rcases lt_trichotomy r.1 p.1 with hlt | heq | hlt
  · have := hs.gap r hr p hp hlt
    have := hs.lt p hp
    exact absurd hro.2 (by omega)
  · rw [eq_of_key hr hp heq] at hro
    exact lt_irrefl _ hro.2
  · exact absurd hro.1 (by have := hs.gap p hp r hr hlt; omega)

theorem not_mem_of_pred (hs : Separated s) {x : Nat} (h : ∀ p, s.pred x = some p → p.2 ≤ x) : ¬s.Mem x := by
  rw [← contains_iff hs]
  unfold contains
  cases hpred : s.pred x with
  | none => simp
  | some p => simpa using h p hpred

theorem insert_flag (hs : Canonical s) : (s.insert x).2 = true ↔ ∃ o, InSpan x o ∧ ¬s.Mem o := by
  unfold insert
  split
  · next hemp =>
    refine ⟨nofun, fun ⟨o, ho, _⟩ => ?_⟩
    exact absurd ho (not_inSpan hemp _)
  next hne =>
  have hlt : x.1 < x.2 := not_le.mp hne
  have hsta : ¬s.Mem x.1 → ∃ o, InSpan x o ∧ ¬s.Mem o := fun h => ⟨x.1, ⟨le_rfl, hlt⟩, h⟩
  cases hpred : s.pred x.1 with
  | none => exact iff_of_true rfl (hsta (not_mem_of_pred hs.toSeparated fun p hp => by rw [hpred] at hp; cases hp))
  | some p =>
    obtain ⟨hp, hple, -⟩ := lastLE_eq_some hpred
    dsimp only
    split
    · next hin =>
      refine ⟨nofun, fun ⟨o, ho, hout⟩ => absurd ⟨p, hp, ?_⟩ hout⟩
      exact ⟨hple.trans ho.1, ho.2.trans_le hin⟩
    next hin =>
    split
    · next htouch =>
      exact iff_of_true rfl ⟨p.2, ⟨htouch, not_le.mp hin⟩, hs.not_mem_end hp⟩
    next htouch =>
    refine iff_of_true rfl (hsta (not_mem_of_pred hs.toSeparated fun q hq => ?_))
    obtain rfl : p = q := Option.some.inj (hpred.symm.trans hq)
    exact (not_le.mp htouch).le

/-- Joining the successor of `x` is what the loop of `insert` does for a range that ends behind `x`. -/
theorem joinNext_spec {start x : Nat} (hs : Separated s) (hx : x + 1 ≤ u64Max) (hsta : start ≤ x)
    (hside : ∀ r ∈ s.ranges, r.2 < start ∨ x < r.1) :
    Absorbed s (start, x + 1) (s.joinNext x).1 (start, (s.joinNext x).2) := by
  unfold joinNext
  rw [wrappingAdd_of_le hx]
  have hbeh : ∀ r ∈ s.ranges, s.succ x = none ∨ x + 1 < r.1 → r.2 < start ∨ x + 1 < r.1 := by
    rintro r hr (hnone | hlt)
    · exact (hside r hr).imp_right fun h => absurd h (not_lt.mpr (firstGT_eq_none hnone r hr))
    · exact .inr hlt
  cases hsucc : s.succ x with
  | none => exact ⟨rfl, le_rfl, fun r hr => hr, fun r hr => hbeh r hr (.inl hsucc), fun o => Iff.rfl⟩
  | some next =>
    obtain ⟨hnext, hgt, hleast⟩ := firstGT_eq_some hsucc
    dsimp only
    split
    · next heq =>
      have hle := hs.le next hnext
      refine ⟨rfl, heq ▸ hle, mem_remove_sub, fun r hr => ?_, fun o => ?_⟩
      · obtain ⟨hk, hr⟩ := mem_remove.mp hr
        refine (hside r hr).imp_right fun h => hs.gap next hnext r hr ?_
        exact (hleast r hr h).lt_of_ne' hk
      · rw [mem_split hnext o, or_assoc]
        refine or_congr_right ?_
        simp only [InSpan]
        omega
    next hne =>
    refine ⟨rfl, le_rfl, fun r hr => hr, fun r hr => (hside r hr).imp_right fun h => ?_, fun o => Iff.rfl⟩
    have := hleast r hr h
    simp only
    omega

theorem enterOne_spec {start x : Nat} (hs : Canonical s) (hx : x + 1 ≤ u64Max) (hsta : start ≤ x)
    (hside : ∀ r ∈ s.ranges, r.2 < start ∨ x < r.1) :
    Canonical (s.enterOne start x) ∧ ∀ o, Mem (s.enterOne start x) o ↔ Mem s o ∨ InSpan (start, x + 1) o := by
  have A := joinNext_spec hs.toSeparated hx hsta hside
  unfold enterOne
  generalize s.joinNext x = p at A ⊢
  obtain ⟨h1, h2⟩ := A.insertEntry hs.toSeparated (show start ≤ x + 1 by omega)
  refine ⟨⟨h1, fun r hr => ?_⟩, h2⟩
  rcases mem_insert.mp hr with rfl | ⟨-, hr⟩
  · have := A.longer
    omega
  · exact hs.lt r (A.sub r hr)

theorem insertOne_spec {x : Nat} (hs : Canonical s) (hx : x + 1 ≤ u64Max) :
    Canonical (s.insertOne x).1 ∧ (∀ o, Mem (s.insertOne x).1 o ↔ Mem s o ∨ InSpan (x, x + 1) o) ∧
      ((s.insertOne x).2 = true ↔ ∃ o, InSpan (x, x + 1) o ∧ ¬s.Mem o) := by
  have hin : InSpan (x, x + 1) x := ⟨le_rfl, lt_add_one _⟩
  unfold insertOne
  cases hpred : s.pred x with
  | none =>
    obtain ⟨h1, h2⟩ := enterOne_spec hs hx (le_refl x) fun r hr => .inr (lastLE_eq_none hpred r hr)
    exact ⟨h1, h2, iff_of_true rfl ⟨x, hin, not_mem_of_pred hs.toSeparated fun p hp => by rw [hpred] at hp; cases hp⟩⟩
  | some p =>
    obtain ⟨hp, hple, -⟩ := lastLE_eq_some hpred
    dsimp only
    split
    · next hlt =>
      have hall : ∀ o, InSpan (x, x + 1) o → s.Mem o := fun o ho => ⟨p, hp, hple.trans ho.1, by
        have := ho.2
        omega⟩
      exact ⟨hs, fun o => ⟨.inl, fun h => h.elim id (hall o)⟩, ⟨nofun, fun ⟨o, ho, hout⟩ => absurd (hall o ho) hout⟩⟩
    next hge =>
    have hout : ¬s.Mem x := not_mem_of_pred hs.toSeparated fun q hq => by
      obtain rfl : p = q := Option.some.inj (hpred.symm.trans hq)
      exact not_lt.mp hge
    split
    · next heq =>
      have hc := hs.subset (t := ⟨s.ranges.remove p.1⟩) mem_remove_sub
      obtain ⟨h1, h2⟩ := enterOne_spec hc hx hple fun r hr =>
        hs.others hpred r (mem_remove_sub r hr) (mem_remove.mp hr).1
      refine ⟨h1, fun o => ?_, iff_of_true rfl ⟨x, hin, hout⟩⟩
      rw [h2 o, mem_split hp o, or_assoc]
      refine or_congr_right ?_
      simp only [InSpan]
      omega
    next hne =>
    obtain ⟨h1, h2⟩ := enterOne_spec hs hx (le_refl x)
      (hs.beside (x := (x, x)) hpred (lt_of_le_of_ne (not_lt.mp hge) hne))
    exact ⟨h1, h2, iff_of_true rfl ⟨x, hin, hout⟩⟩

structure Cut (s : RangeSet) (x : Nat × Nat) (t : RangeSet) : Prop where
  lt : ∀ r ∈ t.ranges, r.1 < r.2
  outside : ∀ r ∈ t.ranges, r.2 ≤ x.1 ∨ x.2 ≤ r.1
  piece : ∀ r ∈ t.ranges, ∃ p ∈ s.ranges, (r.1 = p.1 ∨ r.1 = x.2) ∧ p.1 ≤ r.1 ∧ r.2 ≤ p.2
  mem : ∀ o, Mem t o ↔ Mem s o ∧ ¬InSpan x o

/-- Two pieces of one range have all of `x` between them, and the others keep the gaps of their ranges. -/
theorem Cut.canonical (hs : Canonical s) (hx : x.1 < x.2) (h : Cut s x t) : Canonical t where
  le r hr := (h.lt r hr).le
  gap r hr q hq hlt := by
    obtain ⟨p, hp, hrp, hp1, hp2⟩ := h.piece r hr
    obtain ⟨p', hp', hqp, hp1', hp2'⟩ := h.piece q hq
    have hq' := h.lt q hq
    rcases lt_trichotomy p.1 p'.1 with hpp | hpp | hpp
    · have := hs.gap p hp p' hp' hpp
      omega
    · have := h.outside r hr
      omega
    have := hs.gap p' hp' p hp hpp
    omega
  lt := h.lt

theorem Cut.refl (hs : Canonical s) (h : ∀ r ∈ s.ranges, r.2 ≤ x.1 ∨ x.2 ≤ r.1) : Cut s x s where
  lt := hs.lt
  outside := h
  piece r hr := ⟨r, hr, .inl rfl, le_rfl, le_rfl⟩
  mem o := ⟨fun ho => ⟨ho, fun hx => by
    obtain ⟨r, hr, hro⟩ := ho
    have := h r hr
    simp only [InSpan] at hro hx
    omega⟩, And.left⟩

theorem Cut.of_shorter {u : RangeSet} (hpiece : ∀ q ∈ t.ranges, ∃ p ∈ s.ranges, q.1 = p.1 ∧ q.2 ≤ p.2)
    (hmem : ∀ o, ¬InSpan x o → (Mem t o ↔ Mem s o)) (h : Cut t x u) : Cut s x u where
  lt := h.lt
  outside := h.outside
  piece r hr := by
    obtain ⟨q, hq, hrq, hle, hle'⟩ := h.piece r hr
    obtain ⟨p, hp, heq, hend⟩ := hpiece q hq
    exact ⟨p, hp, heq ▸ hrq, heq ▸ hle, hle'.trans hend⟩
  mem o := by
    rw [h.mem o]
    exact and_congr_left (hmem o)

theorem Cut.of_remove (hp : p ∈ s.ranges) (h₁ : x.1 ≤ p.1) (h₂ : p.2 ≤ x.2)
    (h : Cut ⟨s.ranges.remove p.1⟩ x t) : Cut s x t := by
  refine h.of_shorter (fun q hq => ⟨q, mem_remove_sub q hq, rfl, le_rfl⟩) fun o hout => ?_
  have hnot : ¬InSpan p o := fun ho => hout ⟨h₁.trans ho.1, ho.2.trans_le h₂⟩
  exact ((mem_split hp o).trans (or_iff_left hnot)).symm

theorem removeAfter_spec : ∀ {fuel : Nat} {s : RangeSet} {x : Nat × Nat}, s.len ≤ fuel → Canonical s → x.1 < x.2 →
    (∀ r ∈ s.ranges, r.2 ≤ x.1 ∨ x.1 < r.1) → Cut s x (removeAfter fuel s x).1 ∧
      ((removeAfter fuel s x).2 = true ↔ ∃ o, InSpan x o ∧ s.Mem o) := by
  intro fuel
  induction fuel with
  | zero =>
    intro s x hlen hs _ _
    have hnone : ∀ r, r ∉ s.ranges := fun r hr => by
      have := len_remove_lt hr
      have hlen : s.ranges.len = 0 := Nat.le_zero.mp hlen
      omega
    refine ⟨Cut.refl hs fun r hr => absurd hr (hnone r), ⟨nofun, ?_⟩⟩
    rintro ⟨o, -, r, hr, -⟩
    exact absurd hr (hnone r)
  | succ fuel ih =>
    intro s x hlen hs hx hside
    unfold removeAfter
    -- Without a successor that starts inside `x` there is nothing to take out.
    have hqt : (∀ r ∈ s.ranges, x.1 < r.1 → x.2 ≤ r.1) → Cut s x s ∧ ((false : Bool) = true ↔ ∃ o, InSpan x o ∧ s.Mem o) := by
      intro hall
      have hc := Cut.refl hs fun r hr => (hside r hr).imp_right (hall r hr)
      refine ⟨hc, ⟨nofun, ?_⟩⟩
      rintro ⟨o, ho, hmem⟩
      exact absurd ho ((hc.mem o).mp hmem).2
    cases hsucc : s.succ x.1 with
    | none => exact hqt fun r hr h => absurd (firstGT_eq_none hsucc r hr) (not_le.mpr h)
    | some r =>
      obtain ⟨hr, hgt, hleast⟩ := firstGT_eq_some hsucc
      have hrlt := hs.lt r hr
      dsimp only
      split
      · next hstop => exact hqt fun q hq h => hstop.trans (hleast q hq h)
      next hin =>
      have hhit : ∃ o, InSpan x o ∧ s.Mem o :=
        ⟨r.1, ⟨hgt.le, not_le.mp hin⟩, r, hr, le_rfl, hrlt⟩
      have hc := hs.subset (t := ⟨s.ranges.remove r.1⟩) mem_remove_sub
      split
      · next hlong =>
        refine ⟨?_, iff_of_true rfl hhit⟩
        -- The ranges behind the successor start behind its end.
        have hoth : ∀ q ∈ s.ranges, q.1 ≠ r.1 → q.2 ≤ x.1 ∨ r.2 < q.1 := fun q hq hk =>
          (hside q hq).imp_right fun h => hs.gap r hr q hq ((hleast q hq h).lt_of_ne' hk)
        refine ⟨fun q hq => ?_, fun q hq => ?_, fun q hq => ?_, fun o => ?_⟩
        · rcases mem_insert.mp hq with rfl | ⟨-, hq⟩
          · exact hlong
          · exact hc.lt q hq
        · rcases mem_insert.mp hq with rfl | ⟨-, hq⟩
          · exact .inr le_rfl
          obtain ⟨hk, hq⟩ := mem_remove.mp hq
          exact (hoth q hq hk).imp_right fun h => (hlong.trans h).le
        · rcases mem_insert.mp hq with rfl | ⟨-, hq⟩
          · exact ⟨r, hr, .inr rfl, (not_le.mp hin).le, le_rfl⟩
          · exact ⟨q, mem_remove_sub q hq, .inl rfl, le_rfl, le_rfl⟩
        · have hkey : ∀ q ∈ (s.ranges.remove r.1), q.1 ≠ x.2 := fun q hq => by
            obtain ⟨hk, hq⟩ := mem_remove.mp hq
            have := hoth q hq hk
            have := hs.lt q hq
            omega
          rw [mem_insertEntry_iff (s := ⟨s.ranges.remove r.1⟩) (x := (x.2, r.2)) hkey o, mem_split hr o]
          constructor
          · rintro (ho | ho)
            · refine ⟨.inl ho, fun hxo => ?_⟩
              obtain ⟨q, hq, hqo⟩ := ho
              obtain ⟨hk, hq⟩ := mem_remove.mp hq
              have := hoth q hq hk
              simp only [InSpan] at hqo hxo
              omega
            · simp only [InSpan] at ho ⊢
              omega
          · rintro ⟨ho | ho, hout⟩
            · exact .inl ho
            · refine .inr ?_
              simp only [InSpan] at ho hout ⊢
              omega
      next hshort =>
      have hlt := len_remove_lt hr
      obtain ⟨hcut, -⟩ := ih (s := ⟨s.ranges.remove r.1⟩) (Nat.le_of_lt_succ (hlt.trans_le hlen)) hc hx
        fun q hq => hside q (mem_remove_sub q hq)
      exact ⟨Cut.of_remove hr hgt.le (not_lt.mp hshort) hcut, iff_of_true rfl hhit⟩

section
variable (hs : Canonical s)
include hs

section
variable (hp : p ∈ s.ranges) (hpx : p.1 ≤ x.1)
include hp hpx

theorem mem_trim {r : Nat × Nat}
    (hx : x.1 < x.2) : r ∈ (s.trim p x).ranges ↔
      r = (p.1, x.1) ∧ p.1 < x.1 ∨ r = (x.2, p.2) ∧ x.2 < p.2 ∨ r ∈ s.ranges ∧ r.1 ≠ p.1 := by
  -- No other range starts inside `p`, so neither entry replaces one that is to stay.
  have hkey : ∀ q ∈ s.ranges, q.1 ≠ p.1 → x.2 < p.2 → q.1 ≠ x.2 := fun q hq hk hlt => by
    rcases lt_or_gt_of_ne hk with h | h
    · omega
    have := hs.gap p hp q hq h
    omega
  unfold trim
  by_cases h₁ : p.1 < x.1 <;> by_cases h₂ : x.2 < p.2 <;>
    simp only [h₁, h₂, if_true, if_false, mem_insert, mem_remove, and_true, and_false, false_or]
  · constructor
    · rintro (h | ⟨-, h | ⟨-, hk, hr⟩⟩)
      · exact .inr (.inl h)
      · exact .inl h
      · exact .inr (.inr ⟨hr, hk⟩)
    · rintro (rfl | rfl | ⟨hr, hk⟩)
      · exact .inr ⟨show p.1 ≠ x.2 by omega, .inl rfl⟩
      · exact .inl rfl
      · exact .inr ⟨hkey r hr hk h₂, .inr ⟨hk, hk, hr⟩⟩
  · exact ⟨fun h => h.imp_right fun ⟨_, hk, hr⟩ => ⟨hr, hk⟩, fun h => h.imp_right fun ⟨hr, hk⟩ => ⟨hk, hk, hr⟩⟩
  · exact ⟨fun h => h.imp_right fun ⟨_, hk, hr⟩ => ⟨hr, hk⟩, fun h => h.imp_right fun ⟨hr, hk⟩ => ⟨hkey r hr hk h₂, hk, hr⟩⟩
  · exact and_comm

theorem mem_trim_iff
    (hxp : x.1 < p.2) (hx : x.1 < x.2) (o : Nat) : Mem (s.trim p x) o ↔ Mem s o ∧ ¬(InSpan x o ∧ InSpan p o) := by
  constructor
  · rintro ⟨r, hr, hro⟩
    rcases (mem_trim hs hp hpx hx).mp hr with ⟨rfl, h⟩ | ⟨rfl, h⟩ | ⟨hr, hk⟩
    · refine ⟨⟨p, hp, ?_⟩, ?_⟩ <;> simp only [InSpan] at hro ⊢ <;> omega
    · refine ⟨⟨p, hp, ?_⟩, ?_⟩ <;> simp only [InSpan] at hro ⊢ <;> omega
    refine ⟨⟨r, hr, hro⟩, fun h => hk ?_⟩
    rw [hs.toSeparated.eq_of_inSpan hr hp hro h.2]
  · rintro ⟨⟨r, hr, hro⟩, hout⟩
    by_cases hk : r.1 = p.1
    · rw [eq_of_key hr hp hk] at hro
      by_cases hlow : o < x.1
      · exact ⟨(p.1, x.1), (mem_trim hs hp hpx hx).mpr (.inl ⟨rfl, hro.1.trans_lt hlow⟩), hro.1, hlow⟩
      have hge : x.2 ≤ o := by
        by_contra hlt
        exact hout ⟨⟨not_lt.mp hlow, not_le.mp hlt⟩, hro⟩
      exact ⟨(x.2, p.2), (mem_trim hs hp hpx hx).mpr (.inr (.inl ⟨rfl, hge.trans_lt hro.2⟩)), hge, hro.2⟩
    · exact ⟨r, (mem_trim hs hp hpx hx).mpr (.inr (.inr ⟨hr, hk⟩)), hro⟩

theorem cut_trim (hxp : x.1 < p.2) (hx : x.1 < x.2) (hin : x.2 ≤ p.2) : Cut s x (s.trim p x) where
  lt r hr := by
    rcases (mem_trim hs hp hpx hx).mp hr with ⟨rfl, h⟩ | ⟨rfl, h⟩ | ⟨hr, -⟩
    · exact h
    · exact h
    · exact hs.lt r hr
  outside r hr := by
    rcases (mem_trim hs hp hpx hx).mp hr with ⟨rfl, -⟩ | ⟨rfl, -⟩ | ⟨hr, hk⟩
    · exact .inl le_rfl
    · exact .inr le_rfl
    rcases lt_or_gt_of_ne hk with h | h
    · have := hs.gap r hr p hp h
      omega
    have := hs.gap p hp r hr h
    omega
  piece r hr := by
    rcases (mem_trim hs hp hpx hx).mp hr with ⟨rfl, h⟩ | ⟨rfl, h⟩ | ⟨hr, -⟩
    · exact ⟨p, hp, .inl rfl, le_rfl, hxp.le⟩
    · exact ⟨p, hp, .inr rfl, show p.1 ≤ x.2 by omega, le_rfl⟩
    · exact ⟨r, hr, .inl rfl, le_rfl, le_rfl⟩
  mem o := by
    rw [mem_trim_iff hs hp hpx hxp hx o]
    refine and_congr_right fun _ => not_congr ⟨And.left, fun ho => ⟨ho, ?_⟩⟩
    exact ⟨hpx.trans ho.1, ho.2.trans_le hin⟩

theorem mem_trim_shorter {r : Nat × Nat} (hx : x.1 < x.2) (hout : p.2 < x.2) (hr : r ∈ (s.trim p x).ranges) :
    r = (p.1, x.1) ∧ p.1 < x.1 ∨ r ∈ s.ranges ∧ r.1 ≠ p.1 := by
  rcases (mem_trim hs hp hpx hx).mp hr with h | ⟨-, h⟩ | h
  · exact .inl h
  · exact absurd h (lt_asymm hout)
  · exact .inr h

theorem canonical_trim (hxp : x.1 < p.2) (hx : x.1 < x.2) (hout : p.2 < x.2) :
    Canonical (s.trim p x) ∧ ∀ q ∈ (s.trim p x).ranges, ∃ r ∈ s.ranges, q.1 = r.1 ∧ q.2 ≤ r.2 := by
  have hpiece : ∀ q ∈ (s.trim p x).ranges, ∃ r ∈ s.ranges, q.1 = r.1 ∧ q.2 ≤ r.2 := fun q hq => by
    rcases mem_trim_shorter hs hp hpx hx hout hq with ⟨rfl, -⟩ | ⟨hq, -⟩
    · exact ⟨p, hp, rfl, hxp.le⟩
    · exact ⟨q, hq, rfl, le_rfl⟩
  have hlt : ∀ q ∈ (s.trim p x).ranges, q.1 < q.2 := fun q hq => by
    rcases mem_trim_shorter hs hp hpx hx hout hq with ⟨rfl, h⟩ | ⟨hq, -⟩
    · exact h
    · exact hs.lt q hq
  refine ⟨⟨⟨fun q hq => (hlt q hq).le, fun q hq q' hq' h => ?_⟩, hlt⟩, hpiece⟩
  obtain ⟨r, hr, heq, hend⟩ := hpiece q hq
  obtain ⟨r', hr', heq', -⟩ := hpiece q' hq'
  have := hs.gap r hr r' hr' (by omega)
  omega

end

theorem remove_spec :
    Canonical (s.remove x).1 ∧ (∀ o, Mem (s.remove x).1 o ↔ Mem s o ∧ ¬InSpan x o) ∧
      ((s.remove x).2 = true ↔ ∃ o, InSpan x o ∧ s.Mem o) := by
  unfold remove
  split
  · next hemp =>
    have hnone := not_inSpan hemp
    exact ⟨hs, fun o => (and_iff_left (hnone o)).symm, ⟨nofun, fun ⟨o, ho, _⟩ => absurd ho (hnone o)⟩⟩
  next hne =>
  have hlt : x.1 < x.2 := not_le.mp hne
  -- What the loop does when no range reaches over the start of `x`.
  have hloop : (∀ r ∈ s.ranges, r.2 ≤ x.1 ∨ x.1 < r.1) → Canonical (removeAfter s.len s x).1 ∧
      (∀ o, Mem (removeAfter s.len s x).1 o ↔ Mem s o ∧ ¬InSpan x o) ∧
        ((removeAfter s.len s x).2 = true ↔ ∃ o, InSpan x o ∧ s.Mem o) := fun hside => by
    obtain ⟨hcut, hflag⟩ := removeAfter_spec le_rfl hs hlt hside
    exact ⟨hcut.canonical hs hlt, hcut.mem, hflag⟩
  cases hpred : s.pred x.1 with
  | none => exact hloop fun r hr => .inr (lastLE_eq_none hpred r hr)
  | some p =>
    obtain ⟨hp, hple, hgreat⟩ := lastLE_eq_some hpred
    dsimp only
    have hoth : ∀ r ∈ s.ranges, r.1 ≠ p.1 → r.2 ≤ x.1 ∨ x.1 < r.1 := fun r hr hk => by
      by_cases hrx : r.1 ≤ x.1
      · have := hs.gap r hr p hp (lt_of_le_of_ne (hgreat r hr hrx) hk)
        exact .inl (this.le.trans hple)
      · exact .inr (not_le.mp hrx)
    split
    · next hover =>
      have hhit : ∃ o, InSpan x o ∧ s.Mem o := ⟨x.1, ⟨le_rfl, hlt⟩, p, hp, hple, hover⟩
      split
      · next hin =>
        have hcut := cut_trim hs hp hple hover hlt hin
        exact ⟨hcut.canonical hs hlt, hcut.mem, iff_of_true rfl hhit⟩
      next hout =>
      have hout : p.2 < x.2 := not_le.mp hout
      obtain ⟨hc, hpiece⟩ := canonical_trim hs hp hple hover hlt hout
      obtain ⟨hcut, -⟩ := removeAfter_spec le_rfl hc hlt fun r hr => by
        rcases mem_trim_shorter hs hp hple hlt hout hr with ⟨rfl, -⟩ | ⟨hr, hk⟩
        · exact .inl le_rfl
        · exact hoth r hr hk
      have hcut := hcut.of_shorter hpiece fun o ho => by
        rw [mem_trim_iff hs hp hple hover hlt o, and_iff_left fun h => ho h.1]
      exact ⟨hcut.canonical hs hlt, hcut.mem, iff_of_true rfl hhit⟩
    next hover =>
    refine hloop fun r hr => ?_
    by_cases hk : r.1 = p.1
    · rw [eq_of_key hr hp hk]
      exact .inl (not_lt.mp hover)
    · exact hoth r hr hk

end

/-! `replace`: which overlaps its iterator reports and what it leaves in the set. The iterator takes a range that starts
    where its predecessor ended, or an empty one, for the end of the overlaps. `Clear` says that nothing is left behind
    such a range; under it the report is exact. -/

open List

/-- Behind an empty range strictly inside `x`, no other range starts inside `x`. -/
def Clear (s : RangeSet) (x : Nat × Nat) : Prop :=
  ∀ r ∈ s.ranges, r.1 = r.2 → x.1 < r.1 → r.1 < x.2 → ∀ q ∈ s.ranges, r.1 < q.1 → x.2 ≤ q.1

instance {s : RangeSet} {x : Nat × Nat} : Decidable (Clear s x) :=
  inferInstanceAs (Decidable (∀ r ∈ s.ranges.entries, r.1 = r.2 → x.1 < r.1 → r.1 < x.2 →
    ∀ q ∈ s.ranges.entries, r.1 < q.1 → x.2 ≤ q.1))

variable {s : RangeSet} {x : Nat × Nat} {ds : List (Nat × Nat)}

/-- The ranges `ds` are the parts of `x` that `s` holds, in order. -/
structure Overlaps (s : RangeSet) (x : Nat × Nat) (ds : List (Nat × Nat)) : Prop where
  inside : ∀ d ∈ ds, x.1 ≤ d.1 ∧ d.1 < d.2 ∧ d.2 ≤ x.2
  order : ds.Pairwise (·.2 ≤ ·.1)
  exact_ : ∀ o, (∃ d ∈ ds, InSpan d o) ↔ Mem s o ∧ InSpan x o

theorem Overlaps.nil {s : RangeSet} {x : Nat × Nat} (h : ∀ o, ¬(Mem s o ∧ InSpan x o)) : Overlaps s x [] where
  inside d hd := by cases hd
  order := List.Pairwise.nil
  exact_ o := ⟨fun ⟨_, hd, _⟩ => absurd hd not_mem_nil, fun ho => absurd ho (h o)⟩

structure Scanned (s : RangeSet) (x : Nat × Nat) (ds : List (Nat × Nat)) (it : Replace) : Prop where
  pred : it.pred = none
  start : it.range.1 = x.1
  longer : x.2 ≤ it.range.2
  sub : ∀ r ∈ it.set.ranges, r ∈ s.ranges
  side : ∀ r ∈ it.set.ranges, r.2 < x.1 ∨ it.range.2 ≤ r.1
  mem : ∀ o, Mem it.set o ∨ InSpan it.range o ↔ Mem s o ∨ InSpan x o
  overlaps : Overlaps s x ds

theorem no_overlap (h : ∀ r ∈ s.ranges, r.2 < x.1 ∨ x.2 ≤ r.1 ∨ r.1 = r.2) (o : Nat) : ¬(Mem s o ∧ InSpan x o) := by
  rintro ⟨⟨r, hr, hro⟩, hxo⟩
  obtain ⟨h1, h2⟩ := hro
  obtain ⟨h3, h4⟩ := hxo
  have := h r hr
  omega

theorem Clear.absorbed {next : Nat × Nat} (hs : Separated s) (hc : Clear s x) (hn : next ∈ s.ranges)
    (hleast : ∀ q ∈ s.ranges, x.1 < q.1 → next.1 ≤ q.1) : Clear ⟨s.ranges.remove next.1⟩ (x.1, max x.2 next.2) := by
  intro r hr he hr1 hr2 q hq hrq
  obtain ⟨hkr, hr⟩ := mem_remove.mp hr
  obtain ⟨hkq, hq⟩ := mem_remove.mp hq
  have hlt := (hleast r hr hr1).lt_of_ne' hkr
  have hgap := hs.gap next hn r hr hlt
  have hin : r.1 < x.2 := by omega
  have := hc r hr he hr1 hin q hq hrq
  have := hs.gap next hn q hq (Nat.lt_trans hlt hrq)
  omega

/-- A part in front of the overlaps of the rest `t` with `y`, which all lie behind it and inside `x`. -/
theorem Overlaps.prepend {t : RangeSet} {d y : Nat × Nat} (h : Overlaps t y ds)
    (hd : x.1 ≤ d.1 ∧ d.1 ≤ d.2 ∧ d.2 ≤ x.2) (hlater : ∀ o, Mem t o → InSpan y o → d.2 ≤ o ∧ InSpan x o)
    (hxy : ∀ o, InSpan x o → InSpan y o) (hmem : ∀ o, InSpan x o → (Mem s o ↔ Mem t o ∨ InSpan d o)) :
    Overlaps s x ((if d.1 ≠ d.2 then [d] else []) ++ ds) := by
  have hin : ∀ o, (∃ e ∈ ds, InSpan e o) → d.2 ≤ o ∧ InSpan x o := fun o ho =>
    hlater o ((h.exact_ o).mp ho).1 ((h.exact_ o).mp ho).2
  have hds : ∀ e ∈ ds, d.2 ≤ e.1 ∧ x.1 ≤ e.1 ∧ e.1 < e.2 ∧ e.2 ≤ x.2 := fun e he => by
    obtain ⟨-, hlt, -⟩ := h.inside e he
    obtain ⟨hfst, hx, -⟩ := hin e.1 ⟨e, he, le_rfl, hlt⟩
    obtain ⟨-, -, hlast⟩ := hin (e.2 - 1) ⟨e, he, by omega, by omega⟩
    exact ⟨hfst, hx, hlt, by omega⟩
  have hall : ∀ o, InSpan d o ∨ (∃ e ∈ ds, InSpan e o) ↔ Mem s o ∧ InSpan x o := fun o => by
    constructor
    · rintro (ho | ho)
      · have hx : InSpan x o := ⟨hd.1.trans ho.1, ho.2.trans_le hd.2.2⟩
        exact ⟨(hmem o hx).mpr (.inr ho), hx⟩
      · have hx := (hin o ho).2
        exact ⟨(hmem o hx).mpr (.inl ((h.exact_ o).mp ho).1), hx⟩
    · rintro ⟨hm, hx⟩
      exact ((hmem o hx).mp hm).symm.imp_right fun hm => (h.exact_ o).mpr ⟨hm, hxy o hx⟩
  by_cases hne : d.1 ≠ d.2
  · rw [if_pos hne, singleton_append]
    refine ⟨forall_mem_cons.mpr ⟨⟨hd.1, hd.2.1.lt_of_ne hne, hd.2.2⟩, fun e he => (hds e he).2⟩,
      pairwise_cons.mpr ⟨fun e he => (hds e he).1, h.order⟩, fun o => ?_⟩
    rw [← hall o, exists_mem_cons_iff]
  rw [if_neg hne, nil_append]
  refine ⟨fun e he => (hds e he).2, h.order, fun o => ?_⟩
  rw [← hall o, or_iff_right (not_inSpan (not_not.mp hne).ge o)]

theorem Overlaps.cons {next : Nat × Nat} (hs : Separated s)
    (hb : Beside s x) (hn : next ∈ s.ranges) (hgt : x.1 < next.1) (hleast : ∀ q ∈ s.ranges, x.1 < q.1 → next.1 ≤ q.1)
    (hne : next.1 ≠ min x.2 next.2) (hle : next.1 ≤ x.2)
    (h : Overlaps ⟨s.ranges.remove next.1⟩ (x.1, max x.2 next.2) ds) :
    Overlaps s x ((next.1, min x.2 next.2) :: ds) := by
  have hnext := hs.le next hn
  have O := h.prepend (s := s) (x := x) (d := (next.1, min x.2 next.2)) ⟨hgt.le, le_min hle hnext, min_le_left _ _⟩ ?_
    (fun o ho => ⟨ho.1, ho.2.trans_le (le_max_left _ _)⟩) fun o hx => (mem_split hn o).trans (or_congr_right
      ⟨fun ho => ⟨ho.1, lt_min hx.2 ho.2⟩, fun ho => ⟨ho.1, ho.2.trans_le (min_le_right _ _)⟩⟩)
  · rwa [if_pos hne] at O
  -- An offset of a later overlap lies behind `next`, hence inside `x` as it was.
  rintro o ⟨r, hr, hro⟩ ⟨ho1, ho2⟩
  obtain ⟨hk, hr⟩ := mem_remove.mp hr
  obtain ⟨hr1, hr2⟩ := hro
  have haft : next.2 < r.1 := by
    rcases hb r hr with hbr | hbr
    · omega
    · exact hs.gap next hn r hr ((hleast r hr hbr).lt_of_ne' hk)
  exact ⟨by omega, by omega, by omega⟩

/-- The induction is on the fuel, which bounds the ranges left in the set. -/
theorem collect_spec : ∀ (fuel : Nat) {s : RangeSet} {x : Nat × Nat}, s.len + 1 ≤ fuel → Separated s → x.1 ≤ x.2 →
    Beside s x → Clear s x →
    Scanned s x ((⟨s, x, none⟩ : Replace).collect fuel).1 ((⟨s, x, none⟩ : Replace).collect fuel).2 := by
  intro fuel
  induction fuel with
  | zero => intro s x hlen; omega
  | succ fuel ih =>
    intro s x hlen hs hx hb hc
    unfold Replace.collect Replace.next
    cases hsucc : s.succ x.1 with
    | none =>
      have hpre : ∀ r ∈ s.ranges, r.2 < x.1 := fun r hr =>
        (hb r hr).resolve_right fun h => absurd (firstGT_eq_none hsucc r hr) (not_le.mpr h)
      exact ⟨rfl, rfl, le_rfl, fun r hr => hr, fun r hr => .inl (hpre r hr), fun o => Iff.rfl,
        Overlaps.nil (no_overlap fun r hr => .inl (hpre r hr))⟩
    | some next =>
      obtain ⟨hnext, hgt, hleast⟩ := firstGT_eq_some hsucc
      dsimp only
      by_cases hstop : x.2 < next.1
      · rw [if_pos hstop]
        have hfar : ∀ r ∈ s.ranges, r.2 < x.1 ∨ x.2 ≤ r.1 := fun r hr =>
          (hb r hr).imp_right fun h => (hstop.trans_le (hleast r hr h)).le
        exact ⟨rfl, rfl, le_rfl, fun r hr => hr, hfar, fun o => Iff.rfl,
          Overlaps.nil (no_overlap fun r hr => (hfar r hr).imp_right .inl)⟩
      rw [if_neg hstop]
      have hle := not_lt.mp hstop
      have hlt := len_remove_lt hnext
      have hbeside : Beside ⟨s.ranges.remove next.1⟩ (x.1, max x.2 next.2) :=
        fun r hr => hb r (mem_remove_sub r hr)
      have hsub := hs.subset (t := ⟨s.ranges.remove next.1⟩) mem_remove_sub
      have hmem : ∀ o, Mem ⟨s.ranges.remove next.1⟩ o ∨ InSpan (x.1, max x.2 next.2) o ↔ Mem s o ∨ InSpan x o := by
        intro o
        rw [max_comm, mem_split hnext o, inSpan_extend hgt.le hle, or_assoc]
      by_cases hend : next.1 = min x.2 next.2
      · rw [if_pos hend]
        -- `next` touches the end of `x`, or is empty; in both cases nothing else starts inside `x`.
        have hfar : ∀ r ∈ s.ranges, r.1 ≠ next.1 → r.2 < x.1 ∨ max x.2 next.2 ≤ r.1 := fun r hr hk => by
          rcases hb r hr with h | h
          · exact .inl h
          have hlt' := (hleast r hr h).lt_of_ne' hk
          have hgap := hs.gap next hnext r hr hlt'
          by_cases hin : next.1 < x.2
          · have := hc next hnext (by omega) hgt hin r hr hlt'
            exact .inr (by omega)
          · exact .inr (by omega)
        refine ⟨rfl, rfl, le_max_left _ _, mem_remove_sub, fun r hr => ?_, hmem, Overlaps.nil (no_overlap fun r hr => ?_)⟩
        · obtain ⟨hk, hr⟩ := mem_remove.mp hr
          exact hfar r hr hk
        · by_cases hk : r.1 = next.1
          · rw [eq_of_key hr hnext hk]
            omega
          · exact (hfar r hr hk).imp_right fun h => .inl (by omega)
      rw [if_neg hend]
      have S := ih (s := ⟨s.ranges.remove next.1⟩) (x := (x.1, max x.2 next.2))
        (Nat.le_of_lt_succ ((Nat.succ_lt_succ hlt).trans_le hlen)) hsub
        (hx.trans (le_max_left _ _)) hbeside (hc.absorbed hs hnext hleast)
      exact ⟨S.pred, S.start, (le_max_left _ _).trans S.longer, fun r hr => mem_remove_sub r (S.sub r hr),
        S.side, fun o => (S.mem o).trans (hmem o),
        Overlaps.cons hs hb hnext hgt hleast hend hle S.overlaps⟩

/-- Where nothing starts strictly inside `x`, one step of the iterator absorbs what touches its end. -/
theorem collect_settled (fuel : Nat) (hs : Separated s) (hb : Beside s x)
    (hfar : ∀ r ∈ s.ranges, r.2 < x.1 ∨ x.2 ≤ r.1) : Absorbed s x ((⟨s, x, none⟩ : Replace).collect (fuel + 1)).2.set
      ((⟨s, x, none⟩ : Replace).collect (fuel + 1)).2.range := by
  unfold Replace.collect Replace.next
  cases hsucc : s.succ x.1 with
  | none =>
    refine ⟨rfl, le_rfl, fun r hr => hr, fun r hr => ?_, fun o => Iff.rfl⟩
    exact .inl ((hb r hr).resolve_right fun h =>
      absurd (firstGT_eq_none hsucc r hr) (not_le.mpr h))
  | some next =>
    obtain ⟨hnext, hgt, hleast⟩ := firstGT_eq_some hsucc
    have hle := hs.le next hnext
    dsimp only
    by_cases hstop : x.2 < next.1
    · rw [if_pos hstop]
      exact ⟨rfl, le_rfl, fun r hr => hr, fun r hr =>
        (hb r hr).imp_right fun h => hstop.trans_le (hleast r hr h), fun o => Iff.rfl⟩
    have hfar' := hfar next hnext
    rw [if_neg hstop, if_pos (by omega)]
    refine ⟨rfl, le_max_left _ _, mem_remove_sub, fun r hr => ?_, fun o => ?_⟩
    · obtain ⟨hk, hr⟩ := mem_remove.mp hr
      refine (hb r hr).imp_right fun h => ?_
      have := hs.gap next hnext r hr ((hleast r hr h).lt_of_ne' hk)
      simp only
      omega
    · rw [max_comm, mem_split hnext o, inSpan_extend hgt.le (not_lt.mp hstop), or_assoc]

theorem drop_spec {it : Replace} (hs : Separated s) (hx : x.1 ≤ x.2) (hb : Beside s x) (S : Scanned s x ds it) :
    Separated it.drop ∧ ∀ o, Mem it.drop o ↔ Mem s o ∨ InSpan x o := by
  obtain ⟨set, y, pred⟩ := it
  obtain ⟨hpred, hsta, hlonger, hsub, hside, hmem, -⟩ := S
  subst hpred
  have hset := hs.subset hsub
  have A := collect_settled (set.len + 1) hset (x := y) (fun r hr => hsta ▸ hb r (hsub r hr))
    (fun r hr => hsta ▸ hside r hr)
  obtain ⟨h1, h2⟩ := A.insertEntry hset (hsta ▸ hx.trans hlonger)
  exact ⟨h1, fun o => (h2 o).trans (hmem o)⟩

structure Replaced (s : RangeSet) (x : Nat × Nat) (ds : List (Nat × Nat)) (t : RangeSet) : Prop where
  overlaps : Overlaps s x ds
  separated : Separated t
  mem : ∀ o, Mem t o ↔ Mem s o ∨ InSpan x o

theorem Overlaps.pred {p : Nat × Nat} (hs : Separated s) (hp : p ∈ s.ranges)
    (hx : x.1 ≤ x.2) (hle : p.1 ≤ x.1) (htouch : x.1 ≤ p.2) (h : Overlaps ⟨s.ranges.remove p.1⟩ (p.1, max x.2 p.2) ds) :
    Overlaps s x ((if x.1 ≠ min x.2 p.2 then [(x.1, min x.2 p.2)] else []) ++ ds) := by
  refine h.prepend (d := (x.1, min x.2 p.2)) ⟨le_rfl, le_min hx htouch, min_le_left _ _⟩ ?_
    (fun o ho => ⟨hle.trans ho.1, ho.2.trans_le (le_max_left _ _)⟩) fun o hx => (mem_split hp o).trans (or_congr_right
      ⟨fun ho => ⟨hx.1, lt_min hx.2 ho.2⟩, fun ho => ⟨hle.trans ho.1, ho.2.trans_le (min_le_right _ _)⟩⟩)
  -- The rest holds no offset of the predecessor, so its overlaps lie behind it and inside `x`.
  rintro o ⟨r, hr, hro⟩ ⟨ho1, ho2⟩
  obtain ⟨hk, hr⟩ := mem_remove.mp hr
  have hnot : ¬InSpan p o := fun hpo => hk (congrArg Prod.fst (hs.eq_of_inSpan hr hp hro hpo))
  have hlast : p.2 ≤ o := not_lt.mp fun h => hnot ⟨ho1, h⟩
  exact ⟨by omega, by omega, by omega⟩

theorem replaceAll_spec (hs : Separated s) (hx : x.1 ≤ x.2) (hc : Clear s x) :
    Replaced s x (s.replaceAll x).1 (s.replaceAll x).2 := by
  unfold replaceAll replace
  cases hprev : (s.pred x.1).filter fun p => decide (x.1 ≤ p.2) with
  | none =>
    have hb : Beside s x := fun r hr => by
      by_cases hr1 : x.1 < r.1
      · exact .inr hr1
      cases hp : s.pred x.1 with
      | none => exact absurd (lastLE_eq_none hp r hr) hr1
      | some p =>
        obtain ⟨hpm, hple, hgreat⟩ := lastLE_eq_some hp
        have hp2 : p.2 < x.1 := by simpa [hp, Option.filter] using hprev
        have := hgreat r hr (not_lt.mp hr1)
        have := hs.le p hpm
        by_cases hk : r.1 = p.1
        · rw [eq_of_key hr hpm hk]
          exact .inl hp2
        have := hs.gap r hr p hpm (by omega)
        exact .inl (by omega)
    have S := collect_spec (s.len + 2) (by omega) hs hx hb hc
    obtain ⟨h1, h2⟩ := drop_spec hs hx hb S
    exact ⟨S.overlaps, h1, h2⟩
  | some p =>
    obtain ⟨hpred, htouch⟩ := Option.filter_eq_some_iff.mp hprev
    obtain ⟨hp, hple, hgreat⟩ := lastLE_eq_some hpred
    have htouch : x.1 ≤ p.2 := by simpa using htouch
    have hsub := hs.subset (t := ⟨s.ranges.remove p.1⟩) mem_remove_sub
    -- The other ranges end before the predecessor, or start behind it.
    have hb : Beside ⟨s.ranges.remove p.1⟩ (p.1, max x.2 p.2) := fun r hr => by
      obtain ⟨hk, hr⟩ := mem_remove.mp hr
      rcases lt_or_gt_of_ne hk with hlt | hlt
      · exact .inl (hs.gap r hr p hp hlt)
      · exact .inr hlt
    have hclear : Clear ⟨s.ranges.remove p.1⟩ (p.1, max x.2 p.2) := by
      intro r hr he hr1 hr2 q hq hrq
      have hr := mem_remove_sub r hr
      have hq := mem_remove_sub q hq
      have hgap := hs.gap p hp r hr hr1
      have := hc r hr he (by omega) (by omega) q hq hrq
      have := hs.gap p hp q hq (by omega)
      omega
    have hx' : p.1 ≤ max x.2 p.2 := hple.trans (hx.trans (le_max_left _ _))
    have hmem : ∀ o, Mem ⟨s.ranges.remove p.1⟩ o ∨ InSpan (p.1, max x.2 p.2) o ↔ Mem s o ∨ InSpan x o := by
      intro o
      rw [mem_split hp o, or_assoc]
      refine or_congr_right ?_
      simp only [InSpan]
      omega
    simp only [min_eq_right hple]
    -- The overlap with the predecessor comes first, then the loop runs on the other ranges.
    split
    · next hne =>
      have S := collect_spec ((s.ranges.remove p.1).len + 1) le_rfl hsub hx' hb hclear
      obtain ⟨h1, h2⟩ := drop_spec hsub hx' hb S
      have O := S.overlaps.pred hs hp hx hple htouch
      rw [if_pos hne] at O
      exact ⟨O, h1, fun o => (h2 o).trans (hmem o)⟩
    next hne =>
    have S := collect_spec ((s.ranges.remove p.1).len + 2) (Nat.le_succ _) hsub hx' hb hclear
    obtain ⟨h1, h2⟩ := drop_spec hsub hx' hb S
    have O := S.overlaps.pred hs hp hx hple htouch
    rw [if_neg hne] at O
    exact ⟨O, h1, fun o => (h2 o).trans (hmem o)⟩

end SaorsaTransport.RangeSet
