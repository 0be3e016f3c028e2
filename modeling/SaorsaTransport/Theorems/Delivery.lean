import SaorsaTransport.Theorems.Assembler
import SaorsaTransport.Theorems.SendBuffer
import SaorsaTransport.Streams.State

/-! What an assembler hands to the application, over any history of frames and reads: in order, the stream from its start to
    the read offset; out of order, each received offset once, in the buffers or the chunks. -/

namespace SaorsaTransport
open List

def Carries (l : List Chunk) (o : Nat) (v : UInt8) : Prop := ∃ c ∈ l, Library.Cell c.offset c.bytes o v

def chunkSpans (l : List Chunk) : List (Nat × Nat) := l.map Chunk.span

def chunkBytes (l : List Chunk) : Bytes := l.flatMap (·.bytes)

namespace Assembler
open Library

variable {o : Nat}

theorem carries_append {l₁ l₂ : List Chunk} {v : UInt8} : Carries (l₁ ++ l₂) o v ↔ Carries l₁ o v ∨ Carries l₂ o v := by
  simp only [Carries, mem_append, or_and_right, exists_or]

theorem carries_singleton {c : Chunk} {v : UInt8} : Carries [c] o v ↔ Cell c.offset c.bytes o v := by
  simp [Carries]

theorem exists_carries_iff {l : List Chunk} : (∃ v, Carries l o v) ↔ 0 < cover (chunkSpans l) o := by
  rw [cover_pos_iff]
  constructor
  · rintro ⟨v, c, hc, hv⟩
    exact ⟨c.span, mem_map_of_mem hc, hv.inSpan⟩
  · rintro ⟨r, hr, ho⟩
    obtain ⟨c, hc, rfl⟩ := mem_map.mp hr
    obtain ⟨v, hv⟩ := exists_cell_iff.mpr ho
    exact ⟨v, c, hc, hv⟩

@[simp] theorem chunkSpans_append (l₁ l₂ : List Chunk) : chunkSpans (l₁ ++ l₂) = chunkSpans l₁ ++ chunkSpans l₂ :=
  map_append

@[simp] theorem chunkBytes_append (l₁ l₂ : List Chunk) : chunkBytes (l₁ ++ l₂) = chunkBytes l₁ ++ chunkBytes l₂ :=
  flatMap_append

theorem cover_snoc (l : List Chunk) (c : Chunk) (o : Nat) :
    cover (chunkSpans (l ++ [c])) o = cover (chunkSpans l) o + mark (InSpan c.span o) := by
  rw [chunkSpans_append, cover_append]
  exact congrArg _ ((cover_cons ..).trans (add_zero _))

theorem total_snoc (l : List Chunk) (c : Chunk) :
    total (chunkSpans (l ++ [c])) = total (chunkSpans l) + c.bytes.length := by
  rw [chunkSpans_append, total_append]
  simp [chunkSpans, Chunk.span]

structure Delivery (a : Assembler) (frames chunks : List Chunk) : Prop where
  tidy : Tidy a
  origin : ∀ o v, Holds a.data.toList o v → Carries frames o v
  exact_ : ∀ o v, Carries chunks o v → Carries frames o v
  bytesRead : a.bytesRead = total (chunkSpans chunks)
  ends : ∀ f ∈ frames, f.offset + f.bytes.length ≤ a.end_

structure Ordered (a : Assembler) (frames chunks : List Chunk) : Prop extends Delivery a frames chunks where
  state : a.state = .ordered
  delivered : ∀ o, cover (chunkSpans chunks) o = mark (o < a.bytesRead)
  buffered : ∀ o, a.bytesRead ≤ o → (0 < cover (spans a.data.toList) o ↔ 0 < cover (chunkSpans frames) o)
  length : (chunkBytes chunks).length = a.bytesRead
  text : ∀ o v, Cell 0 (chunkBytes chunks) o v → Carries frames o v

/-- The history of an assembler that is read out of order, having received the offsets `recvd`. -/
structure Unordered (a : Assembler) (recvd : RangeSet) (frames chunks : List Chunk) : Prop
    extends Delivery a frames chunks where
  state : a.state = .unordered recvd
  separated : recvd.Separated
  mem : ∀ o, recvd.Mem o ↔ 0 < cover (chunkSpans frames) o
  once : ∀ o, cover (spans a.data.toList) o + cover (chunkSpans chunks) o = mark (recvd.Mem o)

variable {a : Assembler} {frames chunks : List Chunk} {recvd : RangeSet}

theorem ordered_new : Ordered new [] [] where
  tidy := tidy_new
  origin o v h := absurd h not_holds_nil
  exact_ o v h := h
  bytesRead := rfl
  ends f hf := by cases hf
  state := rfl
  delivered o := (mark_neg (Nat.not_lt_zero o)).symm
  buffered o _ := Iff.rfl
  length := rfl
  text o v h := absurd h not_cell_nil

theorem Delivery.below (h : Delivery a frames chunks) (ho : 0 < cover (chunkSpans chunks) o) : o < a.end_ := by
  obtain ⟨v, hv⟩ := exists_carries_iff.mpr ho
  obtain ⟨f, hf, hv⟩ := h.exact_ o v hv
  exact hv.inSpan.2.trans_le (h.ends f hf)

theorem Delivery.bytesRead_le (h : Delivery a frames chunks) (once : ∀ o, cover (chunkSpans chunks) o ≤ 1) :
    a.bytesRead ≤ a.end_ := by
  rw [h.bytesRead]
  exact total_le (fun o ho => h.below ho) once

theorem Ordered.once (h : Ordered a frames chunks) (o : Nat) : cover (chunkSpans chunks) o ≤ 1 :=
  (h.delivered o).trans_le mark_le_one

theorem Unordered.delivered_once (h : Unordered a recvd frames chunks) (o : Nat) : cover (chunkSpans chunks) o ≤ 1 :=
  le_add_self.trans ((h.once o).trans_le mark_le_one)

theorem Delivery.insert (h : Delivery a frames chunks) {t : Assembler} {f : Chunk} (htidy : Tidy t)
    (hread : t.bytesRead = a.bytesRead) (hend : t.end_ = max a.end_ (f.offset + f.bytes.length))
    (hholds : ∀ o v, Holds t.data.toList o v → Holds a.data.toList o v ∨ Cell f.offset f.bytes o v) :
    Delivery t (frames ++ [f]) chunks where
  tidy := htidy
  origin o v ho := carries_append.mpr ((hholds o v ho).imp (h.origin o v) carries_singleton.mpr)
  exact_ o v ho := carries_append.mpr (.inl (h.exact_ o v ho))
  bytesRead := hread.trans h.bytesRead
  ends g hg := by
    rw [hend]
    rcases mem_append.mp hg with hg | hg
    · exact (h.ends g hg).trans (le_max_left _ _)
    obtain rfl := mem_singleton.mp hg
    exact le_max_right _ _

theorem Ordered.insert (h : Ordered a frames chunks) (f : Chunk) (allocationSize : Nat) :
    ∃ t, a.insert f.offset f.bytes allocationSize = some t ∧ Ordered t (frames ++ [f]) chunks := by
  obtain ⟨t, ht, I⟩ := insert_ordered h.tidy h.state (h.bytesRead_le h.once) f.offset f.bytes allocationSize
  refine ⟨t, ht, h.toDelivery.insert I.tidy I.bytesRead I.end_ I.holds, I.state, ?_, fun o ho => ?_, ?_,
    fun o v ho => carries_append.mpr (.inl (h.text o v ho))⟩
  · rw [I.bytesRead]
    exact h.delivered
  · rw [I.bytesRead] at ho
    rw [I.covered o ho, h.buffered o ho, cover_snoc, Nat.add_pos_iff_pos_or_pos, mark_pos_iff]
    rfl
  · rw [I.bytesRead]
    exact h.length

theorem Unordered.insert (h : Unordered a recvd frames chunks) (f : Chunk) (allocationSize : Nat)
    (hclear : recvd.Clear f.span) :
    ∃ t recvd', a.insert f.offset f.bytes allocationSize = some t ∧ Unordered t recvd' (frames ++ [f]) chunks := by
  obtain ⟨t, recvd', ht, I⟩ := insert_unordered h.tidy h.state h.separated (h.bytesRead_le h.delivered_once)
    (fun o => le_self_add.trans (h.once o).le) f.offset f.bytes allocationSize hclear
  refine ⟨t, recvd', ht, h.toDelivery.insert I.tidy I.bytesRead I.end_ I.holds, I.state, I.separated,
    fun o => ?_, fun o => ?_⟩
  · rw [I.mem, h.mem, cover_snoc, Nat.add_pos_iff_pos_or_pos, mark_pos_iff]
    rfl
  · have hspl : mark (recvd'.Mem o) = mark (recvd.Mem o) +
        mark (InSpan (f.offset, f.offset + f.bytes.length) o ∧ ¬recvd.Mem o) := by
      by_cases hm : recvd.Mem o
      · rw [mark_pos hm, mark_pos ((I.mem o).mpr (.inl hm)), mark_neg fun h => h.2 hm]
      rw [mark_neg hm, zero_add]
      exact mark_congr ((I.mem o).trans ((or_iff_right hm).trans (and_iff_left hm).symm))
    rw [I.cover o, hspl, ← h.once o]
    omega

/-- An ordered read goes on where the last one stopped, and finds nothing exactly if the frames do not
    hold the read offset. -/
theorem Ordered.read (h : Ordered a frames chunks) (maxLength : Nat) :
    ∃ t r, a.read maxLength true = some (t, r) ∧ Ordered t frames (chunks ++ r.toList) ∧
      (r = none ↔ cover (chunkSpans frames) a.bytesRead = 0) ∧
      ∀ c, r = some c → c.bytes.length ≤ maxLength ∧ (0 < maxLength → c.bytes ≠ []) := by
  obtain ⟨t, r, ht, R⟩ := read_ordered h.tidy maxLength
  have hends : ∀ f ∈ frames, f.offset + f.bytes.length ≤ t.end_ := fun f hf => by
    rw [R.end_]
    exact h.ends f hf
  have hbuffered : ∀ o, a.bytesRead ≤ t.bytesRead → t.bytesRead ≤ o →
      (0 < cover (spans t.data.toList) o ↔ 0 < cover (chunkSpans frames) o) := fun o hle ho =>
    (R.covered o ho).trans (h.buffered o (hle.trans ho))
  refine ⟨t, r, ht, ?_, ?_, fun c hc => ⟨(R.some_ c hc).2.2.1, (R.some_ c hc).2.2.2.1⟩⟩
  · cases r with
    | none =>
      have hread := R.none_ rfl
      rw [Option.toList_none, append_nil]
      refine ⟨⟨R.tidy, fun o v ho => h.origin o v (R.holds o v ho), h.exact_, hread.trans h.bytesRead, hends⟩,
        R.state.trans h.state, ?_, fun o => hbuffered o hread.ge, ?_, h.text⟩
      · rw [hread]
        exact h.delivered
      · rw [hread]
        exact h.length
    | some c =>
      obtain ⟨hoff, hread, -, -, hcell⟩ := R.some_ c rfl
      have hcar : ∀ o v, Cell c.offset c.bytes o v → Carries frames o v := fun o v hc => h.origin o v (hcell o v hc)
      rw [Option.toList_some]
      refine ⟨⟨R.tidy, fun o v ho => h.origin o v (R.holds o v ho), fun o v ho => ?_, ?_, hends⟩,
        R.state.trans h.state, fun o => ?_, fun o => hbuffered o (by omega), ?_, fun o v ho => ?_⟩
      · exact (carries_append.mp ho).elim (h.exact_ o v) fun hc => hcar o v (carries_singleton.mp hc)
      · rw [total_snoc, hread, h.bytesRead]
      · rw [cover_snoc, h.delivered, hread, Chunk.span, hoff]
        have := mark_split (Nat.zero_le a.bytesRead) (Nat.le_add_right _ c.bytes.length) o
        simp only [InSpan, Nat.zero_le, true_and] at this
        exact this.symm
      · rw [chunkBytes_append, length_append, h.length, hread]
        simp [chunkBytes]
      · rw [chunkBytes_append, cell_append, h.length, zero_add] at ho
        refine ho.elim (h.text o v) fun hc => hcar o v ?_
        rw [hoff]
        simpa [chunkBytes] using hc
  · rw [R.none_iff]
    have := h.buffered a.bytesRead le_rfl
    omega

theorem Unordered.read (h : Unordered a recvd frames chunks) (maxLength : Nat) :
    ∃ t r, a.read maxLength false = some (t, r) ∧ Unordered t recvd frames (chunks ++ r.toList) ∧
      (r = none ↔ a.data.toList = []) ∧
      ∀ c, r = some c → c.bytes.length ≤ maxLength ∧ (0 < maxLength → c.bytes ≠ []) := by
  obtain ⟨t, r, ht, R⟩ := read_unordered h.tidy maxLength
  cases r with
  | none =>
    obtain ⟨rfl, hnil⟩ := R.none_ rfl
    refine ⟨t, none, ht, ?_, ⟨fun _ => hnil, fun _ => rfl⟩, fun c hc => (by cases hc)⟩
    rw [Option.toList_none, append_nil]
    exact h
  | some c =>
    obtain ⟨chunk, -, T, htop⟩ := R.some_ c rfl
    have hholds : ∀ o v, Cell c.offset c.bytes o v ∨ Holds t.data.toList o v → Carries frames o v := fun o v ho => by
      refine h.origin o v ?_
      rw [htop]
      exact (T.holds o v).mp ho
    refine ⟨t, some c, ht, ⟨⟨T.tidy, fun o v ho => hholds o v (.inr ho), fun o v ho => ?_, ?_, ?_⟩,
      T.state.trans h.state, h.separated, h.mem, fun o => ?_⟩, ⟨fun hc => (by cases hc), fun hnil => ?_⟩, fun c' hc => ?_⟩
    · exact (carries_append.mp ho).elim (h.exact_ o v) fun hc => hholds o v (.inl (carries_singleton.mp hc))
    · rw [Option.toList_some, total_snoc, T.bytesRead, h.bytesRead]
    · rw [T.end_]
      exact h.ends
    · have hcov := T.cover o
      rw [← htop] at hcov
      rw [Option.toList_some, cover_snoc, ← h.once o, ← hcov]
      omega
    · rw [hnil] at htop
      cases htop
    · cases hc
      exact ⟨T.length, T.solid⟩

theorem insertAll_spec : ∀ {l : List Buffer} {s : RangeSet}, s.Canonical →
    (l.foldl (fun recvd chunk => (recvd.insert (chunk.offset, chunk.offset + chunk.bytes.length)).1) s).Canonical ∧
    ∀ o, (l.foldl (fun recvd chunk => (recvd.insert (chunk.offset, chunk.offset + chunk.bytes.length)).1) s).Mem o ↔
      s.Mem o ∨ 0 < cover (spans l) o
  | [], s, hs => ⟨hs, fun o => by simp⟩
  | b :: l, s, hs => by
    obtain ⟨hs', hmem⟩ := RangeSet.insert_spec (x := (b.offset, b.offset + b.bytes.length)) hs
    obtain ⟨hl, hmem'⟩ := insertAll_spec (l := l) hs'
    refine ⟨hl, fun o => ?_⟩
    rw [foldl_cons, hmem', hmem, spans_cons, cover_cons, Nat.add_pos_iff_pos_or_pos, mark_pos_iff, or_assoc]
    rfl

theorem switch_data (h : Tidy a) :
    ∃ d : Assembler, (if a.data.isEmpty then a else a.defragment) = d ∧ Tidy d ∧ d.bytesRead = a.bytesRead ∧
      d.end_ = a.end_ ∧ (∀ o, cover (spans d.data.toList) o = mark (0 < cover (spans a.data.toList) o)) ∧
      ∀ o v, Holds d.data.toList o v → Holds a.data.toList o v := by
  cases he : a.data.isEmpty with
  | true =>
    refine ⟨a, if_pos rfl, h, rfl, rfl, fun o => ?_, fun o v => id⟩
    rw [MaxHeap.isEmpty_iff.mp he, spans_nil, cover_nil]
    rfl
  | false =>
    obtain ⟨ht, hc, hh⟩ := defragment_spec a
    exact ⟨_, if_neg Bool.false_ne_true, ht, rfl, rfl, hc, hh⟩

/-- Reading goes on out of order. No byte is delivered again if no buffer still holds a byte below the
    read offset. -/
theorem Ordered.switch (h : Ordered a frames chunks) (hlow : ∀ b ∈ a.data.toList, a.bytesRead ≤ b.offset) :
    ∃ t recvd, a.ensureOrdering false = .ok t ∧ t.bytesRead = a.bytesRead ∧ t.end_ = a.end_ ∧ recvd.Canonical ∧
      Unordered t recvd frames chunks := by
  obtain ⟨d, hd, hdtidy, hdread, hdend, hdcover, hdholds⟩ := switch_data h.tidy
  obtain ⟨hcan₀, hmem₀⟩ := RangeSet.insert_spec (x := (0, d.bytesRead)) RangeSet.canonical_new
  obtain ⟨hcan, hmem⟩ := insertAll_spec (l := d.data.toList) hcan₀
  refine ⟨{ d with state := .unordered _ }, _, ?_, hdread, hdend, hcan,
    ⟨{ hdtidy with }, fun o v ho => h.origin o v (hdholds o v ho), h.exact_,
      hdread.trans h.bytesRead, fun f hf => (h.ends f hf).trans hdend.ge⟩, rfl, hcan.toSeparated, fun o => ?_, fun o => ?_⟩
  · unfold ensureOrdering
    rw [h.state]
    simp only [Bool.false_and, Bool.false_eq_true, if_false, Bool.not_false, State.isOrdered, Bool.and_self, if_true]
    rw [hd]
  · -- below the read offset everything was delivered, so received; from there on the buffers know
    rw [hmem, hmem₀, or_iff_right (RangeSet.not_mem_new o), hdcover, mark_pos_iff, hdread]
    by_cases ho : o < a.bytesRead
    · have hpos : 0 < cover (chunkSpans chunks) o := by
        rw [h.delivered, mark_pos ho]
        exact Nat.one_pos
      obtain ⟨v, hv⟩ := exists_carries_iff.mpr hpos
      exact ⟨fun _ => exists_carries_iff.mp ⟨v, h.exact_ o v hv⟩, fun _ => .inl ⟨Nat.zero_le o, ho⟩⟩
    rw [or_iff_right fun hin => ho hin.2]
    exact h.buffered o (not_lt.mp ho)
  · rw [hdcover, h.delivered]
    by_cases ho : o < a.bytesRead
    · have hzero : cover (spans a.data.toList) o = 0 := cover_eq_zero_iff.mpr fun r hr hin => by
        obtain ⟨b, hb, rfl⟩ := mem_map.mp hr
        have := (hlow b hb).trans hin.1
        omega
      rw [hzero, mark_pos ho, mark_pos ((hmem o).mpr (.inl ((hmem₀ o).mpr (.inr ⟨Nat.zero_le o, ?_⟩))))]
      · rfl
      · rw [hdread]
        exact ho
    rw [mark_neg ho, add_zero]
    refine mark_congr ?_
    rw [hmem, hmem₀, or_iff_right (RangeSet.not_mem_new o), hdcover, mark_pos_iff, or_iff_right fun hin => ?_]
    have := hin.2
    rw [hdread] at this
    exact ho this

end Assembler
end SaorsaTransport

/-! Whole runs of an assembler: any inserts, interleaved with reads in order, out of order, or first the
    one and then the other. -/

namespace SaorsaTransport.Assembler
open Library List

inductive Op where
  | insert (frame : Chunk) (allocationSize : Nat)
  | read (maxLength : Nat)
  deriving DecidableEq

def step (ordered : Bool) (s : Assembler × List Chunk) : Op → Option (Assembler × List Chunk)
  | .insert frame allocationSize => do
    let a ← s.1.insert frame.offset frame.bytes allocationSize
    some (a, s.2)
  | .read maxLength => do
    let (a, chunk) ← s.1.read maxLength ordered
    some (a, s.2 ++ chunk.toList)

def run (ordered : Bool) : Assembler × List Chunk → List Op → Option (Assembler × List Chunk)
  | s, [] => some s
  | s, op :: ops => do run ordered (← step ordered s op) ops

def Op.frame? : Op → Option Chunk
  | .insert frame _ => some frame
  | .read _ => none

def frames (ops : List Op) : List Chunk := ops.filterMap Op.frame?

/-- The inserted range meets no empty range of the received set that hides other ranges behind it. -/
def Clean (a : Assembler) : Op → Prop
  | .insert frame _ => match a.state with
    | .ordered => True
    | .unordered recvd => recvd.Clear frame.span
  | .read _ => True

def CleanRun : Assembler × List Chunk → List Op → Prop
  | _, [] => True
  | s, op :: ops => Clean s.1 op ∧ ∀ t ∈ step false s op, CleanRun t ops

instance (a : Assembler) : ∀ op, Decidable (Clean a op)
  | .insert frame _ => match h : a.state with
    | .ordered => isTrue (by simp only [Clean, h])
    | .unordered recvd => decidable_of_iff (recvd.Clear frame.span) (by simp only [Clean, h])
  | .read _ => inferInstanceAs (Decidable True)

instance decidableCleanRun : ∀ s ops, Decidable (CleanRun s ops)
  | _, [] => inferInstanceAs (Decidable True)
  | s, op :: ops =>
    have := fun t => decidableCleanRun t ops
    inferInstanceAs (Decidable (Clean s.1 op ∧ ∀ t ∈ step false s op, CleanRun t ops))

variable {a : Assembler} {received chunks : List Chunk} {recvd : RangeSet}

theorem Ordered.step (h : Ordered a received chunks) (op : Op) :
    ∃ t chunks', step true (a, chunks) op = some (t, chunks') ∧ Ordered t (received ++ op.frame?.toList) chunks' := by
  cases op with
  | insert frame allocationSize =>
    obtain ⟨t, ht, ho⟩ := h.insert frame allocationSize
    exact ⟨t, chunks, by simp [Assembler.step, ht], ho⟩
  | read maxLength =>
    obtain ⟨t, r, ht, ho, -, -⟩ := h.read maxLength
    refine ⟨t, chunks ++ r.toList, by simp [Assembler.step, ht], ?_⟩
    simpa [Op.frame?] using ho

theorem frames_cons (op : Op) (ops : List Op) : frames (op :: ops) = op.frame?.toList ++ frames ops := by
  cases op <;> rfl

theorem Ordered.run : ∀ (ops : List Op) {a : Assembler} {received chunks : List Chunk}, Ordered a received chunks →
    ∃ t chunks', run true (a, chunks) ops = some (t, chunks') ∧ Ordered t (received ++ frames ops) chunks'
  | [], a, received, chunks, h => ⟨a, chunks, rfl, by simpa [frames] using h⟩
  | op :: ops, a, received, chunks, h => by
    obtain ⟨t, chunks₁, ht, h₁⟩ := h.step op
    obtain ⟨u, chunks₂, hu, h₂⟩ := Ordered.run ops h₁
    refine ⟨u, chunks₂, by simp [Assembler.run, ht, hu], ?_⟩
    rw [frames_cons, ← append_assoc]
    exact h₂

def PartOf (stream : Nat → UInt8) (frame : Chunk) : Prop :=
  frame.bytes = (range frame.bytes.length).map fun i => stream (frame.offset + i)

instance (stream : Nat → UInt8) (frame : Chunk) : Decidable (PartOf stream frame) :=
  inferInstanceAs (Decidable (_ = _))

theorem PartOf.cell {stream : Nat → UInt8} {frame : Chunk} (h : PartOf stream frame) {o : Nat} {v : UInt8}
    (hv : Cell frame.offset frame.bytes o v) : v = stream o := by
  have hlt := hv.inSpan.2
  obtain ⟨hle, hget⟩ := hv
  rw [h, getElem?_map, getElem?_range (by simp only at hlt; omega), Option.map_some, Option.some.injEq,
    Nat.add_sub_cancel' hle] at hget
  exact hget.symm

/-- Read in order, the chunks are the bytes of the stream up to the read offset, however its frames
    overlap and whichever buffers were defragmented. A read finds nothing exactly if the next byte has
    not arrived. -/
theorem ordered_exact (stream : Nat → UInt8) (ops : List Op) (hsame : ∀ frame ∈ frames ops, PartOf stream frame) :
    ∃ a chunks, run true (new, []) ops = some (a, chunks) ∧
      chunkBytes chunks = (range a.bytesRead).map stream ∧
      ∀ maxLength, 0 < maxLength → ∃ t r, a.read maxLength true = some (t, r) ∧
        (r = none ↔ ∀ frame ∈ frames ops, ¬InSpan frame.span a.bytesRead) := by
  obtain ⟨a, chunks, hrun, h⟩ := ordered_new.run ops
  refine ⟨a, chunks, hrun, ext_getElem? fun o => ?_, fun maxLength _ => ?_⟩
  · by_cases ho : o < a.bytesRead
    · obtain ⟨v, hv⟩ : ∃ v, (chunkBytes chunks)[o]? = some v :=
        ⟨_, getElem?_eq_getElem (by rw [h.length]; exact ho)⟩
      obtain ⟨frame, hf, hcell⟩ := h.text o v ⟨Nat.zero_le o, hv⟩
      rw [hv, (hsame frame hf).cell hcell, getElem?_map, getElem?_range ho]
      rfl
    · rw [getElem?_eq_none (by rw [h.length]; omega), getElem?_eq_none (by rw [length_map, length_range]; omega)]
  · obtain ⟨t, r, hread, -, hnone, -⟩ := h.read maxLength
    refine ⟨t, r, hread, hnone.trans (cover_eq_zero_iff.trans ?_)⟩
    exact ⟨fun hc frame hf => hc _ (mem_map_of_mem hf), fun hc r hr => by
      obtain ⟨frame, hf, rfl⟩ := mem_map.mp hr
      exact hc frame hf⟩

/-- Frames that overlap, arrive twice and out of order, and one that is empty. -/
theorem ordered_exact_overlap :
    let ops := [.insert ⟨1, [1, 2]⟩ 2, .read 5, .insert ⟨0, [0, 1]⟩ 40000, .read 1, .insert ⟨7, []⟩ 0,
      .insert ⟨1, [1, 2, 3]⟩ 3, .read 5, .read 5]
    (∀ frame ∈ frames ops, PartOf UInt8.ofNat frame) ∧
    ∃ a chunks, run true (new, []) ops = some (a, chunks) ∧ chunkBytes chunks = (range a.bytesRead).map UInt8.ofNat ∧
      ∀ maxLength, 0 < maxLength → ∃ t r, a.read maxLength true = some (t, r) ∧
        (r = none ↔ ∀ frame ∈ frames ops, ¬InSpan frame.span a.bytesRead) :=
  ⟨by decide, ordered_exact UInt8.ofNat _ (by decide)⟩

theorem Unordered.step (h : Unordered a recvd received chunks) (op : Op) (hc : Clean a op) :
    ∃ t recvd' chunks', step false (a, chunks) op = some (t, chunks') ∧
      Unordered t recvd' (received ++ op.frame?.toList) chunks' := by
  cases op with
  | insert frame allocationSize =>
    simp only [Clean, h.state] at hc
    obtain ⟨t, recvd', ht, ho⟩ := h.insert frame allocationSize hc
    exact ⟨t, recvd', chunks, by simp [Assembler.step, ht], ho⟩
  | read maxLength =>
    obtain ⟨t, r, ht, ho, -, -⟩ := h.read maxLength
    refine ⟨t, recvd, chunks ++ r.toList, by simp [Assembler.step, ht], ?_⟩
    simpa [Op.frame?] using ho

theorem Unordered.run : ∀ (ops : List Op) {a : Assembler} {recvd : RangeSet} {received chunks : List Chunk},
    Unordered a recvd received chunks → CleanRun (a, chunks) ops →
    ∃ t recvd' chunks', run false (a, chunks) ops = some (t, chunks') ∧
      Unordered t recvd' (received ++ frames ops) chunks'
  | [], a, recvd, received, chunks, h, _ => ⟨a, recvd, chunks, rfl, by simpa [frames] using h⟩
  | op :: ops, a, recvd, received, chunks, h, hc => by
    obtain ⟨t, recvd₁, chunks₁, ht, h₁⟩ := h.step op hc.1
    obtain ⟨u, recvd₂, chunks₂, hu, h₂⟩ := Unordered.run ops h₁ (hc.2 _ ht)
    refine ⟨u, recvd₂, chunks₂, by simp [Assembler.run, ht, hu], ?_⟩
    rw [frames_cons, ← append_assoc]
    exact h₂

def Disjoint (l : List Chunk) : Prop := l.Pairwise fun c d => ∀ o, ¬(InSpan c.span o ∧ InSpan d.span o)

theorem disjoint_of_once (h : ∀ o, cover (chunkSpans chunks) o ≤ 1) : Disjoint chunks :=
  pairwise_map.mp (pairwise_disjoint_of_cover h)

/-- Read out of order, each byte of the frames is handed out once. -/
theorem unordered_exactly_once (ops : List Op) {u : Assembler} (hu : new.ensureOrdering false = .ok u)
    (hclean : CleanRun (u, []) ops) :
    ∃ a chunks, run false (u, []) ops = some (a, chunks) ∧ Disjoint chunks ∧
      (∀ c ∈ chunks, ∀ o v, Cell c.offset c.bytes o v → ∃ frame ∈ frames ops, Cell frame.offset frame.bytes o v) ∧
      (a.data.isEmpty = true →
        ∀ o, (∃ c ∈ chunks, InSpan c.span o) ↔ ∃ frame ∈ frames ops, InSpan frame.span o) := by
  obtain ⟨u', recvd, hu', -, -, -, h⟩ := ordered_new.switch fun b hb => (by cases hb)
  obtain rfl : u' = u := Except.ok.inj (hu'.symm.trans hu)
  obtain ⟨a, recvd', chunks, hrun, h⟩ := h.run ops hclean
  rw [nil_append] at h
  refine ⟨a, chunks, hrun, disjoint_of_once h.delivered_once, fun c hc o v hv => h.exact_ o v ⟨c, hc, hv⟩,
    fun hempty o => ?_⟩
  have hpos : ∀ l : List Chunk, (∃ c ∈ l, InSpan c.span o) ↔ 0 < cover (chunkSpans l) o := fun l => by
    rw [cover_pos_iff, chunkSpans]
    simp
  have honce := h.once o
  rw [MaxHeap.isEmpty_iff.mp hempty, spans_nil, cover_nil, zero_add] at honce
  rw [hpos, hpos, honce, mark_pos_iff, h.mem]

theorem unordered_exactly_once_overlap :
    let ops := [.insert ⟨6, [7]⟩ 1, .insert ⟨3, [1, 2, 3, 7, 5]⟩ 5, .read 2, .insert ⟨4, []⟩ 0, .read 9, .read 9, .read 9]
    ∃ u, new.ensureOrdering false = .ok u ∧ CleanRun (u, []) ops ∧
      ∃ a chunks, run false (u, []) ops = some (a, chunks) ∧ Disjoint chunks ∧
        (∀ c ∈ chunks, ∀ o v, Cell c.offset c.bytes o v → ∃ frame ∈ frames ops, Cell frame.offset frame.bytes o v) ∧
        (a.data.isEmpty = true → ∀ o, (∃ c ∈ chunks, InSpan c.span o) ↔ ∃ frame ∈ frames ops, InSpan frame.span o) :=
  ⟨_, rfl, by decide, unordered_exactly_once _ rfl (by decide)⟩

/-- An empty frame at offset 5 hides the range from 6 on from the frame that arrives next, so the byte at
    offset 6 is handed out twice. -/
theorem unordered_delivers_twice :
    let ops := [.insert ⟨6, [7]⟩ 1, .insert ⟨5, []⟩ 0, .insert ⟨3, [1, 2, 3, 7, 5]⟩ 5, .read 9, .read 9]
    ∃ u a chunks, new.ensureOrdering false = .ok u ∧ run false (u, []) ops = some (a, chunks) ∧ ¬Disjoint chunks := by
  refine ⟨_, _, _, rfl, rfl, fun h => ?_⟩
  obtain ⟨h, -⟩ := pairwise_cons.mp h
  exact h ⟨6, [7]⟩ (by decide) 6 (by decide)

/-- No more was read than has arrived, so that stopping the stream does not subtract below zero, nor does resetting it,
    unless a FIN below the end was accepted. -/
structure Creditable (a : Assembler) (end_ : Nat) : Prop where
  read : a.bytesRead ≤ end_
  stop : ∀ rs : Recv, rs.assembler = a → rs.end_ = end_ → rs.stop.isSome = true
  reset : ∀ rs : Recv, rs.assembler = a → rs.end_ = end_ → (∀ size ∈ rs.finalOffset, end_ ≤ size) →
    ∀ errorCode finalOffset received maxData rs' fresh, rs.reset errorCode finalOffset received maxData = .ok (rs', fresh) →
      (checkedSub finalOffset rs'.end_).isSome = true ∧ (checkedSub finalOffset rs'.assembler.bytesRead).isSome = true

theorem le_of_validateFinalOffset {rs : Recv} {finalOffset : Nat} (hfin : ∀ size ∈ rs.finalOffset, rs.end_ ≤ size)
    (h : rs.validateFinalOffset finalOffset = .ok ()) : rs.end_ ≤ finalOffset := by
  unfold Recv.validateFinalOffset at h
  split at h
  · next size hsize =>
    split at h
    · cases h
    · next heq => exact not_not.mp heq ▸ hfin size hsize
  · split at h
    · cases h
    · omega

theorem creditable_of_read {a : Assembler} {end_ : Nat} (hread : a.bytesRead ≤ end_) : Creditable a end_ where
  read := hread
  stop rs ha hend := by
    unfold Recv.stop
    split
    · rfl
    rw [ha, hend, checkedSub_of_le hread]
    rfl
  reset rs ha hend hfin errorCode finalOffset received maxData rs' fresh h := by
    subst ha hend
    cases hvalid : rs.validateFinalOffset finalOffset with
    | error e =>
      rw [Recv.reset, hvalid] at h
      cases h
    | ok _ =>
      have hle := le_of_validateFinalOffset hfin hvalid
      have hkept : rs'.end_ = rs.end_ ∧ rs'.assembler.bytesRead = rs.assembler.bytesRead := by
        rw [Recv.reset, hvalid] at h
        cases hcredit : rs.creditConsumedBy finalOffset received maxData with
        | error e =>
          rw [hcredit] at h
          cases h
        | ok _ =>
          rw [hcredit] at h
          cases hstate : rs.state <;> rw [hstate] at h <;> cases h <;> exact ⟨rfl, rfl⟩
      rw [hkept.1, hkept.2, checkedSub_of_le hle, checkedSub_of_le (hread.trans hle)]
      exact ⟨rfl, rfl⟩

/-- Reading out of order after reading in order, no byte is handed out again, provided that no chunk below
    the read offset was still buffered; and no more bytes are read than the stream is long. -/
theorem switch_exactly_once (ops₁ ops₂ : List Op) {a₁ a₂ : Assembler} {chunks₁ : List Chunk}
    (h₁ : run true (new, []) ops₁ = some (a₁, chunks₁)) (hfresh : ∀ b ∈ a₁.data.toList, a₁.bytesRead ≤ b.offset)
    (h₂ : a₁.ensureOrdering false = .ok a₂) (hclean : CleanRun (a₂, chunks₁) ops₂) :
    ∃ a chunks, run false (a₂, chunks₁) ops₂ = some (a, chunks) ∧ Disjoint chunks ∧
      ∀ end_, (∀ frame ∈ frames ops₁ ++ frames ops₂, frame.offset + frame.bytes.length ≤ end_) → Creditable a end_ := by
  obtain ⟨b₁, chunks, hb₁, hordered⟩ := ordered_new.run ops₁
  obtain ⟨rfl, rfl⟩ := Prod.mk.inj (Option.some.inj (h₁.symm.trans hb₁))
  obtain ⟨b₂, recvd, hb₂, -, -, -, hunordered⟩ := hordered.switch hfresh
  obtain rfl := Except.ok.inj (h₂.symm.trans hb₂)
  obtain ⟨a, recvd', chunks, hrun, h⟩ := hunordered.run ops₂ hclean
  refine ⟨a, chunks, hrun, disjoint_of_once h.delivered_once, fun end_ hend => ?_⟩
  refine creditable_of_read ?_
  rw [h.bytesRead]
  refine total_le (fun o ho => ?_) h.delivered_once
  obtain ⟨v, hv⟩ := exists_carries_iff.mpr ho
  obtain ⟨frame, hf, hv⟩ := h.exact_ o v hv
  exact hv.inSpan.2.trans_le (hend frame hf)

/-- A frame is read in part before the switch; it arrives again in part afterwards. -/
theorem switch_exactly_once_partial :
    let ops₁ := [.insert ⟨0, [1, 2, 3, 4]⟩ 4, .read 2]
    let ops₂ := [.insert ⟨1, [2, 3, 4, 5, 6]⟩ 5, .insert ⟨8, [9]⟩ 1, .read 9, .read 9, .read 9]
    ∃ a₁ chunks₁ a₂, run true (new, []) ops₁ = some (a₁, chunks₁) ∧ (∀ b ∈ a₁.data.toList, a₁.bytesRead ≤ b.offset) ∧
      a₁.ensureOrdering false = .ok a₂ ∧ CleanRun (a₂, chunks₁) ops₂ ∧
      ∃ a chunks, run false (a₂, chunks₁) ops₂ = some (a, chunks) ∧ Disjoint chunks ∧
        ∀ end_, (∀ frame ∈ frames ops₁ ++ frames ops₂, frame.offset + frame.bytes.length ≤ end_) → Creditable a end_ :=
  ⟨_, _, _, rfl, by decide, rfl, by decide, switch_exactly_once _ _ rfl (by decide) rfl (by decide)⟩

/-- A frame that arrived twice is read in order once, and after the switch again: five bytes were sent, ten
    are counted as read, and stopping the stream subtracts below zero. -/
theorem switch_delivers_twice :
    let ops₁ := [.insert ⟨0, [1, 2, 3, 4, 5]⟩ 5, .insert ⟨0, [1, 2, 3, 4, 5]⟩ 5, .read 9]
    ∃ a₁ chunks₁ a₂ a chunks, run true (new, []) ops₁ = some (a₁, chunks₁) ∧ a₁.ensureOrdering false = .ok a₂ ∧
      run false (a₂, chunks₁) [.read 9] = some (a, chunks) ∧ ¬Disjoint chunks ∧ a.bytesRead = 10 ∧ a.end_ = 5 ∧
      (Recv.stop ⟨.recv none, a, 100, 5, false⟩).isNone = true := by
  refine ⟨_, _, _, _, _, rfl, rfl, rfl, fun h => ?_, rfl, rfl, rfl⟩
  obtain ⟨h, -⟩ := pairwise_cons.mp h
  exact h ⟨0, [1, 2, 3, 4, 5]⟩ (by decide) 0 (by decide)

end SaorsaTransport.Assembler

/-! A stream from end to end: the buffer of its sender, a network that loses, repeats and reorders frames, and an
    assembler that is read in order. -/

namespace SaorsaTransport.SendBuffer.Link
open Library List Assembler

/-- What `write_stream_frames` makes of the range that it polls. -/
def frame? (s : Link) : Op → Option Chunk
  | .poll maxLen => do
    let (buffer, range, _) ← s.buffer.pollTransmit maxLen
    let bytes ← buffer.copy (range.2 - range.1) range
    some ⟨range.1, bytes⟩
  | _ => none

def sends : Link → List Op → List Chunk
  | _, [] => []
  | s, op :: ops => (s.frame? op).toList ++ (s.step op).elim [] (sends · ops)

variable {s t : Link} {frame : Chunk} {op : Op} {ops : List Op}

theorem step_written (h : s.step op = some t) : s.written <+: t.written := by
  cases op <;> grind [Link.step, Option.bind_eq_some_iff]

theorem Inv.frame_prefix (h : Inv s) (hop : op.Roomy) (hf : frame ∈ s.frame? op) :
    frame.bytes <+: s.written.drop frame.offset := by
  cases op with
  | poll maxLen =>
    obtain ⟨b, r, _, hpoll, hr, hoff, hlen, -, h1, h2, h3, -⟩ := h.reliable.pollTransmit hop
    have hcopy := hr.copy (r.2 - r.1) le_rfl (by unfold baseOffset; rwa [hoff, hlen]) h2 (hoff ▸ h3)
    simp only [frame?, hpoll, hcopy, Option.bind_eq_bind, Option.bind_some, Option.mem_some] at hf
    subst hf
    exact ( take_prefix r.2 _).drop r.1
  | _ => cases hf

theorem Inv.sends_prefix (h : Inv s) (hops : ∀ op ∈ ops, op.Roomy) (ht : s.run ops = some t) (hf : frame ∈ s.sends ops) :
    frame.bytes <+: t.written.drop frame.offset := by
  induction ops generalizing s with
  | nil => cases hf
  | cons op ops ih =>
    obtain ⟨hop, hops⟩ := forall_mem_cons.mp hops
    obtain ⟨u, hu, hinv⟩ := h.step op hop
    have hrun : u.run ops = some t := by rwa [Link.run, foldlM_cons, hu] at ht
    rw [sends, hu] at hf
    obtain hf | hf := mem_append.mp hf
    · have hgrows := foldlM_rel (R := fun s t => s.written <+: t.written) (fun _ => prefix_rfl) .trans step_written ht
      exact (h.frame_prefix hop (Option.mem_toList.mp hf)).trans (hgrows.drop _)
    · exact ih hinv hops hrun hf

/-- What is read is a prefix of what was written; and when everything is acknowledged, and only frames that arrived are,
    a read finds nothing only behind the last byte. -/
def Transfers (ops : List Op) (received : List Assembler.Op) : Prop :=
  ∃ s a chunks, new.run ops = some s ∧ Assembler.run true (.new, []) received = some (a, chunks) ∧
    chunkBytes chunks <+: s.written ∧
    (s.buffer.isFullyAcked → (∀ range ∈ s.acked, range ∈ chunkSpans (frames received)) →
      ∀ maxLength, ∃ t r, a.read maxLength true = some (t, r) ∧ (r = none ↔ chunkBytes chunks = s.written))

theorem transfer_exact (received : List Assembler.Op) (hops : ∀ op ∈ ops, op.Roomy)
    (hsent : ∀ frame ∈ frames received, frame ∈ new.sends ops) : Transfers ops received := by
  obtain ⟨s, hs, hinv⟩ := inv_new.run ops hops
  obtain ⟨a, chunks, ha, hord⟩ := ordered_new.run received
  rw [nil_append] at hord
  have hcell : ∀ o v, Carries (frames received) o v → s.written[o]? = some v := by
    rintro o v ⟨frame, hf, hle, hv⟩
    obtain ⟨rest, hrest⟩ := inv_new.sends_prefix hops hs (hsent frame hf)
    have hat := congrArg (·[o - frame.offset]?) hrest
    grind
  have hread : chunkBytes chunks <+: s.written :=
    prefix_iff_getElem?.mpr fun o ho => hcell o _ (hord.text o _ ⟨zero_le, getElem?_eq_getElem ho⟩)
  have hlen := hord.length
  refine ⟨s, a, chunks, hs, ha, hread, fun hack harrived maxLength => ?_⟩
  obtain ⟨t, r, hr, -, hnone, -⟩ := hord.read maxLength
  refine ⟨t, r, hr, hnone.trans ⟨fun hz => hread.eq_of_length ?_, fun heq => ?_⟩⟩
  · by_contra hne
    have hlt := hread.length_le.lt_of_ne hne
    have hacked : s.buffer.Acked a.bytesRead := by
      left
      rwa [baseOffset, hinv.reliable.length, beq_iff_eq.mp hack, Nat.sub_zero, ← hlen]
    have hcov := hinv.acked a.bytesRead
    rw [mark_pos hacked] at hcov
    obtain ⟨range, hrange, hspan⟩ := cover_pos_iff.mp (hcov ▸ one_pos)
    exact (cover_pos_iff.mpr ⟨range, harrived range hrange, hspan⟩).ne' hz
  · by_contra hne
    obtain ⟨v, hv⟩ := exists_carries_iff.mpr (Nat.pos_of_ne_zero hne)
    grind

/-- Two frames that arrive in the wrong order, one of them twice. -/
theorem transfer_exact_reordered :
    let ops := [.write [1, 2, 3], .poll 16, .write [4], .poll 16, .ack 0, .ack 0]
    let received := [.insert ⟨3, [4]⟩ 1, .insert ⟨0, [1, 2, 3]⟩ 3, .read 2, .insert ⟨3, [4]⟩ 1]
    (∀ op ∈ ops, Op.Roomy op) ∧ (∀ frame ∈ frames received, frame ∈ new.sends ops) ∧ Transfers ops received :=
  ⟨by decide, by decide, transfer_exact _ (by decide) (by decide)⟩

end SaorsaTransport.SendBuffer.Link
