import SaorsaTransport.Buffers
import SaorsaTransport.Theorems.RangeSet

/-! What the buffers of an assembler hold, and that defragmentation keeps it: the same offsets, each
    once, with bytes that were there before. -/

namespace SaorsaTransport
open Library Buffer MaxHeap

def Buffer.span (b : Buffer) : Nat × Nat := (b.offset, b.offset + b.bytes.length)

def Chunk.span (c : Chunk) : Nat × Nat := (c.offset, c.offset + c.bytes.length)

namespace Assembler

def Holds (l : List Buffer) (o : Nat) (v : UInt8) : Prop := ∃ b ∈ l, Cell b.offset b.bytes o v

def spans (l : List Buffer) : List (Nat × Nat) := l.map span

def allocations (l : List Buffer) : Nat := (l.map (·.allocationSize)).sum

@[simp] theorem spans_nil : spans [] = [] := rfl

@[simp] theorem spans_cons (b : Buffer) (l : List Buffer) : spans (b :: l) = b.span :: spans l := rfl

@[simp] theorem spans_append (l₁ l₂ : List Buffer) : spans (l₁ ++ l₂) = spans l₁ ++ spans l₂ := List.map_append

@[simp] theorem allocations_cons (b : Buffer) (l : List Buffer) :
    allocations (b :: l) = b.allocationSize + allocations l := by
  simp [allocations]

@[simp] theorem span_length (b : Buffer) : b.span.2 - b.span.1 = b.bytes.length := Nat.add_sub_cancel_left ..

theorem total_spans (l : List Buffer) : total (spans l) = (l.map (·.bytes.length)).sum := by
  induction l with
  | nil => rfl
  | cons b l ih => simp [ih]

variable {l added : List Buffer} {o offset : Nat} {v : UInt8} {chunk : Buffer} {buffer : Bytes} {l₁ l₂ : List Buffer}

theorem holds_cons {b : Buffer} : Holds (b :: l) o v ↔ Cell b.offset b.bytes o v ∨ Holds l o v :=
  List.exists_mem_cons_iff ..

theorem not_holds_nil : ¬Holds [] o v := fun ⟨_, hb, _⟩ => absurd hb List.not_mem_nil

theorem holds_append : Holds (l₁ ++ l₂) o v ↔ Holds l₁ o v ∨ Holds l₂ o v := by
  constructor
  · rintro ⟨b, hb, hc⟩
    rcases List.mem_append.mp hb with hb | hb
    · exact .inl ⟨b, hb, hc⟩
    · exact .inr ⟨b, hb, hc⟩
  · rintro (⟨b, hb, hc⟩ | ⟨b, hb, hc⟩)
    · exact ⟨b, List.mem_append_left _ hb, hc⟩
    · exact ⟨b, List.mem_append_right _ hb, hc⟩

theorem holds_perm (h : l₁.Perm l₂) : Holds l₁ o v ↔ Holds l₂ o v :=
  ⟨fun ⟨b, hb, hc⟩ => ⟨b, h.mem_iff.mp hb, hc⟩, fun ⟨b, hb, hc⟩ => ⟨b, h.mem_iff.mpr hb, hc⟩⟩

theorem exists_holds_iff : (∃ v, Holds l o v) ↔ 0 < cover (spans l) o := by
  rw [cover_pos_iff]
  constructor
  · rintro ⟨v, b, hb, hc⟩
    exact ⟨b.span, List.mem_map_of_mem hb, hc.inSpan⟩
  · rintro ⟨r, hr, ho⟩
    obtain ⟨b, hb, rfl⟩ := List.mem_map.mp hr
    obtain ⟨v, hv⟩ := exists_cell_iff.mpr ho
    exact ⟨v, b, hb, hv⟩

theorem tryMarkDefragment_spec (b : Buffer) (offset : Nat) :
    (∀ o, InSpan (b.tryMarkDefragment offset).span o ↔ offset ≤ o ∧ InSpan b.span o) ∧
    (∀ o v, Cell (b.tryMarkDefragment offset).offset (b.tryMarkDefragment offset).bytes o v → Cell b.offset b.bytes o v) ∧
    (b.tryMarkDefragment offset).offset + (b.tryMarkDefragment offset).bytes.length = max offset b.span.2 ∧
    ((b.tryMarkDefragment offset).defragmented = true →
      (b.tryMarkDefragment offset).allocationSize = (b.tryMarkDefragment offset).bytes.length) := by
  unfold tryMarkDefragment
  dsimp only
  split
  · next hdup =>
    refine ⟨fun o => ?_, fun o v hc => absurd hc not_cell_nil, ?_, fun _ => rfl⟩
    · simp only [span, InSpan, List.length_nil]
      omega
    · simp only [span, List.length_nil]
      omega
  next hdup =>
  have hsta : max b.offset offset = b.offset + (offset - b.offset) := by omega
  refine ⟨fun o => ?_, fun o v hc => ?_, ?_, fun h => if_pos h⟩
  · simp only [span, InSpan, List.length_drop]
    omega
  · rw [hsta, cell_drop] at hc
    exact hc.2
  · simp only [span, List.length_drop]
    omega

theorem markAll_spec : ∀ {l : List Buffer} (offset : Nat), l.Pairwise Buffer.Ge →
    (∀ o, cover (spans (markAll offset l)) o = mark (offset ≤ o ∧ 0 < cover (spans l) o)) ∧
    (∀ o v, Holds (markAll offset l) o v → Holds l o v) ∧
    (∀ b ∈ markAll offset l, b.defragmented = true → b.allocationSize = b.bytes.length) := by
  intro l
  induction l with
  | nil =>
    intro offset _
    exact ⟨fun o => by simp [markAll, mark], fun o v h => h, fun b hb => (by cases hb)⟩
  | cons b l ih =>
    intro offset hs
    obtain ⟨hb, hl⟩ := List.pairwise_cons.mp hs
    obtain ⟨hspan, hcell, hend, htight⟩ := tryMarkDefragment_spec b offset
    unfold markAll
    dsimp only
    rw [hend]
    obtain ⟨hcov, hholds, hsize⟩ := ih (max offset b.span.2) hl
    refine ⟨fun o => ?_, fun o v h => ?_, fun c hc => ?_⟩
    · rw [spans_cons, cover_cons, hcov o, mark_congr (hspan o), spans_cons, cover_cons]
      -- Chunks that hold an offset outside `b` but start no earlier hold it behind the end of `b`.
      have hlater : 0 < cover (spans l) o → b.offset ≤ o := fun h => by
        obtain ⟨v, c, hc, hcell⟩ := exists_holds_iff.mpr h
        have := ge_iff.mp (hb c hc)
        have := hcell.1
        omega
      by_cases hbo : InSpan b.span o
      · have : o < max offset b.span.2 := hbo.2.trans_le (le_max_right _ _)
        rw [mark_neg (p := max offset b.span.2 ≤ o ∧ _) (by omega), add_zero, mark_pos hbo]
        exact mark_congr ⟨fun h => ⟨h.1, by omega⟩, fun h => ⟨h.1, hbo⟩⟩
      rw [mark_neg (p := offset ≤ o ∧ InSpan b.span o) (fun h => hbo h.2), mark_neg hbo, zero_add, zero_add]
      refine mark_congr ⟨fun h => ⟨by omega, h.2⟩, fun h => ⟨?_, h.2⟩⟩
      have h1 := hlater h.2
      have h2 : ¬o < b.span.2 := fun h => hbo ⟨h1, h⟩
      omega
    · rcases holds_cons.mp h with h | h
      · exact holds_cons.mpr (.inl (hcell o v h))
      · exact holds_cons.mpr (.inr (hholds o v h))
    · rcases List.mem_cons.mp hc with rfl | hc
      · exact htight
      · exact hsize c hc

/-- The buffers `added` hold what `buffer` at `offset` and the chunks `l` hold, without slack. -/
structure Merged (l : List Buffer) (offset : Nat) (buffer : Bytes) (added : List Buffer) : Prop where
  cover : ∀ o, cover (spans added) o = mark (InSpan (offset, offset + buffer.length) o) + cover (spans l) o
  holds : ∀ o v, Holds added o v ↔ Cell offset buffer o v ∨ Holds l o v
  solid : ∀ b ∈ added, b.bytes ≠ []
  tight : ∀ b ∈ added, b.allocationSize = b.bytes.length
  total : total (spans added) = buffer.length + total (spans l)

theorem allocations_of_tight : ∀ {l : List Buffer}, (∀ b ∈ l, b.allocationSize = b.bytes.length) →
    allocations l = total (spans l)
  | [], _ => rfl
  | b :: l, h => by
    rw [allocations_cons, spans_cons, total_cons, span_length, h b List.mem_cons_self,
      allocations_of_tight fun c hc => h c (List.mem_cons_of_mem b hc)]

theorem flush_spec (data : Buffers) (offset : Nat) (buffer : Bytes) :
    ∃ added, (flush data offset buffer).toList.Perm (added ++ data.toList) ∧ Merged [] offset buffer added := by
  cases buffer with
  | nil =>
    refine ⟨[], List.Perm.refl _, fun o => ?_, fun o v => ?_, fun b hb => (by cases hb), fun b hb => (by cases hb), rfl⟩
    · simp [mark_empty]
    · simp [not_holds_nil]
  | cons x xs =>
    refine ⟨[newDefragmented offset (x :: xs)], push_perm _ _, fun o => ?_, fun o v => ?_,
      fun b hb => ?_, fun b hb => ?_, ?_⟩
    · simp [newDefragmented, span]
    · simp [newDefragmented, Holds]
    · obtain rfl := List.mem_singleton.mp hb
      exact List.cons_ne_nil x xs
    · obtain rfl := List.mem_singleton.mp hb
      rfl
    · simp [newDefragmented, span]

theorem Merged.kept
    (h : Merged l offset buffer added) (hne : chunk.bytes ≠ []) (hsize : chunk.allocationSize = chunk.bytes.length) :
    Merged (chunk :: l) offset buffer (chunk :: added) where
  cover o := by
    rw [spans_cons, cover_cons, h.cover, spans_cons, cover_cons]
    omega
  holds o v := by
    rw [holds_cons, h.holds, holds_cons]
    exact or_left_comm
  solid b hb := by
    rcases List.mem_cons.mp hb with rfl | hb
    · exact hne
    · exact h.solid b hb
  tight b hb := by
    rcases List.mem_cons.mp hb with rfl | hb
    · exact hsize
    · exact h.tight b hb
  total := by
    rw [spans_cons, total_cons, h.total, spans_cons, total_cons]
    omega

theorem Merged.empty
    (h : Merged l offset buffer added) (hnil : chunk.bytes = []) : Merged (chunk :: l) offset buffer added where
  cover o := by
    rw [h.cover, spans_cons, cover_cons, span, hnil, List.length_nil, add_zero, mark_empty le_rfl, zero_add]
  holds o v := by
    rw [h.holds, holds_cons, hnil, or_iff_right (a := Cell chunk.offset [] o v) not_cell_nil]
  solid := h.solid
  tight := h.tight
  total := by
    rw [h.total, spans_cons, total_cons, span_length, hnil, List.length_nil, zero_add]

theorem Merged.flushed {a₁ a₂ : List Buffer} (h₁ : Merged [] offset buffer a₁) (h₂ : Merged l chunk.offset chunk.bytes a₂) :
    Merged (chunk :: l) offset buffer (a₂ ++ a₁) where
  cover o := by
    rw [spans_append, cover_append, h₁.cover, h₂.cover, spans_cons, cover_cons, spans_nil, cover_nil, span]
    omega
  holds o v := by
    rw [holds_append, h₁.holds, h₂.holds, holds_cons, or_iff_left not_holds_nil]
    exact or_comm
  solid b hb := (List.mem_append.mp hb).elim (h₂.solid b) (h₁.solid b)
  tight b hb := (List.mem_append.mp hb).elim (h₂.tight b) (h₁.tight b)
  total := by
    rw [spans_append, total_append, h₁.total, h₂.total, spans_cons, total_cons, span_length, spans_nil, total_nil]
    omega

theorem Merged.joined (h : Merged l offset (buffer ++ chunk.bytes) added) (hjoin : chunk.offset = offset + buffer.length) :
    Merged (chunk :: l) offset buffer added where
  cover o := by
    rw [h.cover, spans_cons, cover_cons, span, hjoin, List.length_append, ← add_assoc,
      mark_split (Nat.le_add_right offset buffer.length) le_self_add]
    omega
  holds o v := by
    rw [h.holds, cell_append, holds_cons, hjoin, or_assoc]
  solid := h.solid
  tight := h.tight
  total := by
    rw [h.total, spans_cons, total_cons, span_length, List.length_append]
    omega

theorem mergeAll_spec : ∀ {l : List Buffer} (data : Buffers) (offset : Nat) (buffer : Bytes),
    (∀ b ∈ l, b.defragmented = true → b.allocationSize = b.bytes.length) →
    ∃ added, (mergeAll l data offset buffer).toList.Perm (added ++ data.toList) ∧ Merged l offset buffer added := by
  intro l
  induction l with
  | nil => exact fun data offset buffer _ => flush_spec data offset buffer
  | cons chunk l ih =>
    intro data offset buffer hsize
    have hl : ∀ b ∈ l, b.defragmented = true → b.allocationSize = b.bytes.length :=
      fun b hb => hsize b (List.mem_cons_of_mem chunk hb)
    unfold mergeAll
    cases hd : chunk.defragmented with
    | true =>
      rw [if_pos rfl]
      by_cases hnil : chunk.bytes = []
      · obtain ⟨added, hperm, hm⟩ := ih data offset buffer hl
        rw [if_pos (List.isEmpty_iff.mpr hnil)]
        exact ⟨added, hperm, hm.empty hnil⟩
      obtain ⟨added, hperm, hm⟩ := ih (data.push chunk) offset buffer hl
      rw [if_neg (fun h => hnil (List.isEmpty_iff.mp h))]
      refine ⟨chunk :: added, ?_, hm.kept hnil (hsize chunk List.mem_cons_self hd)⟩
      exact hperm.trans (((push_perm data chunk).append_left added).trans List.perm_middle)
    | false =>
      rw [if_neg Bool.false_ne_true]
      by_cases hjoin : chunk.offset = offset + buffer.length
      · obtain ⟨added, hperm, hm⟩ := ih data offset (buffer ++ chunk.bytes) hl
        rw [if_neg (not_not.mpr hjoin)]
        exact ⟨added, hperm, hm.joined hjoin⟩
      obtain ⟨a₁, hperm₁, hm₁⟩ := flush_spec data offset buffer
      obtain ⟨a₂, hperm₂, hm₂⟩ := ih (flush data offset buffer) chunk.offset chunk.bytes hl
      rw [if_pos hjoin]
      refine ⟨a₂ ++ a₁, ?_, hm₁.flushed hm₂⟩
      rw [List.append_assoc]
      exact hperm₂.trans (hperm₁.append_left a₂)

/-- No buffer is empty, and the counters are those of the buffers. -/
structure Tidy (a : Assembler) : Prop where
  solid : ∀ b ∈ a.data.toList, b.bytes ≠ []
  buffered : a.buffered = total (spans a.data.toList)
  allocated : a.allocated = allocations a.data.toList

theorem tidy_new : Tidy new := ⟨fun b hb => (by cases hb), rfl, rfl⟩

theorem defragment_spec (a : Assembler) : Tidy a.defragment ∧
    (∀ o, cover (spans a.defragment.data.toList) o = mark (0 < cover (spans a.data.toList) o)) ∧
    (∀ o v, Holds a.defragment.data.toList o v → Holds a.data.toList o v) := by
  unfold defragment
  rw [intoSortedVec, List.reverse_reverse]
  dsimp only
  obtain ⟨hcov, hholds, hsize⟩ := markAll_spec 0 a.data.sorted
  obtain ⟨added, hperm, hm⟩ := mergeAll_spec empty 0 [] hsize
  have hperm : (mergeAll (markAll 0 a.data.toList) empty 0 []).toList.Perm added := by
    simpa [empty] using hperm
  have htot : total (spans added) = total (spans (markAll 0 a.data.toList)) := by
    rw [hm.total, List.length_nil, zero_add]
  refine ⟨⟨fun b hb => hm.solid b (hperm.mem_iff.mp hb), ?_, ?_⟩, fun o => ?_, fun o v h => ?_⟩
  · rw [← total_spans, ← htot]
    exact (total_perm (hperm.map span)).symm
  · rw [← total_spans, ← htot, ← allocations_of_tight hm.tight]
    exact ((hperm.map _).sum_eq).symm
  · rw [spans, cover_perm (hperm.map span) o]
    have := hm.cover o
    rw [List.length_nil, mark_empty le_rfl, zero_add, hcov o] at this
    rw [← spans, this]
    exact mark_congr (and_iff_right (Nat.zero_le o))
  · rcases (hm.holds o v).mp ((holds_perm hperm).mp h) with h | h
    · exact absurd h not_cell_nil
    · exact hholds o v h

/-! What `insert` and `read` do to the buffers of an assembler. Under `Tidy` none of their
    subtractions and slices goes wrong. -/

variable {a : Assembler} {chunk : Buffer}

theorem tidy_pushBuffer (h : Tidy a) {b : Buffer} (hb : b.bytes ≠ []) : Tidy (a.pushBuffer b) where
  solid c hc := by
    rcases List.mem_cons.mp ((push_perm a.data b).mem_iff.mp hc) with rfl | hc
    · exact hb
    · exact h.solid c hc
  buffered := by
    show a.buffered + b.bytes.length = total (spans (a.data.push b).toList)
    rw [spans, total_perm ((push_perm a.data b).map span), h.buffered, ← spans, spans_cons, total_cons,
      span_length, add_comm]
  allocated := by
    show a.allocated + b.allocationSize = allocations (a.data.push b).toList
    rw [allocations, ((push_perm a.data b).map _).sum_eq, h.allocated, ← allocations, allocations_cons, add_comm]

theorem cover_pushBuffer (b : Buffer) (o : Nat) :
    cover (spans (a.pushBuffer b).data.toList) o = mark (InSpan b.span o) + cover (spans a.data.toList) o := by
  show cover (spans (a.data.push b).toList) o = _
  rw [spans, cover_perm ((push_perm a.data b).map span), ← spans, spans_cons, cover_cons]

theorem holds_pushBuffer {b : Buffer} {o : Nat} {v : UInt8} :
    Holds (a.pushBuffer b).data.toList o v ↔ Cell b.offset b.bytes o v ∨ Holds a.data.toList o v :=
  (holds_perm (push_perm a.data b)).trans holds_cons

structure Stored (a t : Assembler) (offset : Nat) (bytes : Bytes) : Prop where
  tidy : Tidy t
  state : t.state = a.state
  bytesRead : t.bytesRead = a.bytesRead
  end_ : t.end_ = a.end_
  holds : ∀ o v, Holds t.data.toList o v → Holds a.data.toList o v ∨ Cell offset bytes o v
  covered : ∀ o, 0 < cover (spans t.data.toList) o ↔
    0 < cover (spans a.data.toList) o ∨ InSpan (offset, offset + bytes.length) o
  once : ∀ o, cover (spans a.data.toList) o + mark (InSpan (offset, offset + bytes.length) o) ≤ 1 →
    cover (spans t.data.toList) o = cover (spans a.data.toList) o + mark (InSpan (offset, offset + bytes.length) o)

theorem store_spec (h : Tidy a) (hend : a.bytesRead ≤ a.end_) (offset : Nat) (bytes : Bytes) (allocationSize : Nat) :
    ∃ t, a.store offset bytes allocationSize = some t ∧ Stored a t offset bytes := by
  unfold store
  by_cases hnil : bytes = []
  · subst hnil
    refine ⟨a, if_pos rfl, h, rfl, rfl, rfl, fun o v => .inl, fun o => ?_, fun o _ => ?_⟩
    · exact ⟨.inl, fun ho => ho.resolve_right fun ho => absurd ho.2 (not_lt.mpr ho.1)⟩
    · rw [List.length_nil, add_zero, mark_empty le_rfl, add_zero]
  rw [if_neg fun he => hnil (List.isEmpty_iff.mp he)]
  have hp := tidy_pushBuffer h (b := Buffer.new offset bytes allocationSize) hnil
  have hcov := cover_pushBuffer (a := a) (Buffer.new offset bytes allocationSize)
  have hholds := @holds_pushBuffer a (Buffer.new offset bytes allocationSize)
  have hsub : checkedSub (a.pushBuffer (Buffer.new offset bytes allocationSize)).end_
      (a.pushBuffer (Buffer.new offset bytes allocationSize)).bytesRead = some (a.end_ - a.bytesRead) :=
    checkedSub_of_le hend
  dsimp only
  rw [hsub]
  refine ⟨_, rfl, ?_⟩
  -- The push alone stores the bytes; a defragmentation after it keeps what was stored.
  split
  · obtain ⟨ht, hc, hh⟩ := defragment_spec (a.pushBuffer (Buffer.new offset bytes allocationSize))
    refine ⟨ht, rfl, rfl, rfl, fun o v ho => (hholds.mp (hh o v ho)).symm, fun o => ?_, fun o ho => ?_⟩
    · rw [hc o, mark_pos_iff, hcov o, Nat.add_pos_iff_pos_or_pos, mark_pos_iff, or_comm]
      rfl
    · rw [hc o, hcov o, add_comm]
      exact mark_of_le_one ho
  refine ⟨hp, rfl, rfl, rfl, fun o v ho => (hholds.mp ho).symm, fun o => ?_, fun o ho => ?_⟩
  · rw [hcov o, Nat.add_pos_iff_pos_or_pos, mark_pos_iff, or_comm]
    rfl
  · rw [hcov o, add_comm]
    rfl

/-- What the loop over the duplicates `ds` leaves: the parts between them on the heap, and the rest of
    the bytes. -/
structure Discarded (a : Assembler) (offset : Nat) (bytes : Bytes) (ds : List (Nat × Nat)) (t : Assembler)
    (offset' : Nat) (bytes' : Bytes) : Prop where
  tidy : Tidy t
  state : t.state = a.state
  bytesRead : t.bytesRead = a.bytesRead
  end_ : t.end_ = a.end_
  last : offset' + bytes'.length = offset + bytes.length
  cell : ∀ o v, Cell offset' bytes' o v → Cell offset bytes o v
  holds : ∀ o v, Holds t.data.toList o v → Holds a.data.toList o v ∨ Cell offset bytes o v
  cover : ∀ o, cover (spans t.data.toList) o + cover ds o + mark (InSpan (offset', offset' + bytes'.length) o) =
    cover (spans a.data.toList) o + mark (InSpan (offset, offset + bytes.length) o)

theorem discard_spec (allocationSize : Nat) : ∀ {ds : List (Nat × Nat)} {a : Assembler} {offset : Nat} {bytes : Bytes},
    Tidy a → ds.Pairwise (·.2 ≤ ·.1) → (∀ d ∈ ds, offset ≤ d.1 ∧ d.1 < d.2 ∧ d.2 ≤ offset + bytes.length) →
    ∃ t offset' bytes', discard allocationSize ds a offset bytes = some (t, offset', bytes') ∧
      Discarded a offset bytes ds t offset' bytes' := by
  intro ds
  induction ds with
  | nil =>
    intro a offset bytes h _ _
    exact ⟨a, offset, bytes, rfl, h, rfl, rfl, rfl, rfl, fun o v => id, fun o v => .inl, fun o => by simp⟩
  | cons d ds ih =>
    intro a offset bytes h hord hin
    obtain ⟨hd, hord⟩ := List.pairwise_cons.mp hord
    obtain ⟨h1, h2, h3⟩ := hin d List.mem_cons_self
    have hdrop : (bytes.drop (d.2 - offset)).length = offset + bytes.length - d.2 := by
      rw [List.length_drop]
      omega
    have hlast : d.2 + (bytes.drop (d.2 - offset)).length = offset + bytes.length := by omega
    have hd2 : d.2 = offset + (d.2 - offset) := by omega
    -- The rest of the loop, from the end of this duplicate on.
    have rest : ∀ {s : Assembler}, Tidy s → ∃ t offset' bytes',
        discard allocationSize ds s d.2 (bytes.drop (d.2 - offset)) = some (t, offset', bytes') ∧
          Discarded s d.2 (bytes.drop (d.2 - offset)) ds t offset' bytes' := fun hs =>
      ih hs hord fun e he => by
        have := hd e he
        obtain ⟨-, e2, e3⟩ := hin e (List.mem_cons_of_mem d he)
        exact ⟨this, e2, by omega⟩
    have hcell : ∀ o v, Cell d.2 (bytes.drop (d.2 - offset)) o v → Cell offset bytes o v := fun o v hc => by
      rw [hd2, Nat.add_sub_cancel_left] at hc
      exact (cell_drop.mp hc).2
    have hspl : ∀ o, mark (InSpan (offset, offset + bytes.length) o) =
        mark (InSpan (offset, d.1) o) + (mark (InSpan d o) + mark (InSpan (d.2, d.2 + (bytes.drop (d.2 - offset)).length) o)) :=
      fun o => by
        rw [hlast, mark_split h1 (show d.1 ≤ offset + bytes.length by omega), mark_split h2.le h3]
    unfold discard
    by_cases hgap : offset < d.1
    · have hlen : d.1 - offset ≤ bytes.length := by omega
      rw [if_pos hgap, Bytes.splitTo, if_pos hlen]
      simp only [Option.bind_eq_bind, Option.bind_some]
      rw [checkedSub_of_le h2.le]
      simp only [Option.bind_some]
      rw [Bytes.advance, if_pos (by rw [List.length_drop]; omega)]
      simp only [Option.bind_some, List.drop_drop]
      rw [show d.1 - offset + (d.2 - d.1) = d.2 - offset by omega]
      have hne : bytes.take (d.1 - offset) ≠ [] := fun hnil => by
        have := congrArg List.length hnil
        rw [List.length_take, List.length_nil] at this
        omega
      have hspan : (Buffer.new offset (bytes.take (d.1 - offset)) allocationSize).span = (offset, d.1) := by
        simp only [span, Buffer.new, List.length_take, Prod.mk.injEq, true_and]
        omega
      obtain ⟨t, offset', bytes', ht, D⟩ :=
        rest (tidy_pushBuffer h (b := Buffer.new offset (bytes.take (d.1 - offset)) allocationSize) hne)
      refine ⟨t, offset', bytes', ht, D.tidy, D.state, D.bytesRead, D.end_, D.last.trans hlast,
        fun o v hc => hcell o v (D.cell o v hc), fun o v ho => ?_, fun o => ?_⟩
      · rcases D.holds o v ho with ho | ho
        · rcases holds_pushBuffer.mp ho with ho | ho
          · exact .inr (cell_take.mp ho).2
          · exact .inl ho
        · exact .inr (hcell o v ho)
      · have := D.cover o
        rw [cover_pushBuffer, hspan] at this
        rw [cover_cons, hspl o]
        omega
    have heq : d.1 = offset := by omega
    rw [if_neg hgap]
    simp only [Option.bind_eq_bind, Option.bind_some]
    rw [checkedSub_of_le (by omega), Option.bind_some, Bytes.advance, if_pos (by omega)]
    obtain ⟨t, offset', bytes', ht, D⟩ := rest h
    refine ⟨t, offset', bytes', ht, D.tidy, D.state, D.bytesRead, D.end_, D.last.trans hlast,
      fun o v hc => hcell o v (D.cell o v hc), fun o v ho => (D.holds o v ho).imp_right (hcell o v), fun o => ?_⟩
    have := D.cover o
    rw [cover_cons, hspl o, heq, mark_empty le_rfl]
    omega

structure InsertedOrdered (a t : Assembler) (offset : Nat) (bytes : Bytes) : Prop where
  tidy : Tidy t
  state : t.state = .ordered
  bytesRead : t.bytesRead = a.bytesRead
  end_ : t.end_ = max a.end_ (offset + bytes.length)
  holds : ∀ o v, Holds t.data.toList o v → Holds a.data.toList o v ∨ Cell offset bytes o v
  covered : ∀ o, a.bytesRead ≤ o → (0 < cover (spans t.data.toList) o ↔
    0 < cover (spans a.data.toList) o ∨ InSpan (offset, offset + bytes.length) o)

theorem insert_ordered (h : Tidy a) (hs : a.state = .ordered) (hend : a.bytesRead ≤ a.end_) (offset : Nat)
    (bytes : Bytes) (allocationSize : Nat) :
    ∃ t, a.insert offset bytes allocationSize = some t ∧ InsertedOrdered a t offset bytes := by
  have hend' : a.bytesRead ≤ max a.end_ (offset + bytes.length) := hend.trans (le_max_left _ _)
  have h' : Tidy { a with state := .ordered, end_ := max a.end_ (offset + bytes.length) } :=
    { h with }
  unfold insert
  simp only [hs]
  split
  · next hlow =>
    split
    · next hall =>
      refine ⟨_, rfl, h', rfl, rfl, rfl, fun o v => .inl, fun o ho => ⟨.inl, fun hc => hc.resolve_right ?_⟩⟩
      intro hin
      exact absurd (hin.2.trans_le hall) (not_lt.mpr ho)
    next hall =>
    obtain ⟨t, ht, S⟩ := store_spec h' hend' (offset + (a.bytesRead - offset)) (bytes.drop (a.bytesRead - offset))
      allocationSize
    refine ⟨t, ht, S.tidy, S.state, S.bytesRead, S.end_,
      fun o v ho => (S.holds o v ho).imp_right fun hc => (cell_drop.mp hc).2, fun o ho => ?_⟩
    rw [S.covered o]
    refine or_congr_right ?_
    simp only [InSpan, List.length_drop]
    omega
  next hlow =>
  obtain ⟨t, ht, S⟩ := store_spec h' hend' offset bytes allocationSize
  exact ⟨t, ht, S.tidy, S.state, S.bytesRead, S.end_, S.holds, fun o _ => S.covered o⟩

structure InsertedUnordered (a t : Assembler) (recvd recvd' : RangeSet) (offset : Nat) (bytes : Bytes) : Prop where
  tidy : Tidy t
  state : t.state = .unordered recvd'
  separated : recvd'.Separated
  mem : ∀ o, recvd'.Mem o ↔ recvd.Mem o ∨ InSpan (offset, offset + bytes.length) o
  bytesRead : t.bytesRead = a.bytesRead
  end_ : t.end_ = max a.end_ (offset + bytes.length)
  holds : ∀ o v, Holds t.data.toList o v → Holds a.data.toList o v ∨ Cell offset bytes o v
  cover : ∀ o, cover (spans t.data.toList) o =
    cover (spans a.data.toList) o + mark (InSpan (offset, offset + bytes.length) o ∧ ¬recvd.Mem o)

theorem insert_unordered (h : Tidy a) {recvd : RangeSet} (hs : a.state = .unordered recvd) (hsep : recvd.Separated)
    (hend : a.bytesRead ≤ a.end_) (hdata : ∀ o, cover (spans a.data.toList) o ≤ mark (recvd.Mem o)) (offset : Nat)
    (bytes : Bytes) (allocationSize : Nat) (hclear : recvd.Clear (offset, offset + bytes.length)) :
    ∃ t recvd', a.insert offset bytes allocationSize = some t ∧ InsertedUnordered a t recvd recvd' offset bytes := by
  obtain ⟨O, hsep', hmem'⟩ := RangeSet.replaceAll_spec hsep (Nat.le_add_right offset bytes.length) hclear
  unfold insert
  simp only [hs]
  generalize recvd.replaceAll (offset, offset + bytes.length) = R at O hsep' hmem' ⊢
  obtain ⟨ds, recvd'⟩ := R
  have h' : Tidy { a with state := .unordered recvd', end_ := max a.end_ (offset + bytes.length) } :=
    { h with }
  obtain ⟨s, offset', bytes', hdisc, D⟩ := discard_spec allocationSize h' O.order O.inside
  have hsend : s.bytesRead ≤ s.end_ := by
    rw [D.bytesRead, D.end_]
    exact hend.trans (le_max_left _ _)
  obtain ⟨t, hstore, S⟩ := store_spec D.tidy hsend offset' bytes' allocationSize
  have hdup : ∀ o, cover ds o = mark (recvd.Mem o ∧ InSpan (offset, offset + bytes.length) o) := fun o => by
    rw [← mark_of_le_one (cover_le_one_of_order O.order)]
    exact mark_congr (cover_pos_iff.trans (O.exact_ o))
  have hcov : ∀ o, cover (spans s.data.toList) o + mark (InSpan (offset', offset' + bytes'.length) o) =
      cover (spans a.data.toList) o + mark (InSpan (offset, offset + bytes.length) o ∧ ¬recvd.Mem o) := fun o => by
    have := D.cover o
    rw [hdup o, mark_split_prop (recvd.Mem o) (InSpan (offset, offset + bytes.length) o)] at this
    dsimp only at this
    omega
  refine ⟨t, recvd', ?_, S.tidy, S.state.trans D.state, hsep', hmem', S.bytesRead.trans D.bytesRead,
    S.end_.trans D.end_, fun o v ho => ?_, fun o => ?_⟩
  · simp only [Option.bind_eq_bind, hdisc, Option.bind_some]
    exact hstore
  · rcases S.holds o v ho with ho | ho
    · exact D.holds o v ho
    · exact .inr (D.cell o v ho)
  · rw [S.once o ?_, hcov o]
    rw [hcov o]
    have := hdata o
    by_cases hm : recvd.Mem o
    · rw [mark_neg (p := _ ∧ ¬recvd.Mem o) fun h => h.2 hm, add_zero]
      exact this.trans mark_le_one
    rw [mark_neg hm] at this
    rw [Nat.le_zero.mp this, zero_add]
    exact mark_le_one

structure Taken (a t : Assembler) (chunk : Buffer) (maxLength : Nat) (c : Chunk) : Prop where
  tidy : Tidy t
  state : t.state = a.state
  end_ : t.end_ = a.end_
  bytesRead : t.bytesRead = a.bytesRead + c.bytes.length
  offset : c.offset = chunk.offset
  length : c.bytes.length ≤ maxLength
  solid : 0 < maxLength → c.bytes ≠ []
  holds : ∀ o v, Cell c.offset c.bytes o v ∨ Holds t.data.toList o v ↔ Holds (chunk :: a.data.pop.toList) o v
  cover : ∀ o, mark (InSpan c.span o) + cover (spans t.data.toList) o = cover (spans (chunk :: a.data.pop.toList)) o

theorem takeTop_spec (hsolid : ∀ b ∈ chunk :: a.data.pop.toList, b.bytes ≠ [])
    (hb : a.buffered = total (spans (chunk :: a.data.pop.toList)))
    (ha : a.allocated = allocations (chunk :: a.data.pop.toList)) (maxLength : Nat) :
    ∃ t c, takeTop a chunk maxLength = some (t, some c) ∧ Taken a t chunk maxLength c := by
  rw [spans_cons, total_cons, span_length] at hb
  rw [allocations_cons] at ha
  unfold takeTop
  by_cases hmax : maxLength < chunk.bytes.length
  · rw [if_pos hmax, checkedSub_of_le (by omega)]
    have hperm := replaceTop_perm a.data
      { chunk with offset := chunk.offset + maxLength, bytes := chunk.bytes.drop maxLength }
    have htake := List.length_take_of_le hmax.le
    refine ⟨_, _, rfl, ⟨fun b hb' => ?_, ?_, ?_⟩, rfl, rfl, ?_, rfl, htake.le, fun h hnil => ?_, fun o v => ?_, fun o => ?_⟩
    · rcases List.mem_cons.mp (hperm.mem_iff.mp hb') with rfl | hb'
      · intro hnil
        have := congrArg List.length hnil
        simp only [List.length_drop, List.length_nil] at this
        omega
      · exact hsolid b (List.mem_cons_of_mem _ hb')
    · rw [spans, total_perm (hperm.map span), ← spans, spans_cons, total_cons, span_length]
      simp only [List.length_drop]
      omega
    · rw [allocations, (hperm.map _).sum_eq, ← allocations, allocations_cons]
      exact ha
    · rw [htake]
    · have := htake.symm.trans (congrArg List.length hnil)
      exact absurd this h.ne'
    · rw [holds_perm hperm, holds_cons, holds_cons, ← or_assoc]
      have : Cell chunk.offset (chunk.bytes.take maxLength ++ chunk.bytes.drop maxLength) o v ↔ _ := cell_append
      rw [htake, List.take_append_drop] at this
      rw [this]
    · rw [spans, cover_perm (hperm.map span), ← spans, spans_cons, spans_cons, cover_cons, cover_cons, ← add_assoc]
      rw [Chunk.span, span, span, htake, List.length_drop,
        mark_split (Nat.le_add_right chunk.offset maxLength) (show _ ≤ chunk.offset + chunk.bytes.length by omega),
        show chunk.offset + maxLength + (chunk.bytes.length - maxLength) = chunk.offset + chunk.bytes.length by omega]
  rw [if_neg hmax, checkedSub_of_le (by omega)]
  rw [checkedSub_of_le (by omega)]
  refine ⟨_, _, rfl, ⟨fun b hb' => hsolid b (List.mem_cons_of_mem _ hb'), by simp only; omega, by simp only; omega⟩,
    rfl, rfl, rfl, rfl, not_lt.mp hmax, fun _ => hsolid chunk List.mem_cons_self, fun o v => ?_, fun o => ?_⟩
  · rw [holds_cons]
  · rw [spans_cons, cover_cons]
    rfl

structure ReadUnordered (a t : Assembler) (maxLength : Nat) (r : Option Chunk) : Prop where
  none_ : r = none → t = a ∧ a.data.toList = []
  some_ : ∀ c, r = some c → ∃ chunk ∈ a.data.toList, Taken a t chunk maxLength c ∧
    a.data.toList = chunk :: a.data.pop.toList

theorem read_unordered (h : Tidy a) (maxLength : Nat) :
    ∃ t r, a.read maxLength false = some (t, r) ∧ ReadUnordered a t maxLength r := by
  unfold read MaxHeap.len
  cases hpeek : a.data.peek with
  | none =>
    have hnil := peek_eq_none hpeek
    rw [hnil]
    exact ⟨a, none, rfl, fun _ => ⟨rfl, hnil⟩, fun c hc => (by cases hc)⟩
  | some chunk =>
    have htop := peek_eq_some hpeek
    have h' := h
    obtain ⟨hsolid, hb, ha⟩ := h'
    rw [htop] at hsolid hb ha
    obtain ⟨t, c, ht, T⟩ := takeTop_spec hsolid hb ha maxLength
    refine ⟨t, some c, ?_, fun hc => (by cases hc), fun c' hc => ?_⟩
    · rw [htop, List.length_cons, readLoop, hpeek]
      exact ht
    · cases hc
      exact ⟨chunk, by rw [htop]; exact List.mem_cons_self, T, htop⟩

/-- `read` in ordered mode hands out bytes from the read offset on; it finds none exactly if that
    offset is not held. -/
structure ReadOrdered (a t : Assembler) (maxLength : Nat) (r : Option Chunk) : Prop where
  tidy : Tidy t
  state : t.state = a.state
  end_ : t.end_ = a.end_
  holds : ∀ o v, Holds t.data.toList o v → Holds a.data.toList o v
  covered : ∀ o, t.bytesRead ≤ o → (0 < cover (spans t.data.toList) o ↔ 0 < cover (spans a.data.toList) o)
  none_iff : r = none ↔ cover (spans a.data.toList) a.bytesRead = 0
  none_ : r = none → t.bytesRead = a.bytesRead
  some_ : ∀ c, r = some c → c.offset = a.bytesRead ∧ t.bytesRead = a.bytesRead + c.bytes.length ∧
    c.bytes.length ≤ maxLength ∧ (0 < maxLength → c.bytes ≠ []) ∧ ∀ o v, Cell c.offset c.bytes o v → Holds a.data.toList o v

theorem ReadOrdered.skip {t : Assembler} {maxLength : Nat} {r : Option Chunk} {buffered allocated : Nat}
    (htop : a.data.toList = chunk :: a.data.pop.toList) (hlow : chunk.offset + chunk.bytes.length ≤ a.bytesRead)
    (hmono : a.bytesRead ≤ t.bytesRead)
    (R : ReadOrdered { a with data := a.data.pop, buffered := buffered, allocated := allocated } t maxLength r) :
    ReadOrdered a t maxLength r := by
  have hcov : ∀ o, a.bytesRead ≤ o → cover (spans a.data.toList) o = cover (spans a.data.pop.toList) o := fun o ho => by
    rw [htop, spans_cons, cover_cons, mark_neg (p := InSpan chunk.span o) fun h => ?_, zero_add]
    have := h.2
    simp only [span] at this
    omega
  have hholds : ∀ o v, Holds a.data.pop.toList o v → Holds a.data.toList o v := fun o v h => by
    rw [htop]
    exact holds_cons.mpr (.inr h)
  refine ⟨R.tidy, R.state, R.end_, fun o v h => hholds o v (R.holds o v h), fun o ho => ?_, ?_, R.none_, fun c hc => ?_⟩
  · rw [hcov o (hmono.trans ho)]
    exact R.covered o ho
  · rw [hcov _ le_rfl]
    exact R.none_iff
  · obtain ⟨h1, h2, h3, h4, h5⟩ := R.some_ c hc
    exact ⟨h1, h2, h3, h4, fun o v h => hholds o v (h5 o v h)⟩

/-- The top chunk holds the read offset: what it holds below is cut off, and the rest is handed out. -/
theorem takeTop_ordered (h : Tidy a) (hpeek : a.data.peek = some chunk)
    (h₁ : chunk.offset ≤ a.bytesRead) (h₂ : a.bytesRead < chunk.offset + chunk.bytes.length) (maxLength : Nat) :
    ∃ t r, takeTop { a with buffered := a.buffered - (a.bytesRead - chunk.offset) }
        { chunk with offset := chunk.offset + (a.bytesRead - chunk.offset)
                     bytes := chunk.bytes.drop (a.bytesRead - chunk.offset) } maxLength = some (t, r) ∧
      ReadOrdered a t maxLength r := by
  have htop := peek_eq_some hpeek
  obtain ⟨hsolid, hb, ha⟩ := h
  rw [htop] at hsolid hb ha
  rw [spans_cons, total_cons, span_length] at hb
  generalize hcut : { chunk with offset := chunk.offset + (a.bytesRead - chunk.offset)
                                 bytes := chunk.bytes.drop (a.bytesRead - chunk.offset) } = cut
  have hoff : cut.offset = a.bytesRead := by
    rw [← hcut]
    simp only
    omega
  have hln : cut.bytes.length = chunk.offset + chunk.bytes.length - a.bytesRead := by
    rw [← hcut]
    simp only [List.length_drop]
    omega
  have hcell : ∀ o v, Cell cut.offset cut.bytes o v → Cell chunk.offset chunk.bytes o v := fun o v hc => by
    rw [← hcut] at hc
    exact (cell_drop.mp hc).2
  have hspan : ∀ o, a.bytesRead ≤ o → (InSpan cut.span o ↔ InSpan chunk.span o) := fun o ho => by
    simp only [span, InSpan]
    omega
  have hsolid' : ∀ b ∈ cut :: a.data.pop.toList, b.bytes ≠ [] := fun b hb => by
    rcases List.mem_cons.mp hb with rfl | hb
    · exact List.length_pos_iff.mp (by omega)
    · exact hsolid b (List.mem_cons_of_mem _ hb)
  have hb' : a.buffered - (a.bytesRead - chunk.offset) = total (spans (cut :: a.data.pop.toList)) := by
    rw [spans_cons, total_cons, span_length]
    omega
  have ha' : a.allocated = allocations (cut :: a.data.pop.toList) := by
    rw [ha, allocations_cons, allocations_cons, ← hcut]
  have hholds : ∀ o v, Holds (cut :: a.data.pop.toList) o v → Holds a.data.toList o v := fun o v h => by
    rw [htop]
    exact holds_cons.mpr ((holds_cons.mp h).imp_left (hcell o v))
  obtain ⟨t, c, ht, T⟩ := @takeTop_spec { a with buffered := a.buffered - (a.bytesRead - chunk.offset) } cut
    hsolid' hb' ha' maxLength
  have hmono : a.bytesRead ≤ t.bytesRead := le_self_add.trans T.bytesRead.ge
  refine ⟨t, some c, ht, T.tidy, T.state, T.end_, fun o v h => hholds o v ((T.holds o v).mp (.inr h)), fun o ho => ?_,
    ⟨fun hc => (by cases hc), fun hzero => ?_⟩, fun hc => (by cases hc), fun c' hc => ?_⟩
  · have hcov := T.cover o
    have hout : ¬InSpan c.span o := fun hin => by
      have h1 := hin.2
      have h2 := T.bytesRead
      have h3 := T.offset
      simp only [Chunk.span] at h1 h2
      omega
    rw [mark_neg hout, zero_add] at hcov
    rw [hcov, htop, spans_cons, spans_cons, cover_cons, cover_cons, mark_congr (hspan o (hmono.trans ho))]
  · have hin : InSpan chunk.span a.bytesRead := ⟨h₁, h₂⟩
    rw [htop, spans_cons, cover_cons, mark_pos hin] at hzero
    omega
  · cases hc
    exact ⟨T.offset.trans hoff, T.bytesRead, T.length, T.solid, fun o v h => hholds o v ((T.holds o v).mp (.inl h))⟩

theorem readLoop_ordered (maxLength : Nat) : ∀ (fuel : Nat) {a : Assembler}, a.data.len ≤ fuel → Tidy a →
    ∃ t r, readLoop fuel a maxLength true = some (t, r) ∧ ReadOrdered a t maxLength r := by
  -- With nothing held at the read offset, the read finds nothing and changes nothing.
  have stop : ∀ {a : Assembler}, Tidy a → cover (spans a.data.toList) a.bytesRead = 0 →
      ReadOrdered a a maxLength none := fun h hzero =>
    ⟨h, rfl, rfl, fun o v => id, fun o _ => Iff.rfl, ⟨fun _ => hzero, fun _ => rfl⟩, fun _ => rfl, fun c hc => (by cases hc)⟩
  intro fuel
  induction fuel with
  | zero =>
    intro a hlen h
    refine ⟨a, none, rfl, stop h ?_⟩
    rw [List.length_eq_zero_iff.mp (Nat.le_zero.mp hlen), spans_nil, cover_nil]
  | succ fuel ih =>
    intro a hlen h
    unfold readLoop
    cases hpeek : a.data.peek with
    | none =>
      refine ⟨a, none, rfl, stop h ?_⟩
      rw [peek_eq_none hpeek, spans_nil, cover_nil]
    | some chunk =>
      have htop := peek_eq_some hpeek
      obtain ⟨hsolid, hb, ha⟩ := id h
      rw [htop] at hsolid hb ha
      have hb' : a.buffered = chunk.bytes.length + total (spans a.data.pop.toList) := by
        rw [hb, spans_cons, total_cons, span_length]
      have ha' : a.allocated = chunk.allocationSize + allocations a.data.pop.toList := by rw [ha, allocations_cons]
      simp only [if_true]
      split
      · next haft =>
        refine ⟨a, none, rfl, stop h (cover_eq_zero_iff.mpr fun r hr hin => ?_)⟩
        -- Every chunk of the heap starts at or behind the top one.
        obtain ⟨b, hb, rfl⟩ := List.mem_map.mp hr
        have hfst : chunk.offset ≤ b.offset := by
          rcases peek_first hpeek hb with rfl | hge
          · exact le_rfl
          have := ge_iff.mp hge
          omega
        have := hin.1
        simp only [span] at this
        omega
      next haft =>
      by_cases hlow : chunk.offset + chunk.bytes.length ≤ a.bytesRead
      · rw [if_pos hlow, checkedSub_of_le (by omega)]
        rw [checkedSub_of_le (by omega)]
        have hpop : a.data.pop.len ≤ fuel := by
          have : a.data.len = a.data.pop.len + 1 := by
            unfold MaxHeap.len
            rw [htop, List.length_cons]
          omega
        have hpopped : Tidy { a with data := a.data.pop
                                     buffered := a.buffered - chunk.bytes.length
                                     allocated := a.allocated - chunk.allocationSize } :=
          ⟨fun b hb => hsolid b (List.mem_cons_of_mem _ hb), by simp only; omega, by simp only; omega⟩
        obtain ⟨t, r, ht, R⟩ := ih hpop hpopped
        refine ⟨t, r, ht, R.skip htop hlow ?_⟩
        cases r with
        | none => exact (R.none_ rfl).ge
        | some c => exact le_self_add.trans (R.some_ c rfl).2.1.ge
      rw [if_neg hlow, checkedSub_of_le (by omega)]
      exact takeTop_ordered h hpeek (not_lt.mp haft) (not_le.mp hlow) maxLength

theorem read_ordered (h : Tidy a) (maxLength : Nat) :
    ∃ t r, a.read maxLength true = some (t, r) ∧ ReadOrdered a t maxLength r :=
  readLoop_ordered maxLength _ le_rfl h

end Assembler
end SaorsaTransport
