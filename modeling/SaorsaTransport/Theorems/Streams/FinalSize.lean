import SaorsaTransport.Theorems.Streams.RecvCredit

/-! The final size of a stream: it is fixed once, frames that contradict it are refused, and a stream of which
    everything arrived ends when everything was read. -/

namespace SaorsaTransport
open Library StreamsState List Option

namespace Log

/-- The frame has data beyond a declared size, or declares another one. -/
def Contradicts (log : Log) (frame : StreamFrame) : Prop :=
  ∃ n ∈ log.sizes, n < frame.end_ ∨ frame.fin = true ∧ frame.end_ ≠ n

/-- The frame declares another size than one before, or one below what was received. -/
def ContradictsReset (log : Log) (frame : ResetStream) : Prop :=
  (∃ n ∈ log.sizes, n ≠ frame.finalOffset) ∨ ∃ o ∈ log.ends, frame.finalOffset < o

end Log

namespace Recv

variable {rs : Recv} {log : Log}

theorem ingest_contradiction (h : Good rs log) {frame : StreamFrame} (hc : log.Contradicts frame)
    (payloadLen received maxData : Nat) :
    ∃ e, rs.ingest frame payloadLen received maxData = some (.error e) := by
  obtain ⟨n, hn, hc⟩ := hc
  have hfinal := (h.sizes n).mp hn
  unfold StreamFrame.end_ at hc
  unfold ingest
  dsimp only
  split
  · exact ⟨_, rfl⟩
  rw [hfinal, any_some, if_pos (decide_eq_true hc)]
  exact ⟨_, rfl⟩

theorem reset_contradiction (h : Good rs log) {frame : ResetStream} (hc : log.ContradictsReset frame)
    (received maxData : Nat) :
    ∃ e, rs.reset frame.errorCode frame.finalOffset received maxData = .error e := by
  have hv : ∃ e, rs.validateFinalOffset frame.finalOffset = .error e := by
    unfold validateFinalOffset
    cases hf : rs.finalOffset with
    | none =>
      have hlow : frame.finalOffset < rs.end_ := by
        rcases hc with ⟨n, hn, -⟩ | ⟨o, ho, hlt⟩
        · cases hf.symm.trans ((h.sizes n).mp hn)
        · exact hlt.trans_le (h.ends o ho)
      rw [if_pos hlow]
      exact ⟨_, rfl⟩
    | some m =>
      have hne : m ≠ frame.finalOffset := by
        rcases hc with ⟨n, hn, hne⟩ | ⟨o, ho, hlt⟩
        · exact some.inj (((h.sizes n).mp hn).symm.trans hf) ▸ hne
        have := h.ends o ho
        have := h.within m hf
        omega
      dsimp only
      rw [if_pos hne]
      exact ⟨_, rfl⟩
  obtain ⟨e, he⟩ := hv
  refine ⟨e, ?_⟩
  unfold Recv.reset
  rw [he]
  rfl

end Recv

namespace StreamsState

variable {s t : StreamsState} {id : StreamId} {logs : StreamId → Log} {phase : Phase}

structure Refused (s t : StreamsState) : Prop where
  recvAt : ∀ id, t.recvAt id = s.recvAt id
  mem : ∀ id, id ∈ t.recv ↔ id ∈ s.recv
  dataRecvd : t.dataRecvd = s.dataRecvd
  localMaxData : t.localMaxData = s.localMaxData
  debt : t.receiveWindowShrinkDebt = s.receiveWindowShrinkDebt

theorem refused_refl (s : StreamsState) : Refused s s := ⟨fun _ => rfl, fun _ => Iff.rfl, rfl, rfl, rfl⟩

theorem refused_setRecv {rs : Recv} (h : s.recvAt id = some rs) : Refused s (s.setRecv id rs) := by
  refine ⟨fun id' => ?_, fun id' => ?_, rfl, rfl, rfl⟩
  · by_cases hid : id' = id
    · subst hid
      rw [recvAt_setRecv_self, h]
    · exact recvAt_setRecv_ne rs hid
  · exact (mem_setRecv rs).trans (or_iff_right_of_imp fun hid => hid ▸ mem_of_recvAt h)

section
variable (h : RecvInv phase s logs)
include h

theorem RecvInv.recvAt_eq (hid : id ∈ s.recv) (hlog : logs id ≠ .empty) : s.recvAt id = some (s.recvOr id) := by
  cases hat : s.recvAt id with
  | none => exact absurd (h.unused id hid hat) hlog
  | some rs => rw [recvOr_of_some hat]

theorem refused_received (hp : s.Pooled) {frame : StreamFrame} (hc : (logs frame.id).Contradicts frame) (payloadLen : Nat) :
    ∃ t r, s.received frame payloadLen = some (t, r) ∧ Refused s t ∧
      ((s.recvAt frame.id).any Recv.isReceiving = true → ∃ e, r = .error e) := by
  have hlog : logs frame.id ≠ .empty := fun he => by
    obtain ⟨n, hn, -⟩ := hc
    rw [he] at hn
    cases hn
  unfold received
  cases hv : s.validateReceiveId frame.id with
  | error e => exact ⟨s, .error e, rfl, refused_refl s, fun _ => ⟨e, rfl⟩⟩
  | ok _ =>
    cases hl : s.recv.lookup frame.id with
    | none =>
      refine ⟨s, .ok false, rfl, refused_refl s, fun hr => ?_⟩
      rw [recvAt_of_notMem (AList.lookup_eq_none.mp hl)] at hr
      cases hr
    | some entry =>
      have hmem := mem_of_lookup_recv hl
      have hat := h.recvAt_eq hmem hlog
      dsimp only
      rw [getOrInsertRecv_eq hp hl, hat, any_some]
      cases hr : (s.recvOr frame.id).isReceiving with
      | false => exact ⟨_, _, rfl, refused_setRecv hat, nofun⟩
      | true =>
        obtain ⟨e, he⟩ := Recv.ingest_contradiction (h.good frame.id hmem) hc payloadLen s.dataRecvd s.localMaxData
        rw [he]
        exact ⟨_, _, rfl, refused_setRecv hat, fun _ => ⟨e, rfl⟩⟩

theorem refused_receivedReset (hp : s.Pooled) {frame : ResetStream} (hc : (logs frame.id).ContradictsReset frame) :
    ∃ t r, s.receivedReset frame = some (t, r) ∧ Refused s t ∧ (frame.id ∈ s.recv → ∃ e, r = .error e) := by
  have hlog : logs frame.id ≠ .empty := fun he => by
    rw [he] at hc
    rcases hc with ⟨n, hn, -⟩ | ⟨o, ho, -⟩
    · cases hn
    · cases ho
  unfold receivedReset
  cases hv : s.validateReceiveId frame.id with
  | error e => exact ⟨s, .error e, rfl, refused_refl s, fun _ => ⟨e, rfl⟩⟩
  | ok _ =>
    cases hl : s.recv.lookup frame.id with
    | none => exact ⟨s, .ok false, rfl, refused_refl s, fun hm => absurd hm (AList.lookup_eq_none.mp hl)⟩
    | some entry =>
      have hmem := mem_of_lookup_recv hl
      have hat := h.recvAt_eq hmem hlog
      dsimp only
      rw [getOrInsertRecv_eq hp hl]
      obtain ⟨e, he⟩ := Recv.reset_contradiction (h.good frame.id hmem) hc s.dataRecvd s.localMaxData
      rw [he]
      exact ⟨_, _, rfl, refused_setRecv hat, fun _ => ⟨e, rfl⟩⟩

end

theorem insertRemotes_some {dir : Dir} {start : Nat} : ∀ (count : Nat),
    (∀ i, start ≤ i → i < start + count → (⟨s.side.peer, dir, i⟩ : StreamId) ∉ s.send ∧ (⟨s.side.peer, dir, i⟩ : StreamId) ∉ s.recv) →
    ∃ t, s.insertRemotes dir start count = some t
  | 0, _ => ⟨s, rfl⟩
  | count + 1, h => by
    obtain ⟨u, hu⟩ := insertRemotes_some count fun i h1 h2 => h i h1 (by omega)
    have ha := added_insertRemotes hu
    obtain ⟨hsend, hrecv⟩ := h (start + count) le_self_add (by omega)
    have hpeer : u.side.peer = s.side.peer := by rw [ha.side]
    -- The next stream is none of those that were just entered.
    have hnot : ¬s.Within dir start (start + count) ⟨s.side.peer, dir, start + count⟩ := fun hw => lt_irrefl _ hw.2.2.2
    have hsend' : (⟨s.side.peer, dir, start + count⟩ : StreamId) ∉ u.send := fun hm =>
      ((ha.mem_send _).mp hm).elim hsend fun hw => hnot hw.1
    have hrecv' : (⟨s.side.peer, dir, start + count⟩ : StreamId) ∉ u.recv := fun hm =>
      ((ha.mem_recv _).mp hm).elim hrecv hnot
    rw [insertRemotes, hu, bind_eq_bind, bind_some, hpeer]
    unfold insert insertSend insertRecv
    cases dir with
    | bi => simp [hsend', hrecv']
    | uni => simp [hrecv']

theorem ensureRemoteStreams_some {dir : Dir} (h : ∀ i, s.maxRemote dir ≤ i →
    (⟨s.side.peer, dir, i⟩ : StreamId) ∉ s.send ∧ (⟨s.side.peer, dir, i⟩ : StreamId) ∉ s.recv) :
    ∃ t, s.ensureRemoteStreams dir = some t := by
  obtain ⟨t, ht⟩ := insertRemotes_some (s.maxConcurrentRemoteCount dir - s.allocatedRemoteCount dir)
    fun i hi _ => h i hi
  exact ⟨_, bind_eq_some_iff.mpr ⟨t, ht, rfl⟩⟩

theorem streamRecvFreed_some (h : RemoteInv False s) (hid : id ∈ s.recv) (rs : Recv) :
    ∃ t, (s.eraseRecv id).streamRecvFreed id (.open_ rs) = some t := by
  unfold streamRecvFreed streamFreed
  simp only [StreamRecv.toFree, bind_eq_bind, bind_some]
  split
  · next hc =>
    have hpeer : id = ⟨s.side.peer, id.dir, id.index⟩ := by
      obtain ⟨initiator, dir, index⟩ := id
      have hi := hc.1
      rw [StreamId.mk.injEq]
      exact ⟨Side.eq_peer hi, rfl, rfl⟩
    have hpos : 0 < s.aliveCount id.dir := by
      unfold aliveCount
      rw [Nat.count_eq_card_filter_range]
      exact Finset.card_pos.mpr ⟨id.index, Finset.mem_filter.mpr
        ⟨Finset.mem_range.mpr (h.recv_lt id hid hc.1), .inl (hpeer ▸ hid)⟩⟩
    have hsub : checkedSub ((s.eraseRecv id).allocatedRemoteCount id.dir) 1 = some (s.allocatedRemoteCount id.dir - 1) :=
      checkedSub_of_le (hpos.trans_le (h.alive_le id.dir))
    rw [hsub, bind_some]
    have hnone : ∀ i, s.maxRemote id.dir ≤ i → (⟨s.side.peer, id.dir, i⟩ : StreamId) ∉ s.send ∧
        (⟨s.side.peer, id.dir, i⟩ : StreamId) ∉ (s.eraseRecv id).recv := fun i hi =>
      ⟨fun hm => absurd (h.send_lt _ hm (Side.peer_ne _)).2 (not_lt.mpr hi),
        fun hm => absurd (h.recv_lt _ (mem_eraseRecv.mp hm).2 (Side.peer_ne _)) (not_lt.mpr hi)⟩
    obtain ⟨t, ht⟩ := ensureRemoteStreams_some (s := { s.eraseRecv id with
      freeRecv := s.freeRecv ++ [.free (rs.reinit s.streamReceiveWindow)]
      allocatedRemoteCount := Function.update s.allocatedRemoteCount id.dir (s.allocatedRemoteCount id.dir - 1) }) hnone
    exact ⟨t, bind_eq_some_iff.mpr ⟨t, ht, rfl⟩⟩
  · exact ⟨_, rfl⟩

end StreamsState

namespace Assembler

variable {a : Assembler} {log : Log} {n : Nat} {ordered : Bool}

def ReadIn (ordered : Bool) (a : Assembler) (log : Log) : Prop :=
  if ordered then Ordered a log.inserted log.delivered else ∃ recvd, Unordered a recvd log.inserted log.delivered

def Complete (log : Log) (n : Nat) : Prop := ∀ o, 0 < cover (chunkSpans log.inserted) o ↔ o < n

theorem ReadIn.delivers (h : ReadIn ordered a log) : Delivers a log := by
  cases ordered with
  | true => exact .inl h
  | false => exact .inr h

theorem delivered_lt (h : Delivers a log) (hn : Complete log n) {o : Nat} (ho : 0 < cover (chunkSpans log.delivered) o) :
    o < n := by
  obtain ⟨v, hv⟩ := exists_carries_iff.mpr ho
  exact (hn o).mp (exists_carries_iff.mp ⟨v, h.delivery.exact_ o v hv⟩)

theorem bytesRead_eq_iff (h : Delivers a log) (hn : Complete log n) :
    a.bytesRead = n ↔ ∀ o < n, 0 < cover (chunkSpans log.delivered) o := by
  have htot := total_add_count (fun _ => delivered_lt h hn) h.once
  rw [← h.delivery.bytesRead] at htot
  have hzero : a.bytesRead = n ↔ Nat.count (fun o => cover (chunkSpans log.delivered) o = 0) n = 0 := by omega
  rw [hzero, Nat.count_iff_forall_not]
  exact forall₂_congr fun o _ => Nat.pos_iff_ne_zero.symm

/-- A read starts in the mode of the assembler, or leaves the ordered one with nothing buffered below the read
    offset. -/
theorem Delivers.ensureOrdering (h : Delivers a log) (hmode : ordered = true → a.state.isOrdered = true)
    (hlow : ordered = false → a.state.isOrdered = true → ∀ x ∈ a.data.toList, a.bytesRead ≤ x.offset) :
    ∃ b, a.ensureOrdering ordered = .ok b ∧ ReadIn ordered b log ∧ b.bytesRead = a.bytesRead := by
  rcases h with h | ⟨recvd, h⟩
  · cases ordered with
    | true =>
      refine ⟨a, ?_, h, rfl⟩
      unfold Assembler.ensureOrdering
      rw [h.state]
      rfl
    | false =>
      obtain ⟨b, recvd, hb, hby, -, -, hu⟩ := h.switch (hlow rfl (by rw [h.state]; rfl))
      exact ⟨b, hb, ⟨recvd, hu⟩, hby⟩
  cases ordered with
  | true =>
    have := hmode rfl
    rw [h.state] at this
    cases this
  | false =>
    refine ⟨a, ?_, ⟨recvd, h⟩, rfl⟩
    unfold Assembler.ensureOrdering
    rw [h.state]
    rfl

theorem ReadIn.read (h : ReadIn ordered a log) (hn : Complete log n) (maxLength : Nat) :
    ∃ b r, a.read maxLength ordered = some (b, r) ∧ ReadIn ordered b (log.read r.toList) ∧
      (r = none ↔ a.bytesRead = n) ∧ ∀ c, r = some c → 0 < maxLength → c.bytes ≠ [] := by
  have hd := h.delivers
  cases ordered with
  | true =>
    have ho := h
    obtain ⟨b, r, hread, hb, hnone, hsome⟩ := ho.read maxLength
    refine ⟨b, r, hread, hb, hnone.trans ?_, fun c hc => (hsome c hc).2⟩
    have hle : a.bytesRead ≤ n := by
      rw [hd.delivery.bytesRead]
      exact total_le (fun _ => delivered_lt hd hn) hd.once
    have := hn a.bytesRead
    omega
  | false =>
    obtain ⟨recvd, hu⟩ := h
    obtain ⟨b, r, hread, hb, hnone, hsome⟩ := hu.read maxLength
    refine ⟨b, r, hread, ⟨recvd, hb⟩, hnone.trans ?_, fun c hc => (hsome c hc).2⟩
    rw [bytesRead_eq_iff hd hn]
    constructor
    · intro hnil o ho
      have honce := hu.once o
      rw [hnil, spans_nil, cover_nil, zero_add, mark_pos ((hu.mem o).mpr ((hn o).mpr ho))] at honce
      omega
    · intro hall
      refine eq_nil_iff_forall_not_mem.mpr fun x hx => ?_
      have hpos : 0 < cover (spans a.data.toList) x.offset := cover_pos_iff.mpr ⟨x.span, mem_map_of_mem hx,
        le_rfl, Nat.lt_add_of_pos_right (length_pos_of_ne_nil (hu.tidy.solid x hx))⟩
      have honce := hu.once x.offset
      have hmark := mark_le_one (p := recvd.Mem x.offset)
      have hmem : recvd.Mem x.offset := mark_pos_iff.mp (by omega)
      have := hall x.offset ((hn _).mp ((hu.mem _).mp hmem))
      omega

end Assembler

namespace Chunks
open Assembler

theorem nexts_cons {self u t : Chunks} {maxLength : Nat} {maxLengths : List Nat} {r : Except ReadError (Option Chunk)}
    {results : List (Except ReadError (Option Chunk))} (hnext : self.next maxLength = some (u, r))
    (h : u.nexts maxLengths = some (t, results)) : self.nexts (maxLength :: maxLengths) = some (t, r :: results) :=
  bind_eq_some_iff.mpr ⟨(u, r), hnext, bind_eq_some_iff.mpr ⟨(t, results), h, rfl⟩⟩

theorem nexts_of_finished {c : Chunks} (h : c.state = .finished) : ∀ maxLengths : List Nat,
    c.nexts maxLengths = some (c, maxLengths.map fun _ => .ok none)
  | [] => rfl
  | maxLength :: maxLengths => by
    have hnext : c.next maxLength = some (c, .ok none) := by
      unfold next
      rw [h]
    exact nexts_cons hnext (nexts_of_finished h maxLengths)

/-- Reads of a complete stream hand out all of it and then report the end. Each takes at least a byte, so there
    need not be more of them than bytes, and one. -/
theorem nexts_finish {n : Nat} : ∀ (maxLengths : List Nat) (self : Chunks) (rs : Recv) {log : Log},
    self.state = .readable rs → rs.state = .recv (some n) → rs.end_ = n → ReadIn self.ordered rs.assembler log →
    Complete log n → (∀ rs, ∃ t, self.streams.streamRecvFreed self.id (.open_ rs) = some t) →
    (∀ maxLength ∈ maxLengths, 0 < maxLength) → n < rs.assembler.bytesRead + maxLengths.length →
    ∃ t results a, self.nexts maxLengths = some (t, results) ∧ t.state = .finished ∧ .ok none ∈ results ∧
      (∀ r ∈ results, ∃ chunk, r = .ok chunk) ∧ ReadIn self.ordered a (log.read (handed results)) ∧ a.bytesRead = n
  | [], self, rs, log, hs, hst, hend, hr, hn, hfree, hpos, hlen => by
    have hle : rs.assembler.bytesRead ≤ n := by
      rw [hr.delivers.delivery.bytesRead]
      exact total_le (fun _ => delivered_lt hr.delivers hn) hr.delivers.once
    exact absurd hlen (not_lt.mpr hle)
  | maxLength :: maxLengths, self, rs, log, hs, hst, hend, hr, hn, hfree, hpos, hlen => by
    obtain ⟨b, r, hread, hb, hnone, hsome⟩ := hr.read hn maxLength
    cases r with
    | none =>
      have hall := hnone.mp rfl
      obtain ⟨streams, hstreams⟩ := hfree { rs with state := .recv (some n), assembler := b }
      have hby : b.bytesRead = n := by
        rw [hb.delivers.delivery.bytesRead, toList_none, Log.read_nil, ← hr.delivers.delivery.bytesRead, hall]
      have hnext : self.next maxLength = some ({ self with streams, state := .finished }, .ok none) := by
        unfold next
        rw [hs]
        simp only [hread, bind_eq_bind, bind_some, hst]
        rw [if_pos ⟨congrArg some hend.symm, hby.trans hend.symm⟩, hstreams]
        rfl
      have hrest := nexts_of_finished (c := { self with streams, state := .finished }) rfl maxLengths
      refine ⟨_, _, b, nexts_cons hnext hrest, rfl, mem_cons_self, ?_, ?_, hby⟩
      · intro r hr
        rcases mem_cons.mp hr with rfl | hr
        · exact ⟨none, rfl⟩
        obtain ⟨-, -, rfl⟩ := mem_map.mp hr
        exact ⟨none, rfl⟩
      · have hgot : handed (.ok none :: maxLengths.map fun _ => .ok none) = [] := by
          simp [handed, Except.toOption]
        rw [hgot]
        exact hb
    | some chunk =>
      have hnext : self.next maxLength = some ({ self with
          state := .readable { rs with assembler := b }, read := self.read + chunk.bytes.length }, .ok (some chunk)) := by
        unfold next
        rw [hs]
        simp [hread]
      have hby : b.bytesRead = rs.assembler.bytesRead + chunk.bytes.length := by
        rw [hb.delivers.delivery.bytesRead, hr.delivers.delivery.bytesRead]
        exact total_snoc _ _
      have hsolid := length_pos_of_ne_nil (hsome chunk rfl (hpos maxLength mem_cons_self))
      rw [length_cons] at hlen
      obtain ⟨t, results, a, hnexts, hfin, hmem, hok, hread', ha⟩ := nexts_finish maxLengths
        { self with state := .readable { rs with assembler := b }, read := self.read + chunk.bytes.length }
        { rs with assembler := b } rfl hst hend hb hn hfree
        (fun m hm => hpos m (mem_cons_of_mem _ hm)) (by dsimp only; omega)
      refine ⟨t, _, a, nexts_cons hnext hnexts, hfin, mem_cons_of_mem _ hmem, ?_, ?_, ha⟩
      · intro r hr
        rcases mem_cons.mp hr with rfl | hr
        · exact ⟨_, rfl⟩
        · exact hok r hr
      · rw [handed_cons]
        have hlog : log.read ((Except.ok (ε := ReadError) (some chunk)).toOption.join.toList ++ handed results) =
            (log.read (some chunk).toList).read (handed results) := by
          unfold Log.read
          rw [append_assoc]
          rfl
        rw [hlog]
        exact hread'

end Chunks

namespace History
open Connection

variable {x : History} {id : StreamId}

theorem Reached.finishes (h : Reached Orderly x) {rs : Recv} {n : Nat} (hat : x.conn.streams.recvAt id = some rs)
    (hst : rs.state = .recv (some n)) (hs : rs.stopped = false)
    (hall : ∀ o < n, ∃ c ∈ (x.logs id).inserted, InSpan c.span o) {maxLengths : List Nat}
    (hmode : ordered = true → rs.assembler.state.isOrdered = true)
    (hord : x.conn.Orderly (.recv id (.read ordered maxLengths))) (hpos : ∀ maxLength ∈ maxLengths, 0 < maxLength)
    (hlen : n < rs.assembler.bytesRead + maxLengths.length) :
    ∃ chunks t results, Chunks.new id ordered x.conn.streams x.conn.pending = .ok chunks ∧
      chunks.nexts maxLengths = some (t, results) ∧ t.state = .finished ∧ .ok none ∈ results ∧
      (∀ r ∈ results, ∃ chunk, r = .ok chunk) ∧
      ∀ o < n, ∃ c ∈ (x.logs id).delivered ++ Chunks.handed results, InSpan c.span o := by
  have hmem := mem_of_recvAt hat
  have hrem := (Reached.conn h).base.2
  have hg := (h.recvInv fun _ _ ha => ha).good id hmem
  have hord := hord id rfl
  rw [recvOr_of_some hat] at hg hord
  have hlive := Recv.live_of_recv hs hst
  have hend := hg.full n hst
  have hn : Assembler.Complete (x.logs id) n := fun o => by
    refine ⟨fun ho => ?_, fun ho => ?_⟩
    · obtain ⟨r, hr, hin⟩ := cover_pos_iff.mp ho
      obtain ⟨c, hc, rfl⟩ := mem_map.mp hr
      exact hin.2.trans_le (hend ▸ hg.inserted c hc)
    · obtain ⟨c, hc, hin⟩ := hall o ho
      exact cover_pos_iff.mpr ⟨c.span, mem_map_of_mem hc, hin⟩
  obtain ⟨a, ha, hreadIn, hby⟩ := (hg.alive hlive).ensureOrdering hmode fun ho => hord ho hlive
  obtain ⟨entry, hl⟩ := isSome_iff_exists.mp (AList.lookup_isSome.mpr hmem)
  have hent := (getOrInsertRecv_eq hrem.pooled hl).trans (recvOr_of_some hat)
  have hnew : Chunks.new id ordered x.conn.streams x.conn.pending =
      .ok ⟨id, ordered, x.conn.streams.eraseRecv id, x.conn.pending, .readable { rs with assembler := a }, 0⟩ := by
    unfold Chunks.new
    simp only [hl, hent, ha]
    rw [if_neg (Bool.eq_false_iff.mp hs)]
    rfl
  obtain ⟨t, results, b, hnexts, hfin, hnone, hok, hb, hbn⟩ := Chunks.nexts_finish maxLengths
    ⟨id, ordered, x.conn.streams.eraseRecv id, x.conn.pending, .readable { rs with assembler := a }, 0⟩ _ rfl hst hend hreadIn hn
    (streamRecvFreed_some hrem hmem) hpos (by dsimp only; omega)
  refine ⟨_, t, results, hnew, hnexts, hfin, hnone, hok, fun o ho => ?_⟩
  have hcov := (Assembler.bytesRead_eq_iff hb.delivers hn).mp hbn o ho
  obtain ⟨r, hr, hin⟩ := cover_pos_iff.mp hcov
  obtain ⟨c, hc, rfl⟩ := mem_map.mp hr
  exact ⟨c, hc, hin⟩

/-- All sizes that were declared for a stream are one, which the open stream has, and nothing was taken beyond it.
    A frame that contradicts it, or a reset below what was received, changes nothing. And a stream of which all
    bytes were stored ends when they have been read. -/
theorem final_size_consistent (h : Reached Orderly x) (id : StreamId) :
    (∀ n ∈ (x.logs id).sizes, ∀ m ∈ (x.logs id).sizes, n = m) ∧
    (∀ n ∈ (x.logs id).sizes, ∀ o ∈ (x.logs id).ends, o ≤ n) ∧
    (∀ rs, x.conn.streams.recvAt id = some rs → ∀ n, n ∈ (x.logs id).sizes ↔ rs.finalOffset = some n) ∧
    (∀ (frame : StreamFrame) (payloadLen : Nat), frame.id = id → (x.logs id).Contradicts frame →
      ∃ t r, x.conn.streams.received frame payloadLen = some (t, r) ∧ Refused x.conn.streams t ∧
        ((x.conn.streams.recvAt id).any Recv.isReceiving = true → ∃ e, r = .error e)) ∧
    (∀ frame : ResetStream, frame.id = id → (x.logs id).ContradictsReset frame →
      ∃ t r, x.conn.streams.receivedReset frame = some (t, r) ∧ Refused x.conn.streams t ∧
        (id ∈ x.conn.streams.recv → ∃ e, r = .error e)) ∧
    ∀ rs n, x.conn.streams.recvAt id = some rs → rs.state = .recv (some n) → rs.stopped = false →
      (∀ o < n, ∃ c ∈ (x.logs id).inserted, InSpan c.span o) →
      ∀ ordered maxLengths, (ordered = true → rs.assembler.state.isOrdered = true) →
        x.conn.Orderly (.recv id (.read ordered maxLengths)) → (∀ maxLength ∈ maxLengths, 0 < maxLength) →
        n < rs.assembler.bytesRead + maxLengths.length →
        ∃ chunks t results, Chunks.new id ordered x.conn.streams x.conn.pending = .ok chunks ∧
          chunks.nexts maxLengths = some (t, results) ∧ t.state = .finished ∧ .ok none ∈ results ∧
          (∀ r ∈ results, ∃ chunk, r = .ok chunk) ∧
          ∀ o < n, ∃ c ∈ (x.logs id).delivered ++ Chunks.handed results, InSpan c.span o := by
  have hinv := h.recvInv fun _ _ ha => ha
  have hpooled := (Reached.conn h).base.2.pooled
  refine ⟨(hinv.consistent id).1, (hinv.consistent id).2, fun rs hat => ?_, ?_, ?_, ?_⟩
  · have hg := hinv.good id (mem_of_recvAt hat)
    rw [recvOr_of_some hat] at hg
    exact hg.sizes
  · rintro frame payloadLen rfl hc
    exact refused_received hinv hpooled hc payloadLen
  · rintro frame rfl hc
    exact refused_receivedReset hinv hpooled hc
  · intro rs n hat hstate hs hall ordered maxLengths hmode hord hpos hlen
    exact h.finishes hat hstate hs hall hmode hord hpos hlen

/-- The end of a stream arrives before its start. Data beyond it is refused, and four reads find the end. -/
theorem final_size_consistent_reordered :
    let id : StreamId := ⟨.client, .uni, 0⟩
    ∃ x, runNew Orderly .server 1 1 100 1000 500
        [.established ⟨100, 100, 100, 100, 10, 10⟩, .frame (.stream ⟨id, 1, true, [2, 3]⟩ 2),
          .frame (.stream ⟨id, 0, false, [1, 2]⟩ 2)] = some x ∧
      (x.logs id).sizes = [3] ∧
      (∃ t r, x.conn.streams.received ⟨id, 3, false, [4]⟩ 1 = some (t, r) ∧ Refused x.conn.streams t ∧ ∃ e, r = .error e) ∧
      ∃ chunks t results, Chunks.new id true x.conn.streams x.conn.pending = .ok chunks ∧
        chunks.nexts [2, 2, 2, 2] = some (t, results) ∧ t.state = .finished ∧ .ok none ∈ results ∧
        (∀ r ∈ results, ∃ chunk, r = .ok chunk) ∧
        ∀ o < 3, ∃ c ∈ (x.logs id).delivered ++ Chunks.handed results, InSpan c.span o := by
  intro id
  refine exists_of_map (f := fun x => ((x.logs id).sizes, (x.logs id).inserted,
      (x.conn.streams.recvAt id).map fun rs => (rs.state, rs.stopped, rs.assembler.state.isOrdered)))
    (b := ([3], [⟨1, [2, 3]⟩, ⟨0, [1, 2]⟩], some (.recv (some 3), false, true))) (by decide +kernel) fun x hx hvalues => ?_
  obtain ⟨hsizes, hrest⟩ := Prod.mk.inj hvalues
  obtain ⟨hinserted, hat⟩ := Prod.mk.inj hrest
  obtain ⟨rs, hat, hrs⟩ := map_eq_some_iff.mp hat
  obtain ⟨hstate, hrs⟩ := Prod.mk.inj hrs
  obtain ⟨hstop, hmode⟩ := Prod.mk.inj hrs
  obtain ⟨-, -, -, hstream, -, hfinish⟩ := final_size_consistent (reached_runNew hx) id
  have hcontra : (x.logs id).Contradicts ⟨id, 3, false, [4]⟩ := by
    refine ⟨3, ?_, .inl (by decide)⟩
    rw [hsizes]
    decide
  obtain ⟨t, r, ht, hrefused, herror⟩ := hstream ⟨id, 3, false, [4]⟩ 1 rfl hcontra
  refine ⟨hsizes, ⟨t, r, ht, hrefused, herror ?_⟩,
    hfinish rs 3 hat hstate hstop ?_ true [2, 2, 2, 2] (fun _ => hmode) (fun _ _ hf => by cases hf) (by decide)
      (Nat.lt_add_left _ (by decide))⟩
  · rw [hat, any_some]
    exact Recv.isReceiving_iff.mpr ⟨_, hstate⟩
  · rw [hinserted]
    decide

/-- A FIN at offset 1 is taken on a stream on which three bytes were received. -/
theorem final_size_below_received :
    let id : StreamId := ⟨.client, .uni, 0⟩
    (runNew (fun _ _ => True) .server 1 1 100 1000 500
      [.established ⟨100, 100, 100, 100, 10, 10⟩, .frame (.stream ⟨id, 0, false, [1, 2, 3]⟩ 3),
        .frame (.stream ⟨id, 1, true, []⟩ 0)]).map (fun x => ((x.logs id).sizes, (x.logs id).ends,
        (x.conn.streams.recvAt id).map fun rs => (rs.state, rs.end_))) =
      some ([1], [3, 1], some (.recv (some 1), 3)) := by
  decide +kernel

end History
end SaorsaTransport
