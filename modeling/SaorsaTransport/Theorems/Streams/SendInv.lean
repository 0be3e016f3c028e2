import SaorsaTransport.Theorems.SendBuffer
import SaorsaTransport.Theorems.Streams.RemoteStreams

/-! What holds of the sending side of a connection in every state it reaches: each stream that was not
    reset has a reliable buffer, whose bytes in flight are those of the packets in flight. -/

namespace SaorsaTransport
open Library Option List

namespace SendBuffer

variable {b t : SendBuffer} {written : Bytes} {inflight inflight' : List (Nat × Nat)} {r : Nat × Nat} {encodeLength : Bool}
variable {maxLen : Nat}

theorem Reliable.perm (h : Reliable b written inflight) (hp : inflight.Perm inflight') : Reliable b written inflight' where
  __ := h
  ranges r hr := h.ranges r (hp.mem_iff.mpr hr)
  once o := by
    rw [← cover_perm hp]
    exact h.once o

theorem Reliable.writes (h : Reliable b written inflight) : ∀ chunks : List Bytes,
    ∃ written', Reliable (chunks.foldl SendBuffer.write b) written' inflight := by
  intro chunks
  induction chunks generalizing b written with
  | nil => exact ⟨written, h⟩
  | cons chunk chunks ih => exact ih (h.write chunk)

theorem foldl_write_offset : ∀ (chunks : List Bytes) (b : SendBuffer),
    (chunks.foldl write b).offset = b.offset + chunks.flatten.length
  | [], _ => rfl
  | chunk :: chunks, b => by
    rw [foldl_cons, foldl_write_offset chunks, flatten_cons, length_append, ← add_assoc]
    rfl

theorem ackLoop_offset : ∀ {fuel : Nat} {b t : SendBuffer}, ackLoop fuel b = some t → t.offset = b.offset
  | 0, b, t, h => by
    cases h
    rfl
  | fuel + 1, b, t, h => by
    unfold ackLoop at h
    split at h
    · obtain ⟨⟨r, acks⟩, -, h⟩ := bind_eq_some_iff.mp h
      obtain ⟨n, -, h⟩ := bind_eq_some_iff.mp h
      obtain ⟨len, -, h⟩ := bind_eq_some_iff.mp h
      obtain ⟨segments, -, h⟩ := bind_eq_some_iff.mp h
      exact (ackLoop_offset h).trans rfl
    cases h
    rfl

theorem ack_offset (h : b.ack r = some t) : t.offset = b.offset := (ackLoop_offset h).trans rfl

theorem pollTransmit_unsent (h : b.pollTransmit maxLen = some (t, r, encodeLength)) :
    t.offset = b.offset ∧ (t.unsent = b.unsent ∨ t.unsent = r.2) := by
  unfold pollTransmit at h
  split at h
  · obtain ⟨⟨last, e⟩, -, ⟨⟩⟩ := exists_of_bind h
    exact ⟨rfl, .inl rfl⟩
  obtain ⟨⟨last, e⟩, -, h⟩ := bind_eq_some_iff.mp h
  obtain ⟨rfl, hr⟩ := Prod.mk.inj (some.inj h)
  cases hr
  exact ⟨rfl, .inr rfl⟩

structure Pristine (b : SendBuffer) : Prop where
  unackedLen : b.unackedLen = b.offset
  acks : b.acks = RangeSet.new
  retransmits : b.retransmits = RangeSet.new

theorem pristine_new : Pristine new := ⟨rfl, rfl, rfl⟩

theorem Pristine.writes (h : Pristine b) : ∀ chunks : List Bytes, Pristine (chunks.foldl write b) := by
  intro chunks
  induction chunks generalizing b with
  | nil => exact h
  | cons chunk chunks ih => exact ih ⟨congrArg (· + chunk.length) h.unackedLen, h.acks, h.retransmits⟩

theorem Pristine.pollTransmit (h : Pristine b) (ht : b.pollTransmit maxLen = some (t, r, encodeLength)) : Pristine t := by
  unfold SendBuffer.pollTransmit at ht
  rw [h.retransmits] at ht
  obtain ⟨⟨last, e⟩, -, ⟨⟩⟩ := exists_of_bind ht
  exact ⟨h.unackedLen, h.acks, rfl⟩

/-- A buffer of which nothing was acknowledged or lost starts over when no packet is in flight any more. -/
theorem Pristine.rewind (h : Pristine b) (hr : Reliable b written inflight) (htu : t.unsent = 0)
    (ht : t = { b with unsent := t.unsent }) : Reliable t written [] := by
  obtain ⟨hl, ha, hre⟩ := h
  rw [htu] at ht
  subst ht
  have hbase : b.baseOffset = 0 := by
    unfold baseOffset
    omega
  refine ⟨{ hr with }, hr.retransmits, zero_le, fun r hr => (by cases hr), fun o => ?_⟩
  have hacked : ¬Acked { b with unsent := 0 } o := by
    rintro (hlt | hm)
    · exact absurd (show o < b.baseOffset from hlt) (by omega)
    · rw [show ({ b with unsent := 0 } : SendBuffer).acks = RangeSet.new from ha] at hm
      exact RangeSet.not_mem_new o hm
  have hlost : ¬RangeSet.Mem ({ b with unsent := 0 } : SendBuffer).retransmits o := by
    rw [show ({ b with unsent := 0 } : SendBuffer).retransmits = RangeSet.new from hre]
    exact RangeSet.not_mem_new o
  rw [mark_neg hacked, mark_neg hlost, cover_nil, mark_neg (p := o < 0) (Nat.not_lt_zero o)]

end SendBuffer

def rangesOf (id : StreamId) (ms : List StreamMeta) : List (Nat × Nat) := (ms.filter (·.id = id)).map (·.offsets)

theorem rangesOf_cons_self (m : StreamMeta) (ms : List StreamMeta) : rangesOf m.id (m :: ms) = m.offsets :: rangesOf m.id ms := by
  simp [rangesOf]

variable {id : StreamId}

theorem rangesOf_cons_ne {m : StreamMeta} (h : id ≠ m.id) (ms : List StreamMeta) :
    rangesOf id (m :: ms) = rangesOf id ms := by
  simp [rangesOf, h.symm]

theorem rangesOf_eq_nil {ms : List StreamMeta} (h : ∀ m ∈ ms, m.id ≠ id) : rangesOf id ms = [] := by
  simpa [rangesOf] using h

theorem mem_rangesOf {ms : List StreamMeta} : r ∈ rangesOf id ms ↔ ∃ m ∈ ms, m.id = id ∧ m.offsets = r := by
  simp [rangesOf, and_assoc]

open StreamsState

structure SendInv (phase : Phase) (x : Sending) : Prop where
  known : ∀ id ∈ x.streams.send, x.streams.Known id
  localOnly : phase ≠ .ready → ∀ id stream, x.streams.sendAt id = some stream → id.initiator = x.streams.side
  used : ∀ m ∈ x.inflight, x.streams.Known m.id ∧ (m.id ∈ x.streams.send → x.streams.sendAt m.id ≠ none)
  reliable : ∀ id stream, x.streams.sendAt id = some stream → stream.isReset = false →
    ∃ written, SendBuffer.Reliable stream.pending written (rangesOf id x.inflight)
  pristine : phase ≠ .ready → ∀ id stream, x.streams.sendAt id = some stream → SendBuffer.Pristine stream.pending

section
variable {phase : Phase} {acks : Prop} {s t : StreamsState} {ms ms' : List StreamMeta} {id : StreamId}

theorem SendInv.unused (h : SendInv phase ⟨s, ms⟩) (hmem : id ∈ s.send) (hnone : s.sendAt id = none) : rangesOf id ms = [] :=
  rangesOf_eq_nil fun m hm hid => (h.used m hm).2 (hid ▸ hmem) (hid ▸ hnone)

theorem SendInv.found (h : SendInv phase ⟨s, ms⟩) {entry : Option Send} (hl : s.send.lookup id = some entry) (maxData : Nat) :
    ((getOrInsertSend maxData entry).isReset = false →
      ∃ written, SendBuffer.Reliable (getOrInsertSend maxData entry).pending written (rangesOf id ms)) ∧
    (phase ≠ .ready → SendBuffer.Pristine (getOrInsertSend maxData entry).pending) := by
  have hat := sendAt_of_lookup hl
  cases entry with
  | none =>
    rw [h.unused (mem_of_lookup_send hl) hat]
    exact ⟨fun _ => ⟨[], SendBuffer.reliable_new⟩, fun _ => SendBuffer.pristine_new⟩
  | some stream => exact ⟨h.reliable id stream hat, fun hp => h.pristine hp id stream hat⟩

variable {m : StreamMeta} {stream : Send}

section
variable (h : SendInv phase ⟨s, ms⟩)
include h

theorem SendInv.store (hmem : id ∈ s.send) (hid : LocalFirst phase s id)
    (hside : t.side = s.side) (hnext : t.next = s.next) (hmax : t.maxRemote = s.maxRemote)
    (hsend : t.send = s.send.insert id (some stream))
    (hms : ∀ m ∈ ms', m ∈ ms ∨ m.id = id) (hoth : ∀ id', id' ≠ id → rangesOf id' ms' = rangesOf id' ms)
    (hrel : stream.isReset = false → ∃ written, SendBuffer.Reliable stream.pending written (rangesOf id ms'))
    (hpri : phase ≠ .ready → SendBuffer.Pristine stream.pending) : SendInv phase ⟨t, ms'⟩ := by
  have hself : t.sendAt id = some stream := by
    rw [StreamsState.sendAt, hsend]
    simp
  have hne : ∀ id', id' ≠ id → t.sendAt id' = s.sendAt id' := fun id' hid' => by
    rw [StreamsState.sendAt, hsend, AList.lookup_insert_ne hid']
    rfl
  have hmem' : ∀ id', id' ∈ t.send ↔ id' ∈ s.send := fun id' => by
    rw [hsend, AList.mem_insert]
    exact or_iff_right_of_imp fun h => h ▸ hmem
  have hkn : ∀ id', s.Known id' → t.Known id' := fun id' hk =>
    hk.mono hside (fun dir => by rw [hnext]) (fun dir => by rw [hmax])
  refine ⟨fun id' hid' => hkn id' (h.known id' ((hmem' id').mp hid')), fun hp id' st hs => ?_, fun m hm => ?_,
    fun id' st hs hr => ?_, fun hp id' st hs => ?_⟩
  · by_cases hid' : id' = id
    · subst hid'
      exact (hid hp).trans hside.symm
    · exact (h.localOnly hp id' st ((hne id' hid').symm.trans hs)).trans hside.symm
  · by_cases hmid : m.id = id
    · refine ⟨hmid ▸ hkn id (h.known id hmem), fun _ => ?_⟩
      rw [hmid, hself]
      exact some_ne_none _
    obtain ⟨hk, hu⟩ := h.used m ((hms m hm).resolve_right hmid)
    refine ⟨hkn _ hk, fun hin => ?_⟩
    rw [hne m.id hmid]
    exact hu ((hmem' _).mp hin)
  · by_cases hid' : id' = id
    · subst hid'
      obtain rfl := some.inj (hself.symm.trans hs)
      exact hrel hr
    obtain ⟨w, hw⟩ := h.reliable id' st ((hne id' hid').symm.trans hs) hr
    exact ⟨w, by rw [hoth id' hid']; exact hw⟩
  · by_cases hid' : id' = id
    · subst hid'
      obtain rfl := some.inj (hself.symm.trans hs)
      exact hpri hp
    · exact h.pristine hp id' st ((hne id' hid').symm.trans hs)

theorem SendInv.kept {U : StreamId → Prop} (hk : SendKept U s t)
    (hU : ∀ id, U id → LocalFirst phase s id) : SendInv phase ⟨t, ms⟩ := by
  have hkn : ∀ id, s.Known id → t.Known id := fun id hid => hid.mono hk.side hk.next hk.maxRemote
  -- A frame in flight is of a stream that was entered before, if it still is.
  have hold : ∀ m ∈ ms, m.id ∈ t.send → m.id ∈ s.send := fun m hm hin =>
    (hk.fresh m.id hin).resolve_right fun hn => hn.1 (h.used m hm).1
  refine ⟨fun id hid => ?_, fun hp id st hs => ?_, fun m hm => ⟨hkn _ (h.used m hm).1, fun hin => ?_⟩, fun id st hs hr => ?_,
    fun hp id st hs => ?_⟩
  · rcases hk.fresh id hid with hid | ⟨-, hid⟩
    · exact hkn id (h.known id hid)
    · exact hid
  · refine Eq.trans ?_ hk.side.symm
    cases hat : s.sendAt id with
    | none => exact hU id (hk.created id hat (hs ▸ some_ne_none _)) hp
    | some st' => exact h.localOnly hp id st' hat
  · have htch := hk.sendAt m.id
    have hsome := (h.used m hm).2 (hold m hm hin)
    cases hat : s.sendAt m.id with
    | none => exact absurd hat hsome
    | some st' =>
      rw [hat] at htch
      cases hat' : t.sendAt m.id with
      | none =>
        rw [hat'] at htch
        cases htch
      | some st => exact some_ne_none _
  · have htch := hk.sendAt id
    rw [hs] at htch
    generalize hat : s.sendAt id = before at htch
    cases htch with
    | created ha =>
      have hnil : rangesOf id ms = [] := rangesOf_eq_nil fun m hm hid => by
        subst hid
        exact (h.used m hm).2 (hold m hm (mem_of_sendAt hs)) hat
      exact ⟨[], by rw [ha.pending, hnil]; exact SendBuffer.reliable_new⟩
    | some ha =>
      obtain ⟨w, hw⟩ := h.reliable id _ hat (by unfold Send.isReset at hr ⊢; rwa [ha.state] at hr)
      exact ⟨w, by rw [ha.pending]; exact hw⟩
  · have htch := hk.sendAt id
    rw [hs] at htch
    generalize hat : s.sendAt id = before at htch
    cases htch with
    | created ha =>
      rw [ha.pending]
      exact SendBuffer.pristine_new
    | some ha =>
      rw [ha.pending]
      exact h.pristine hp id _ hat

theorem SendInv.perm (hp : ms.Perm ms') : SendInv phase ⟨s, ms'⟩ := by
  refine { h with used := fun m hm => h.used m (hp.mem_iff.mpr hm), reliable := fun id st hs hr => ?_ }
  obtain ⟨w, hw⟩ := h.reliable id st hs hr
  exact ⟨w, hw.perm ((hp.filter _).map _)⟩

end

theorem SendInv.ignored (h : SendInv phase ⟨s, m :: ms⟩)
    (hrst : ∀ stream, s.sendAt m.id = some stream → stream.isReset = true) : SendInv phase ⟨s, ms⟩ := by
  refine { h with used := fun m' hm => h.used m' (mem_cons_of_mem m hm), reliable := fun id st hs hr => ?_ }
  have hne : id ≠ m.id := fun hid => by
    rw [hrst st (hid ▸ hs)] at hr
    cases hr
  obtain ⟨w, hw⟩ := h.reliable id st hs hr
  rw [rangesOf_cons_ne hne] at hw
  exact ⟨w, hw⟩

theorem SendInv.freed (h : SendInv phase ⟨s, ms⟩) {drop : Dir → Nat} (hg : Grown (s.eraseSend id) t drop) :
    SendInv phase ⟨t, ms⟩ := by
  have hk : SendKept (fun _ => False) (s.eraseSend id) t := hg.sendKept
  suffices he : SendInv phase ⟨s.eraseSend id, ms⟩ from he.kept hk fun _ hf => hf.elim
  refine ⟨fun id' hid' => h.known id' (mem_eraseSend.mp hid').2, fun hp id' st hs => ?_, fun m hm => ?_,
    fun id' st hs hr => ?_, fun hp id' st hs => ?_⟩
  · exact h.localOnly hp id' st (sendAt_of_eraseSend hs)
  · obtain ⟨hkn, hu⟩ := h.used m hm
    refine ⟨hkn, fun hin => ?_⟩
    obtain ⟨hne, hin⟩ := mem_eraseSend.mp hin
    rw [sendAt_eraseSend_ne hne]
    exact hu hin
  · exact h.reliable id' st (sendAt_of_eraseSend hs) hr
  · exact h.pristine hp id' st (sendAt_of_eraseSend hs)

theorem isReset_eq_false_of_state {a b : Send} (h : a.state = b.state) (hb : b.isReset = false) : a.isReset = false := by
  unfold Send.isReset at *
  rw [h]
  exact hb

theorem ack_spec {stream' : Send} {done : Bool} (h : stream.ack m = some (stream', done)) :
    ∃ pending state, stream.pending.ack m.offsets = some pending ∧ stream' = { stream with pending, state } ∧
      ((∃ a, stream.state = .dataSent a ∧ state = .dataSent (a || m.fin)) ∨
        (∀ a, stream.state ≠ .dataSent a) ∧ state = stream.state) := by
  obtain ⟨pending, hp, h⟩ := bind_eq_some_iff.mp h
  refine ⟨pending, ?_⟩
  split at h
  · next a hs =>
    cases h
    exact ⟨_, hp, rfl, .inl ⟨a, hs, rfl⟩⟩
  all_goals next hs =>
    cases h
    exact ⟨stream.state, hp, rfl, .inr ⟨fun a ha => SendState.noConfusion (hs.symm.trans ha), rfl⟩⟩

theorem nextFrame_spec {stream' : Send} (h : stream.nextFrame id maxLen = some (stream', m, encodeLength)) :
    ∃ pending, stream.pending.pollTransmit maxLen = some (pending, m.offsets, encodeLength) ∧
      stream' = { stream with pending, finPending := stream.finPending && !m.fin } ∧ m.id = id ∧
      m.fin = (decide (m.offsets.2 = pending.offset) && stream.state.isDataSent) := by
  obtain ⟨⟨pending, offsets, e⟩, hp, h⟩ := bind_eq_some_iff.mp h
  obtain ⟨rfl, hm⟩ := Prod.mk.inj (some.inj h)
  cases hm
  exact ⟨pending, hp, rfl, rfl, rfl⟩

theorem SendInv.move {x y : Sending} (h : SendInv phase x) (hm : Move phase acks x y) : SendInv phase y := by
  cases hm with
  | kept hk hU => exact h.kept hk hU
  | perm hp => exact h.perm hp
  | raised n => exact { h with }
  | wrote chunks _ hl hid _ hst _ _ =>
    obtain ⟨hrel, hpri⟩ := h.found hl _
    refine h.store (mem_of_lookup_send hl) hid rfl rfl rfl rfl (fun m hm => .inl hm) (fun _ _ => rfl) (fun hr => ?_)
      fun hp => (hpri hp).writes chunks
    obtain ⟨w, hw⟩ := hrel hr
    exact hw.writes chunks
  | finished hl hid hst =>
    obtain ⟨hrel, hpri⟩ := h.found hl _
    refine h.store (mem_of_lookup_send hl) hid rfl rfl rfl rfl (fun m hm => .inl hm) (fun _ _ => rfl) (fun _ => hrel ?_) hpri
    unfold Send.isReset
    rw [hst]
    rfl
  | reset hl hid _ _ _ =>
    obtain ⟨-, hpri⟩ := h.found hl _
    exact h.store (mem_of_lookup_send hl) hid rfl rfl rfl rfl (fun m hm => .inl hm) (fun _ _ => rfl) (nofun) hpri
  | ignored _ hrst => exact h.ignored hrst
  | @acked s ms m stream stream' done rest hrdy hat hr _ hack =>
    obtain ⟨w, hw⟩ := h.reliable m.id stream hat hr
    obtain ⟨t, ht, hrel, -⟩ := hw.ack (.of_eq (rangesOf_cons_self m ms))
    obtain ⟨pending, state, hp, rfl, -⟩ := ack_spec hack
    obtain rfl := some.inj (hp.symm.trans ht)
    exact h.store (mem_of_sendAt hat) (fun hne => absurd hrdy hne) rfl rfl rfl rfl (fun m' hm => .inl (mem_cons_of_mem m hm))
      (fun id' hid' => (rangesOf_cons_ne hid' ms).symm) (fun _ => ⟨w, hrel⟩) fun hne => absurd hrdy hne
  | freed _ _ hat _ hfree => exact h.freed (grown_streamFreed hfree)
  | @lost s ms m stream hrdy hat =>
    refine h.store (mem_of_sendAt hat) (fun hne => absurd hrdy hne) rfl rfl rfl rfl (fun m' hm => .inl (mem_cons_of_mem m hm))
      (fun id' hid' => (rangesOf_cons_ne hid' ms).symm) (fun hr => ?_) fun hne => absurd hrdy hne
    obtain ⟨w, hw⟩ := h.reliable m.id stream hat hr
    exact ⟨w, hw.retransmit (.of_eq (rangesOf_cons_self m ms))⟩
  | skipped _ _ => exact { h with }
  | @sent s ms next queue stream stream' maxLen m encodeLength fair _ hat hr hroom hnext =>
    obtain ⟨pending, hp, rfl, hid, -⟩ := nextFrame_spec hnext
    obtain ⟨w, hw⟩ := h.reliable next.id stream hat hr
    obtain ⟨t, r, e, ht, hrel, -⟩ := hw.pollTransmit hroom
    obtain ⟨rfl, hr'⟩ := Prod.mk.inj (some.inj (hp.symm.trans ht))
    obtain ⟨hrange, -⟩ := Prod.mk.inj hr'
    refine h.store (mem_of_sendAt hat) (fun hne => h.localOnly hne next.id stream hat) rfl rfl rfl rfl
      (fun m' hm => (mem_cons.mp hm).elim (fun heq => .inr (by rw [heq]; exact hid)) .inl)
      (fun id' hid' => rangesOf_cons_ne (hid ▸ hid') ms) (fun _ => ⟨w, ?_⟩)
      fun hne => (h.pristine hne next.id stream hat).pollTransmit hp
    rw [← hid, rangesOf_cons_self, hrange, hid]
    exact hrel

end

end SaorsaTransport
