import SaorsaTransport.Theorems.Streams.Finished

/-! Flow control as the sender sees it: what was written stays within the peer's limits and the send
    window, so that the room that is left can always be computed. -/

namespace SaorsaTransport
open Library StreamsState Option

structure Limited (s : StreamsState) : Prop where
  stream : ∀ id stream, s.sendAt id = some stream → stream.offset ≤ stream.maxData
  connection : s.dataSent ≤ s.maxData
  window : s.unackedData ≤ s.sendWindow

section
variable {phase : Phase} {acks : Prop} {s t : StreamsState} {id : StreamId}

theorem Limited.found (h : Limited s) {entry : Option Send} (hl : s.send.lookup id = some entry) (maxData : Nat) :
    (getOrInsertSend maxData entry).offset ≤ (getOrInsertSend maxData entry).maxData := by
  cases entry with
  | none => exact zero_le
  | some stream => exact h.stream id stream (sendAt_of_lookup hl)

theorem Limited.setSend (h : Limited s) {stream : Send} (hs : stream.offset ≤ stream.maxData) :
    ∀ id' st, (s.setSend id stream).sendAt id' = some st → st.offset ≤ st.maxData := fun id' st hst => by
  by_cases hid : id' = id
  · subst hid
    obtain rfl := some.inj ((sendAt_setSend_self stream).symm.trans hst)
    exact hs
  rw [sendAt_setSend_ne stream hid] at hst
  exact h.stream id' st hst

theorem Limited.kept (h : Limited s) {U : StreamId → Prop} (hk : SendKept U s t) : Limited t := by
  refine ⟨fun id st hs => ?_, by rw [hk.outgoing]; exact h.connection, by rw [hk.outgoing]; exact h.window⟩
  have htch := hk.sendAt id
  rw [hs] at htch
  generalize hat : s.sendAt id = before at htch
  unfold Send.offset
  cases htch with
  | created ha =>
    rw [ha.pending]
    exact zero_le
  | some ha =>
    rw [ha.pending]
    exact (h.stream id _ hat).trans ha.maxData

theorem writeLimit_eq_some {limit : Nat} :
    s.writeLimit = some limit ↔ s.dataSent ≤ s.maxData ∧ s.unackedData ≤ s.sendWindow ∧
      limit = min (s.maxData - s.dataSent) (s.sendWindow - s.unackedData) := by
  unfold writeLimit
  rw [bind_eq_bind, bind_eq_some_iff]
  constructor
  · rintro ⟨budget, hbud, h⟩
    obtain ⟨window, hwin, h⟩ := bind_eq_some_iff.mp h
    have hbud := checkedSub_eq_some.mp hbud
    have hwin := checkedSub_eq_some.mp hwin
    cases h
    refine ⟨by omega, by omega, ?_⟩
    congr 1 <;> omega
  · rintro ⟨h1, h2, rfl⟩
    exact ⟨_, checkedSub_of_le h1, by rw [checkedSub_of_le h2]; rfl⟩

theorem Limited.move {x y : Sending} (h : Limited x.streams) (hm : Move phase acks x y) : Limited y.streams := by
  cases hm with
  | kept hk hU => exact h.kept hk
  | perm hp => exact h
  | raised n => exact ⟨h.stream, h.connection.trans (le_max_left _ _), h.window⟩
  | @wrote s ms id entry limit chunks _ hl hid hlim hstate hle hmax =>
    obtain ⟨h1, h2, rfl⟩ := writeLimit_eq_some.mp hlim
    have hmin := le_min_iff.mp hle
    refine ⟨h.setSend ?_, ?_, ?_⟩
    · unfold Send.offset
      rw [SendBuffer.foldl_write_offset]
      exact hmax
    · show s.dataSent + chunks.flatten.length ≤ s.maxData
      omega
    · show s.unackedData + chunks.flatten.length ≤ s.sendWindow
      omega
  | @finished s ms id entry hl hid hstate =>
    have hs := h.found hl (s.maxSendData id)
    exact { h with stream := h.setSend hs }
  | @reset s ms id entry n rest hl hid hr hn hrest =>
    have hs := h.found hl (s.maxSendData id)
    exact ⟨h.setSend hs, h.connection, (hrest ▸ le_add_self).trans h.window⟩
  | ignored hrdy hrst => exact h
  | @acked s ms m stream stream' done rest hrdy hat hr hrest hack =>
    obtain ⟨pending, state, hp, rfl, -⟩ := ack_spec hack
    refine ⟨h.setSend ?_, h.connection, (hrest ▸ le_add_self).trans h.window⟩
    unfold Send.offset
    rw [SendBuffer.ack_offset hp]
    exact h.stream m.id stream hat
  | @freed s t ms id stream hrdy hacks hat hdone hfree =>
    have hg := grown_streamFreed hfree
    suffices he : Limited (s.eraseSend id) from he.kept (U := fun _ => False) hg.sendKept
    exact { h with stream := fun id' st hs => h.stream id' st (sendAt_of_eraseSend hs) }
  | lost hrdy hat =>
    have hs := h.stream _ _ hat
    exact { h with stream := h.setSend hs }
  | skipped hpop hnext => exact { h with }
  | sent fair hpop hat hr hroom hnext =>
    obtain ⟨pending, hp, rfl, -, -⟩ := nextFrame_spec hnext
    refine { h with stream := h.setSend ?_ }
    unfold Send.offset
    rw [(SendBuffer.pollTransmit_unsent hp).1]
    exact h.stream _ _ hat

theorem Limited.turned {e : Event} {x y : Sending} (h : Limited x.streams) (ht : Turned e x y) : Limited y.streams := by
  cases ht with
  | early params | done params => exact ⟨h.stream, h.connection.trans (le_max_left _ _), h.window⟩
  | @rejected s t ms params hr hnone =>
    refine ⟨fun id st hs => ?_, ?_, ?_⟩
    · rw [show (t.noteParams params).sendAt id = t.sendAt id from rfl, hnone id] at hs
      cases hs
    · rw [hr.eq]
      exact zero_le
    · rw [hr.eq]
      exact h.window
  | @rewound s t ms hr =>
    refine ⟨fun id st hs => ?_, by rw [hr.eq]; exact h.connection, by rw [hr.eq]; exact h.window⟩
    by_cases hid : id ∈ s.send ∧ id.initiator = s.side
    · rw [hr.rewound id hid] at hs
      obtain ⟨before, hb, rfl⟩ := map_eq_some_iff.mp hs
      have hle := h.stream id before hb
      unfold Send.rewind
      split <;> exact hle
    rw [hr.sendAt id hid] at hs
    exact h.stream id st hs

theorem limited_fresh (h : s.Fresh) : Limited s := by
  obtain ⟨h1, h2, h3⟩ := h.sent
  refine ⟨fun id st hs => ?_, by rw [h2]; exact zero_le, by rw [h3]; exact zero_le⟩
  rw [h.sendAt id] at hs
  cases hs

end

namespace Connection
variable {allow : Connection → Event → Prop} {c : Connection}

theorem Reached.limited (h : Reached allow c) : Limited c.streams :=
  (h.sendInv_and (P := fun x => Limited x.streams) (fun _ hs => limited_fresh hs) (fun _ hx hm => hx.move hm)
    fun _ _ _ hx ht => hx.turned ht).2

/-- In every run, no stream exceeds its limit, the connection exceeds neither the peer's limit nor the
    send window, and so every write is computed without underflow. -/
theorem sender_flow_control (h : Reached (fun _ _ => True) c) :
    (∀ id stream, c.streams.sendAt id = some stream → stream.offset ≤ stream.maxData) ∧
    c.streams.dataSent ≤ c.streams.maxData ∧
    c.streams.unackedData ≤ c.streams.sendWindow ∧
    c.streams.writeLimit = some (min (c.streams.maxData - c.streams.dataSent) (c.streams.sendWindow - c.streams.unackedData)) ∧
    (∀ (σ : Type) [BytesSource σ] (source : σ) (limit : Nat) id stream, c.streams.sendAt id = some stream →
      (stream.write source limit).isSome = true) ∧
    ∀ (σ : Type) [BytesSource σ] (source : σ) id, (c.streams.writeSource id source).isSome = true := by
  have inv := h.limited
  have hlimit := writeLimit_eq_some.mpr ⟨inv.connection, inv.window, rfl⟩
  refine ⟨inv.stream, inv.connection, inv.window, hlimit, fun σ _ source limit id stream hs => ?_, fun σ _ source id => ?_⟩
  · exact write_isSome (inv.stream id stream hs) source limit
  · unfold StreamsState.writeSource
    rw [hlimit, bind_eq_bind, bind_some]
    split
    · rfl
    next entry hl =>
    dsimp only
    split
    · split <;> rfl
    obtain ⟨r, hr⟩ := isSome_iff_exists.mp (write_isSome (inv.found hl (c.streams.maxSendData id)) source
      (min (c.streams.maxData - c.streams.dataSent) (c.streams.sendWindow - c.streams.unackedData)))
    rw [hr]
    match r with
    | .error e | .ok (written, _, result) => rfl

/-- A stream is written up to its limit, and a stale and a new limit arrive. -/
theorem sender_flow_control_raised :
    let id : StreamId := ⟨.client, .uni, 0⟩
    ∃ c, runNew (fun _ _ => True) .client 1 1 8 1000 500
        [.established ⟨20, 5, 5, 5, 10, 10⟩, .openStream .uni, .send id (.write [1, 2, 3, 4, 5, 6, 7]), .transmit 0 0 60 true,
          .frame (.maxStreamData id 9), .frame (.maxStreamData id 4), .frame (.maxData 3), .send id (.write [6, 7, 8, 9])] =
          some c ∧
      (c.streams.dataSent, c.streams.unackedData) = (8, 8) ∧
      (∀ id stream, c.streams.sendAt id = some stream → stream.offset ≤ stream.maxData) ∧
      c.streams.dataSent ≤ c.streams.maxData ∧
      c.streams.unackedData ≤ c.streams.sendWindow := by
  intro id
  refine exists_of_map (f := fun c => (c.streams.dataSent, c.streams.unackedData)) (b := (8, 8)) (by decide +kernel)
    fun c hc hsent => ?_
  obtain ⟨h1, h2, h3, -⟩ := sender_flow_control (reached_runNew hc)
  exact ⟨hsent, h1, h2, h3⟩

end Connection

/-! The send window: the connection's counters are the sums of what its streams hold, and of what they
    held when they were freed. Rejected 0-RTT data that is still outstanding breaks this for good. -/

open Send SendBuffer List

/-- Bytes that wait for acknowledgement; a stream that was reset waits for none. -/
def Send.outstanding (self : Send) : Nat := if self.isReset then 0 else self.pending.unacked.getD 0

section
variable {phase : Phase} {acks : Prop} {s t u : StreamsState} {id : StreamId}

variable {stream a b : Send} {U : StreamId → Prop} {f : Send → Nat} {x y : Sending}

theorem outstanding_of_reset (h : stream.isReset = true) : stream.outstanding = 0 := if_pos h

theorem outstanding_new (maxData : Nat) : (new maxData).outstanding = 0 := rfl

theorem outstanding_congr (hst : a.state = b.state) (hlen : a.pending.unackedLen = b.pending.unackedLen)
    (hacks : a.pending.acks = b.pending.acks) : a.outstanding = b.outstanding := by
  unfold Send.outstanding isReset unacked
  rw [hst, hlen, hacks]

theorem SendInv.unacked {ms : List StreamMeta} (h : SendInv phase ⟨s, ms⟩) {stream : Send} (hs : s.sendAt id = some stream)
    (hr : stream.isReset = false) : stream.pending.unacked = some stream.outstanding := by
  obtain ⟨w, hw⟩ := h.reliable id stream hs hr
  unfold Send.outstanding
  rw [hr, hw.unacked]
  rfl

theorem unacked_writes {b : SendBuffer} {written : Bytes} (h : SendBuffer.Retains b written) : ∀ chunks : List Bytes,
    (chunks.foldl write b).unacked.getD 0 = b.unacked.getD 0 + chunks.flatten.length := by
  intro chunks
  induction chunks generalizing b written with
  | nil => rfl
  | cons chunk chunks ih =>
    have hwr : (b.write chunk).unacked.getD 0 = b.unacked.getD 0 + chunk.length := by
      rw [(h.write chunk).unacked, h.unacked]
      exact card_unackedOffsets_write h chunk
    rw [foldl_cons, ih (h.write chunk), hwr, flatten_cons, length_append, add_assoc]

theorem unacked_ack {b t : SendBuffer} {written : Bytes} {r : Nat × Nat} {rest : List (Nat × Nat)}
    (h : SendBuffer.Reliable b written (r :: rest)) (ht : b.ack r = some t) :
    b.unacked.getD 0 = t.unacked.getD 0 + (r.2 - r.1) := by
  obtain ⟨t', ht', hrel, hoff, -, -, hacked⟩ := h.ack (.refl _)
  obtain rfl := Option.some.inj (ht.symm.trans ht')
  rw [h.unacked, hrel.unacked]
  refine card_unackedOffsets_ack hoff hacked fun o ho => ?_
  obtain ⟨hna, -, hlt⟩ := h.inflight_iff mem_cons_self ho
  exact ⟨hna, hlt.trans_le h.unsent⟩

theorem sendSum_setSend (f : Send → Nat) (s : StreamsState) (id : StreamId) (stream : Send) :
    (s.setSend id stream).sendSum f + (s.sendAt id).elim 0 f = s.sendSum f + f stream := by
  have h := @sendSum_change s (s.setSend id stream) id f fun id' hne => sendAt_setSend_ne stream hne
  rwa [sendAt_setSend_self] at h

theorem elim_found {entry : Option Send} (hl : s.send.lookup id = some entry) (f : Send → Nat) {maxData : Nat}
    (hf : f (new maxData) = 0) : (s.sendAt id).elim 0 f = f (getOrInsertSend maxData entry) := by
  rw [sendAt_of_lookup hl]
  cases entry with
  | none => exact hf.symm
  | some stream => rfl

theorem sendSum_eraseSend (f : Send → Nat) (s : StreamsState) (id : StreamId) :
    (s.eraseSend id).sendSum f + (s.sendAt id).elim 0 f = s.sendSum f := by
  have h := @sendSum_change s (s.eraseSend id) id f fun id' hne => sendAt_eraseSend_ne hne
  rwa [sendAt_eraseSend_self] at h

theorem SendKept.elim_eq (h : SendKept U s t)
    (hf : ∀ {a b : Send}, Send.Alike a b → f b = f a) (hnew : ∀ maxData, f (new maxData) = 0) (id : StreamId) :
    (t.sendAt id).elim 0 f = (s.sendAt id).elim 0 f := by
  have htch := h.sendAt id
  generalize s.sendAt id = a at htch
  generalize t.sendAt id = b at htch
  cases htch with
  | none => rfl
  | created ha => exact (hf ha).trans (hnew _)
  | some ha => exact hf ha

theorem SendKept.sendSum_eq (h : SendKept U s t)
    (hf : ∀ {a b : Send}, Send.Alike a b → f b = f a) (hnew : ∀ maxData, f (new maxData) = 0) :
    t.sendSum f = s.sendSum f :=
  sumBy_congr fun id => by rw [valueAt_send, valueAt_send, SendKept.elim_eq h hf hnew]

theorem Rewound.elim_eq {range : StreamId → Prop} (h : Rewound s t range)
    (hf : ∀ stream : Send, f stream.rewind = f stream) (id : StreamId) : (t.sendAt id).elim 0 f = (s.sendAt id).elim 0 f := by
  by_cases hid : range id
  · rw [h.rewound id hid]
    cases s.sendAt id with
    | none => rfl
    | some stream => exact hf stream
  · rw [h.sendAt id hid]

theorem alike_outstanding (h : Send.Alike a b) : b.outstanding = a.outstanding :=
  outstanding_congr h.state (by rw [h.pending]) (by rw [h.pending])

theorem alike_offset (h : Send.Alike a b) : b.offset = a.offset := by
  unfold Send.offset
  rw [h.pending]

def Outstanding (s : StreamsState) : Prop := s.unackedData = s.sendSum Send.outstanding

theorem Outstanding.kept (h : Outstanding s) (hk : SendKept U s t) : Outstanding t := by
  unfold Outstanding
  rw [SendKept.sendSum_eq hk alike_outstanding outstanding_new, ← h, hk.outgoing]

theorem Outstanding.store (h : Outstanding s) (hsend : t.send = (s.setSend id stream).send)
    (hdata : t.unackedData + (s.sendAt id).elim 0 Send.outstanding = s.unackedData + stream.outstanding) : Outstanding t := by
  have hsum : t.sendSum Send.outstanding = (s.setSend id stream).sendSum Send.outstanding := by
    unfold StreamsState.sendSum
    rw [hsend]
  have hset := sendSum_setSend Send.outstanding s id stream
  unfold Outstanding at *
  omega

theorem Outstanding.move (hinv : SendInv phase x) (h : Outstanding x.streams) (hm : Move phase acks x y) :
    Outstanding y.streams := by
  cases hm with
  | kept hk hU => exact h.kept hk
  | perm hp | raised n => exact h
  | @wrote s ms id entry limit chunks _ hl hid hlim hst hle hmax =>
    refine h.store rfl ?_
    rw [elim_found hl _ (outstanding_new (s.maxSendData id))]
    have hr : ∀ stream : Send, stream.state = .ready → stream.outstanding = stream.pending.unacked.getD 0 := fun stream hs => by
      unfold Send.outstanding isReset
      rw [hs]
      rfl
    obtain ⟨w, hw⟩ := (hinv.found hl (s.maxSendData id)).1 (by unfold isReset; rw [hst]; rfl)
    rw [hr _ hst, hr { getOrInsertSend (s.maxSendData id) entry with
      pending := chunks.foldl write (getOrInsertSend (s.maxSendData id) entry).pending } hst]
    dsimp only
    rw [unacked_writes hw.toRetains]
    omega
  | @finished s ms id entry hl hid hst =>
    refine h.store rfl ?_
    rw [elim_found hl _ (outstanding_new (s.maxSendData id))]
    unfold Send.outstanding isReset
    rw [hst]
    rfl
  | @reset s ms id entry n rest hl hid hr hn hrest =>
    refine h.store rfl ?_
    rw [elim_found hl _ (outstanding_new (s.maxSendData id))]
    unfold Send.outstanding
    rw [hr, hn]
    show rest + n = s.unackedData + 0
    omega
  | ignored hrdy hrst => exact h
  | @acked s ms m stream stream' done rest hrdy hat hr hrest hack =>
    obtain ⟨w, hw⟩ := hinv.reliable m.id stream hat hr
    rw [show rangesOf m.id (m :: ms) = m.offsets :: rangesOf m.id ms from rangesOf_cons_self m ms] at hw
    obtain ⟨pending, state, hp, rfl, hst⟩ := ack_spec hack
    have hlen := unacked_ack hw hp
    have hr' : ({ stream with pending, state } : Send).isReset = false := by
      rcases hst with ⟨a, -, rfl⟩ | ⟨-, rfl⟩
      · rfl
      · exact hr
    refine h.store rfl ?_
    rw [hat]
    show rest + stream.outstanding = s.unackedData + _
    unfold Send.outstanding
    rw [hr, hr']
    simp only [Bool.false_eq_true, if_false]
    omega
  | @freed s t ms id stream hrdy hacks hat hdone hfree =>
    have hg := grown_streamFreed hfree
    suffices he : Outstanding (s.eraseSend id) from he.kept (U := fun _ => False) hg.sendKept
    have hzero : stream.outstanding = 0 := by
      rcases hdone with hr | ⟨hst, hacked⟩
      · exact outstanding_of_reset hr
      unfold Send.outstanding unacked
      rw [of_decide_eq_true hacked]
      split
      · rfl
      unfold checkedSub
      split
      · exact Nat.zero_sub _
      · rfl
    have herase := sendSum_eraseSend Send.outstanding s id
    rw [hat] at herase
    change _ + stream.outstanding = _ at herase
    unfold Outstanding at *
    show s.unackedData = _
    dsimp only at h
    omega
  | @lost s ms m stream hrdy hat =>
    refine h.store rfl ?_
    rw [hat]
    exact congrArg (s.unackedData + ·) (outstanding_congr rfl rfl rfl)
  | skipped hpop hnext => exact h
  | @sent s ms next queue stream stream' maxLen m encodeLength fair hpop hat hr hroom hnext =>
    obtain ⟨pending, hp, rfl, -, -⟩ := nextFrame_spec hnext
    obtain ⟨w, hw⟩ := hinv.reliable next.id stream hat hr
    obtain ⟨t, r, e, ht, -, -, hlen, hacks, -⟩ := hw.pollTransmit hroom
    obtain ⟨rfl, -⟩ := Prod.mk.inj (Option.some.inj (hp.symm.trans ht))
    refine h.store rfl ?_
    rw [hat]
    exact congrArg (s.unackedData + ·) (outstanding_congr rfl hlen.symm hacks.symm)

def freedBy (s t : StreamsState) : Nat := sumOn (fun id => decide (id ∉ t.send)) (fun entry => entry.elim 0 Send.offset) s.send

/-- Nothing was written, and streams that are still there are not new. -/
structure Freeing (s t : StreamsState) : Prop where
  dataSent : t.dataSent = s.dataSent
  known : ∀ id, s.Known id → t.Known id
  offset : ∀ id ∈ t.send, (t.sendAt id).elim 0 Send.offset = (s.sendAt id).elim 0 Send.offset
  old : ∀ id ∈ t.send, id ∈ s.send ∨ ¬s.Known id

theorem Freeing.refl (s : StreamsState) : Freeing s s := ⟨rfl, fun _ h => h, fun _ _ => rfl, fun _ h => .inl h⟩

theorem Freeing.trans (hkn : ∀ id ∈ s.send, s.Known id) (h₁ : Freeing s t) (h₂ : Freeing t u) : Freeing s u := by
  have hold : ∀ id ∈ u.send, id ∈ t.send ∨ ¬s.Known id := fun id hid =>
    (h₂.old id hid).imp_right fun hn hk => hn (h₁.known id hk)
  refine ⟨h₂.dataSent.trans h₁.dataSent, fun id hk => h₂.known id (h₁.known id hk), fun id hid => ?_, fun id hid => ?_⟩
  · rw [h₂.offset id hid]
    by_cases ht : id ∈ t.send
    · exact h₁.offset id ht
    -- A stream that came back would have been forgotten.
    have hs : id ∉ s.send := fun hs => ((hold id hid).resolve_left ht) (hkn id hs)
    rw [sendAt_of_notMem ht, sendAt_of_notMem hs]
  · exact (hold id hid).elim (h₁.old id) .inr

theorem Freeing.tally (h : Freeing s t) : s.sendSum Send.offset = t.sendSum Send.offset + freedBy s t :=
  sumBy_eq_add_sumOn fun id => by
    rw [valueAt_send, valueAt_send]
    split
    · next hid => exact h.offset id hid
    next hid =>
    rw [sendAt_of_notMem hid]
    rfl

theorem Freeing.store (hmem : id ∈ s.send) (hoff : stream.offset = (s.sendAt id).elim 0 Send.offset)
    (hsend : t.send = (s.setSend id stream).send) (hdata : t.dataSent = s.dataSent) (hside : t.side = s.side)
    (hnext : t.next = s.next) (hmax : t.maxRemote = s.maxRemote) : Freeing s t := by
  have hat : ∀ id', t.sendAt id' = (s.setSend id stream).sendAt id' := fun id' => by
    unfold StreamsState.sendAt
    rw [hsend]
  refine ⟨hdata, fun id' hk => hk.mono hside (fun dir => by rw [hnext]) (fun dir => by rw [hmax]), fun id' _ => ?_,
    fun id' hid' => ?_⟩
  · rw [hat]
    by_cases hid : id' = id
    · subst hid
      rw [sendAt_setSend_self]
      exact hoff
    · rw [sendAt_setSend_ne stream hid]
  · rw [hsend, mem_setSend] at hid'
    exact .inl (hid'.elim (fun h => h ▸ hmem) fun h => h)

theorem SendKept.freeing (h : SendKept U s t) : Freeing s t where
  dataSent := by rw [h.outgoing]
  known id hk := hk.mono h.side h.next h.maxRemote
  offset id _ := SendKept.elim_eq h alike_offset (fun _ => rfl) id
  old id hid := (h.fresh id hid).imp_right fun hn => hn.1

structure Writing (s t : StreamsState) : Prop where
  tally : t.dataSent + s.sendSum Send.offset = s.dataSent + t.sendSum Send.offset
  mem : ∀ id ∈ s.send, id ∈ t.send

theorem Writing.trans (h₁ : Writing s t) (h₂ : Writing t u) : Writing s u := by
  refine ⟨?_, fun id hid => h₂.mem id (h₁.mem id hid)⟩
  have := h₁.tally
  have := h₂.tally
  omega

theorem freedBy_eq_zero (hmem : ∀ id ∈ s.send, id ∈ t.send) : freedBy s t = 0 := by
  unfold freedBy sumOn
  rw [filter_eq_nil_iff.mpr fun e he => ?_]
  · rfl
  · simpa using hmem e.1 (AList.mem_keys.mpr (mem_map_of_mem he))

theorem Freeing.writing (h : Freeing s t) (hmem : ∀ id ∈ s.send, id ∈ t.send) : Writing s t := by
  refine ⟨?_, hmem⟩
  have hdata := h.dataSent
  have htally := h.tally
  rw [freedBy_eq_zero hmem] at htally
  omega

theorem writing_writes {entry : Option Send} (hl : s.send.lookup id = some entry) (chunks : List Bytes)
    (hsend : t.send = (s.setSend id { getOrInsertSend (s.maxSendData id) entry with
      pending := chunks.foldl write (getOrInsertSend (s.maxSendData id) entry).pending }).send)
    (hdata : t.dataSent = s.dataSent + chunks.flatten.length) : Writing s t := by
  refine ⟨?_, fun id' hid' => by rw [hsend, mem_setSend]; exact .inr hid'⟩
  have hsum : t.sendSum Send.offset = (s.setSend id { getOrInsertSend (s.maxSendData id) entry with
      pending := chunks.foldl write (getOrInsertSend (s.maxSendData id) entry).pending }).sendSum Send.offset := by
    unfold StreamsState.sendSum
    rw [hsend]
  have hset := sendSum_setSend Send.offset s id { getOrInsertSend (s.maxSendData id) entry with
      pending := chunks.foldl write (getOrInsertSend (s.maxSendData id) entry).pending }
  have hoff := foldl_write_offset chunks (getOrInsertSend (s.maxSendData id) entry).pending
  rw [elim_found hl Send.offset (show (new (s.maxSendData id)).offset = 0 from rfl)] at hset
  unfold Send.offset at *
  dsimp only at *
  omega

theorem tally_move (hinv : SendInv phase x) (hm : Move phase acks x y) :
    (acks → Freeing x.streams y.streams) ∧ (¬acks → Writing x.streams y.streams) := by
  have hfreeing : Freeing x.streams y.streams → (¬acks → ∀ id ∈ x.streams.send, id ∈ y.streams.send) →
      (acks → Freeing x.streams y.streams) ∧ (¬acks → Writing x.streams y.streams) := fun hf hmem =>
    ⟨fun _ => hf, fun hn => hf.writing (hmem hn)⟩
  have hstore : ∀ {id : StreamId} {stream : Send}, id ∈ x.streams.send →
      stream.offset = (x.streams.sendAt id).elim 0 Send.offset → y.streams.send = (x.streams.setSend id stream).send →
      y.streams.dataSent = x.streams.dataSent → y.streams.side = x.streams.side → y.streams.next = x.streams.next →
      y.streams.maxRemote = x.streams.maxRemote →
      (acks → Freeing x.streams y.streams) ∧ (¬acks → Writing x.streams y.streams) :=
    fun hmem hoff hsend hdata hside hnext hmax =>
      hfreeing (.store hmem hoff hsend hdata hside hnext hmax) fun _ id' hid' => by
        rw [hsend, mem_setSend]
        exact .inr hid'
  cases hm with
  | kept hk hU => exact hfreeing (SendKept.freeing hk) fun _ => hk.mem
  | perm hp => exact hfreeing (.refl _) fun _ _ h => h
  | raised n => exact hfreeing ⟨rfl, fun _ h => h, fun _ _ => rfl, fun _ h => .inl h⟩ fun _ _ h => h
  | wrote chunks hn hl => exact ⟨fun ha => absurd ha hn, fun _ => writing_writes hl chunks rfl rfl⟩
  | @finished s ms id entry hl hid hst | @reset s ms id entry n rest hl hid hr hn hrest =>
    refine hstore (mem_of_lookup_send hl) ?_ rfl rfl rfl rfl rfl
    exact (elim_found hl Send.offset rfl).symm
  | ignored hrdy hrst => exact hfreeing (.refl _) fun _ _ h => h
  | acked hrdy hat hr hrest hack =>
    obtain ⟨pending, state, hp, rfl, -⟩ := ack_spec hack
    refine hstore (mem_of_sendAt hat) ?_ rfl rfl rfl rfl rfl
    rw [hat]
    exact ack_offset hp
  | @freed s t ms id stream hrdy hacks hat hdone hfree =>
    have herase : Freeing s (s.eraseSend id) := ⟨rfl, fun _ h => h,
      fun id' hid' => by rw [sendAt_eraseSend_ne (mem_eraseSend.mp hid').1], fun id' hid' => .inl (mem_eraseSend.mp hid').2⟩
    have hg := SendKept.freeing ((grown_streamFreed hfree).sendKept (U := fun _ => False))
    exact hfreeing (herase.trans hinv.known hg) fun hn => absurd hacks hn
  | lost hrdy hat =>
    refine hstore (mem_of_sendAt hat) ?_ rfl rfl rfl rfl rfl
    rw [hat]
    rfl
  | skipped hpop hnext => exact hfreeing ⟨rfl, fun _ h => h, fun _ _ => rfl, fun _ h => .inl h⟩ fun _ _ h => h
  | sent fair hpop hat hr hroom hnext =>
    obtain ⟨pending, hp, rfl, -, -⟩ := nextFrame_spec hnext
    refine hstore (mem_of_sendAt hat) ?_ rfl rfl rfl rfl rfl
    rw [hat]
    exact (pollTransmit_unsent hp).1

theorem tally_moves (hinv : SendInv phase x) (hm : Moves phase acks x y) :
    y.streams.dataSent + x.streams.sendSum Send.offset =
      x.streams.dataSent + y.streams.sendSum Send.offset + freedBy x.streams y.streams := by
  have h : SendInv phase y ∧ (acks → Freeing x.streams y.streams) ∧ (¬acks → Writing x.streams y.streams) := by
    induction hm with
    | refl => exact ⟨hinv, fun _ => .refl _, fun _ => ⟨rfl, fun _ h => h⟩⟩
    | tail _ hm ih =>
      obtain ⟨hinv', hfree, hwr⟩ := ih
      obtain ⟨hfree', hwr'⟩ := tally_move hinv' hm
      exact ⟨hinv'.move hm, fun ha => (hfree ha).trans hinv.known (hfree' ha), fun hn => (hwr hn).trans (hwr' hn)⟩
  by_cases hacks : acks
  · have htally := (h.2.1 hacks).tally
    have hdata := (h.2.1 hacks).dataSent
    omega
  have htally := (h.2.2 hacks).tally
  rw [freedBy_eq_zero (h.2.2 hacks).mem]
  omega

end

namespace Connection

/-- 0-RTT data is rejected only when none of it is outstanding. -/
def Unencumbered (c : Connection) : Event → Prop
  | .zeroRttRejected _ => c.streams.unackedData = 0
  | _ => True

instance (c : Connection) : DecidablePred c.Unencumbered := fun e => by
  delta Unencumbered
  induction e using Event.casesOn <;> infer_instance

variable {c d : Connection} {e : Event}

theorem Reached.outstanding (h : Reached Unencumbered c) : Outstanding c.streams := by
  refine (h.sendInv_and (P := fun x => Outstanding x.streams) (fun s hs => ?_) (fun hinv hx hm => hx.move hinv hm)
    fun {c e y} hallow hp hinv hx ht => ?_).2
  · exact hs.sent.2.2.trans (sendSum_eq_zero _ hs.sendAt).symm
  · cases ht with
    | early params | done params => exact hx
    | @rejected _ t _ params hr hnone =>
      have hdata : t.unackedData = 0 := by
        rw [hr.eq]
        exact hallow
      exact hdata.trans (sendSum_eq_zero (s := t.noteParams params) _ hnone).symm
    | @rewound _ t _ hr =>
      have hsum : t.sendSum Send.outstanding = c.streams.sendSum Send.outstanding := sumBy_congr fun id => by
        rw [valueAt_send, valueAt_send, Rewound.elim_eq hr fun stream => ?_]
        unfold rewind
        split
        · rfl
        · exact outstanding_congr rfl rfl rfl
      have hdata : t.unackedData = c.streams.unackedData := by rw [hr.eq]
      exact hdata.trans (hx.trans hsum.symm)

/-- The handshake writes and frees nothing, unless 0-RTT data is rejected. -/
theorem freeing_turned {x y : Sending} (hrej : ∀ params, e ≠ .zeroRttRejected params) (ht : Turned e x y) :
    Freeing x.streams y.streams ∧ ∀ id ∈ x.streams.send, id ∈ y.streams.send := by
  cases ht with
  | early params | done params => exact ⟨⟨rfl, fun _ h => h, fun _ _ => rfl, fun _ h => .inl h⟩, fun _ h => h⟩
  | rejected params => exact absurd rfl (hrej params)
  | @rewound s t ms hr =>
    refine ⟨⟨by rw [hr.eq], fun id hk => hk.mono (by rw [hr.eq]) (fun dir => by rw [hr.eq]) (fun dir => by rw [hr.eq]),
      fun id _ => Rewound.elim_eq hr (fun stream => ?_) id, fun id hid => .inl ((hr.mem id).mp hid)⟩,
      fun id hid => (hr.mem id).mpr hid⟩
    unfold rewind
    split <;> rfl

theorem dataSent_rejected {x y : Sending} {params : TransportParameters} (ht : Turned (.zeroRttRejected params) x y) :
    y.streams.dataSent = 0 ∧ ∀ id, y.streams.sendAt id = none := by
  cases ht with
  | @rejected s t ms _ hr hnone =>
    refine ⟨?_, hnone⟩
    show t.dataSent = 0
    rw [hr.eq]

theorem tally_step (hnone : c.NoneAccepted) (hinv : SendInv c.phase c.sending) (he : c.Enabled e) (h : c.step e = some d)
    (hrej : ∀ params, e ≠ .zeroRttRejected params) :
    d.streams.dataSent + c.streams.sendSum Send.offset =
      c.streams.dataSent + d.streams.sendSum Send.offset + freedBy c.streams d.streams := by
  by_cases hh : Handshake e
  · obtain ⟨hf, hmem⟩ := freeing_turned hrej (turned_step hinv he hh h).2
    rw [freedBy_eq_zero (s := c.streams) (t := d.streams) hmem]
    exact (hf.writing hmem).tally
  · exact tally_moves hinv (moves_step hnone he hh h).2

/-- A connection, and what was written on the streams that it freed. Rejected 0-RTT data was never sent. -/
structure Ledger where
  conn : Connection
  freed : Nat

namespace Ledger
variable {l : Ledger}

def freedAfter (self : Ledger) (conn : Connection) : Event → Nat
  | .zeroRttRejected _ => 0
  | _ => self.freed + freedBy self.conn.streams conn.streams

def step (self : Ledger) (e : Event) : Option Ledger := do
  let conn ← self.conn.step e
  some ⟨conn, self.freedAfter conn e⟩

def Reached : Ledger → Prop :=
  Reaches step (fun l e => l.conn.Enabled e ∧ l.conn.Unencumbered e) fun l => l.conn.IsNew ∧ l.freed = 0

theorem Reached.conn (h : l.Reached) : Connection.Reached Unencumbered l.conn := by
  show Reaches Connection.step (fun c e => c.Enabled e ∧ c.Unencumbered e) IsNew (Ledger.conn l)
  refine Reaches.map Ledger.conn (fun _ hl => hl.1) (fun _ _ hl => hl) (fun l e m hm => ?_) h
  obtain ⟨conn, hc, rfl⟩ := exists_of_bind hm
  exact hc

theorem Reached.dataSent (h : l.Reached) : l.conn.streams.dataSent = l.conn.streams.sendSum Send.offset + l.freed := by
  induction h with
  | start hl =>
    obtain ⟨hf, -, -⟩ := hl.1.spec
    rw [hf.sent.2.1, sendSum_eq_zero _ hf.sendAt, hl.2]
  | @next l m e hl he hm ih =>
    have hreached := Reached.conn hl
    obtain ⟨conn, hc, rfl⟩ := exists_of_bind hm
    by_cases hrej : ∃ params, e = .zeroRttRejected params
    · obtain ⟨params, rfl⟩ := hrej
      obtain ⟨hdata, hnone⟩ := dataSent_rejected (turned_step hreached.sendInv he.1 trivial hc).2
      exact Eq.trans hdata (sendSum_eq_zero (s := conn.streams) Send.offset hnone).symm
    have hne : ∀ params, e ≠ .zeroRttRejected params := fun params h => hrej ⟨params, h⟩
    have htally := tally_step hreached.base.1 hreached.sendInv he.1 hc hne
    have hfreed : l.freedAfter conn e = l.freed + freedBy l.conn.streams conn.streams := by
      cases e with
      | zeroRttRejected params => exact absurd rfl (hne params)
      | _ => rfl
    dsimp only
    omega

end Ledger

/-- While no outstanding 0-RTT data is rejected, `unacked_data` is what the streams that were not reset
    wait for, and `data_sent` what was written on the streams that exist or were freed. So only data that
    exists takes from the room to write. -/
theorem send_window_accounted {l : Ledger} (h : l.Reached) :
    l.conn.streams.unackedData = l.conn.streams.sendSum Send.outstanding ∧
    l.conn.streams.dataSent = l.conn.streams.sendSum Send.offset + l.freed ∧
    (∀ id stream, l.conn.streams.sendAt id = some stream → stream.isReset = false →
      stream.pending.unacked = some stream.outstanding) ∧
    l.conn.streams.writeLimit =
      some (min (l.conn.streams.maxData - (l.conn.streams.sendSum Send.offset + l.freed))
        (l.conn.streams.sendWindow - l.conn.streams.sendSum Send.outstanding)) := by
  have hout := h.conn.outstanding
  have hlimited := h.conn.limited
  refine ⟨hout, h.dataSent, fun id stream hs hr => h.conn.sendInv.unacked hs hr, ?_⟩
  rw [← hout, ← h.dataSent]
  exact writeLimit_eq_some.mpr ⟨hlimited.connection, hlimited.window, rfl⟩

/-- One stream is acknowledged and freed, another is written on. -/
theorem send_window_accounted_freed :
    let P : TransportParameters := ⟨100, 100, 100, 100, 10, 10⟩
    let a : StreamId := ⟨.client, .uni, 0⟩
    let b : StreamId := ⟨.client, .uni, 1⟩
    ∃ l : Ledger, ((new .client 1 1 50 1000 500).bind fun c => runFrom Ledger.step
        (fun l e => l.conn.Enabled e ∧ l.conn.Unencumbered e) ⟨c, 0⟩
        [.init0rtt P, .openStream .uni, .zeroRttRejected P, .openStream .uni, .openStream .uni, .send a (.write [1, 2, 3]),
          .send a .finish, .transmit 0 0 60 true, .send b (.write [4, 5]), .ack 0]) = some l ∧
      (l.freed, l.conn.streams.unackedData, l.conn.streams.dataSent) = (3, 2, 5) ∧
      l.conn.streams.unackedData = l.conn.streams.sendSum Send.outstanding ∧
      l.conn.streams.dataSent = l.conn.streams.sendSum Send.offset + l.freed := by
  intro P a b
  refine exists_of_map (f := fun l => (l.freed, l.conn.streams.unackedData, l.conn.streams.dataSent)) (b := (3, 2, 5))
    (by decide +kernel) fun l hl hcounts => ?_
  obtain ⟨c, hc, hl⟩ := Option.bind_eq_some_iff.mp hl
  obtain ⟨h1, h2, -⟩ := send_window_accounted (Reaches.runFrom _ (.start ⟨⟨.client, 1, 1, 50, 1000, 500, hc⟩, rfl⟩) hl)
  exact ⟨hcounts, h1, h2⟩

/-- Rejecting 0-RTT data forgets the streams but keeps their bytes in `unacked_data`. -/
theorem send_window_leaks :
    let P : TransportParameters := ⟨100, 100, 100, 100, 10, 10⟩
    (runNew (fun _ _ => True) .client 1 1 50 1000 500
      [.init0rtt P, .openStream .uni, .send ⟨.client, .uni, 0⟩ (.write [1, 2, 3]), .zeroRttRejected P]).map
      (fun c => (c.streams.unackedData, c.streams.sendSum Send.outstanding, c.streams.sendSum (·.pending.unacked.getD 0),
        c.streams.writeLimit)) = some (3, 0, 0, some 47) := by
  decide +kernel

end Connection
end SaorsaTransport
