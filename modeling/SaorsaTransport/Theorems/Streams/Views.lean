import SaorsaTransport.Connection

/-! How the state of the streams looks from one of its sides. Sending and receiving depend on the halves that exist;
    entries of streams that nobody used yet come and go without either of them noticing. -/

namespace SaorsaTransport.StreamsState
open Library AList StreamsState StreamRecv

variable {s t u : StreamsState} {id id' : StreamId} {entry : Option StreamRecv} {A B A' B' : StreamId → Prop}

theorem sendAt_of_lookup {entry : Option Send} (h : s.send.lookup id = some entry) : s.sendAt id = entry := by
  rw [sendAt, h]
  rfl

theorem sendAt_of_notMem (h : id ∉ s.send) : s.sendAt id = none := by
  rw [sendAt, lookup_eq_none.mpr h]
  rfl

theorem mem_of_sendAt {stream : Send} (h : s.sendAt id = some stream) : id ∈ s.send := by
  by_contra hn
  rw [sendAt_of_notMem hn] at h
  cases h

theorem mem_of_lookup_send {entry : Option Send} (h : s.send.lookup id = some entry) : id ∈ s.send := by
  rw [← lookup_isSome, h]
  rfl

@[simp] theorem sendAt_setSend_self (stream : Send) : (s.setSend id stream).sendAt id = some stream := by
  simp [sendAt, setSend]

theorem sendAt_setSend_ne (stream : Send) (h : id' ≠ id) : (s.setSend id stream).sendAt id' = s.sendAt id' := by
  simp [sendAt, setSend, lookup_insert_ne h]

theorem mem_setSend (stream : Send) : id' ∈ (s.setSend id stream).send ↔ id' = id ∨ id' ∈ s.send :=
  mem_insert _

def sendSum (f : Send → Nat) (s : StreamsState) : Nat := sumBy (fun entry => entry.elim 0 f) s.send

theorem valueAt_send (f : Send → Nat) (s : StreamsState) (id : StreamId) :
    valueAt (fun entry => entry.elim 0 f) s.send id = (s.sendAt id).elim 0 f := by
  unfold valueAt sendAt
  cases s.send.lookup id <;> rfl

theorem sendSum_eq_zero (f : Send → Nat) (h : ∀ id, s.sendAt id = none) : s.sendSum f = 0 :=
  sumBy_eq_zero fun id => by rw [valueAt_send, h id]; rfl

theorem sendSum_change (f : Send → Nat) (h : ∀ id', id' ≠ id → t.sendAt id' = s.sendAt id') :
    t.sendSum f + (s.sendAt id).elim 0 f = s.sendSum f + (t.sendAt id).elim 0 f := by
  rw [← valueAt_send, ← valueAt_send]
  exact sumBy_change id fun id' hne => by rw [valueAt_send, valueAt_send, h id' hne]

/-- The state with the limits of `params` noted, before the streams that exist are told. -/
def noteParams (s : StreamsState) (params : TransportParameters) : StreamsState :=
  { s with initialMaxStreamDataUni := params.initialMaxStreamDataUni
           initialMaxStreamDataBidiLocal := params.initialMaxStreamDataBidiLocal
           initialMaxStreamDataBidiRemote := params.initialMaxStreamDataBidiRemote
           max := perDir params.initialMaxStreamsBidi params.initialMaxStreamsUni
           maxData := Nat.max s.maxData params.initialMaxData }

theorem setParams_eq (params : TransportParameters) : s.setParams params =
    (s.noteParams params).setMaxDataRemotes params.initialMaxStreamDataBidiLocal (s.maxRemote .bi) := rfl

structure Pooled (s : StreamsState) : Prop where
  free : ∀ r ∈ s.freeRecv, r = .free (Recv.new s.streamReceiveWindow)
  entry : ∀ id r, s.recv.lookup id = some (some (.free r)) → r = Recv.new s.streamReceiveWindow

theorem recvAt_of_lookup (h : s.recv.lookup id = some entry) : s.recvAt id = entry.bind asOpenRecv := by
  rw [recvAt, h]
  rfl

theorem recvAt_of_notMem (h : id ∉ s.recv) : s.recvAt id = none := by
  rw [recvAt, lookup_eq_none.mpr h]
  rfl

theorem mem_of_recvAt {rs : Recv} (h : s.recvAt id = some rs) : id ∈ s.recv := by
  by_contra hn
  rw [recvAt_of_notMem hn] at h
  cases h

theorem mem_of_lookup_recv (h : s.recv.lookup id = some entry) : id ∈ s.recv := by
  rw [← lookup_isSome, h]
  rfl

@[simp] theorem recvAt_setRecv_self (rs : Recv) : (s.setRecv id rs).recvAt id = some rs := by
  simp [recvAt, setRecv, asOpenRecv]

theorem recvAt_setRecv_ne (rs : Recv) (h : id' ≠ id) : (s.setRecv id rs).recvAt id' = s.recvAt id' := by
  simp [recvAt, setRecv, lookup_insert_ne h]

theorem mem_setRecv (rs : Recv) : id' ∈ (s.setRecv id rs).recv ↔ id' = id ∨ id' ∈ s.recv :=
  mem_insert _

def recvSum (f : Recv → Nat) (s : StreamsState) : Nat :=
  sumBy (fun entry => (entry.bind asOpenRecv).elim 0 f) s.recv

theorem valueAt_recv (f : Recv → Nat) (s : StreamsState) (id : StreamId) :
    valueAt (fun entry => (entry.bind asOpenRecv).elim 0 f) s.recv id = (s.recvAt id).elim 0 f := by
  unfold valueAt recvAt
  cases s.recv.lookup id <;> rfl

theorem recvSum_change (f : Recv → Nat) (h : ∀ id', id' ≠ id → t.recvAt id' = s.recvAt id') :
    t.recvSum f + (s.recvAt id).elim 0 f = s.recvSum f + (t.recvAt id).elim 0 f := by
  rw [← valueAt_recv, ← valueAt_recv]
  exact sumBy_change id fun id' hne => by rw [valueAt_recv, valueAt_recv, h id' hne]

def recvOr (s : StreamsState) (id : StreamId) : Recv := (s.recvAt id).getD (Recv.new s.streamReceiveWindow)

theorem getOrInsertRecv_eq (h : s.Pooled) (hl : s.recv.lookup id = some entry) :
    getOrInsertRecv s.streamReceiveWindow entry = s.recvOr id := by
  unfold recvOr
  rw [recvAt_of_lookup hl]
  match entry with
  | none | some (.open_ r) => rfl
  | some (.free r) => exact h.entry id r hl

theorem Pooled.setRecv (h : s.Pooled) (rs : Recv) : (s.setRecv id rs).Pooled where
  free := h.free
  entry id' r hl := by
    by_cases hid : id' = id
    · subst hid
      simp [StreamsState.setRecv] at hl
    refine h.entry id' r ?_
    rw [StreamsState.setRecv, lookup_insert_ne hid] at hl
    exact hl

def eraseRecv (s : StreamsState) (id : StreamId) : StreamsState := { s with recv := s.recv.erase id }

@[simp] theorem recvAt_eraseRecv_self : (s.eraseRecv id).recvAt id = none := by simp [recvAt, eraseRecv]

theorem recvAt_eraseRecv_ne (h : id' ≠ id) : (s.eraseRecv id).recvAt id' = s.recvAt id' := by
  simp [recvAt, eraseRecv, lookup_erase_ne h]

theorem mem_eraseRecv : id' ∈ (s.eraseRecv id).recv ↔ id' ≠ id ∧ id' ∈ s.recv := mem_erase

theorem Pooled.eraseRecv (h : s.Pooled) : (s.eraseRecv id).Pooled where
  free := h.free
  entry id' r hl := by
    by_cases hid : id' = id
    · subst hid
      simp [StreamsState.eraseRecv] at hl
    refine h.entry id' r ?_
    rw [StreamsState.eraseRecv, lookup_erase_ne hid] at hl
    exact hl

def eraseSend (s : StreamsState) (id : StreamId) : StreamsState := { s with send := s.send.erase id }

@[simp] theorem sendAt_eraseSend_self : (s.eraseSend id).sendAt id = none := by simp [sendAt, eraseSend]

theorem sendAt_eraseSend_ne (h : id' ≠ id) : (s.eraseSend id).sendAt id' = s.sendAt id' := by
  simp [sendAt, eraseSend, lookup_erase_ne h]

theorem sendAt_of_eraseSend {stream : Send} (h : (s.eraseSend id).sendAt id' = some stream) : s.sendAt id' = some stream := by
  by_cases hid : id' = id
  · rw [hid, sendAt_eraseSend_self] at h
    cases h
  · rwa [sendAt_eraseSend_ne hid] at h

theorem mem_eraseSend : id' ∈ (s.eraseSend id).send ↔ id' ≠ id ∧ id' ∈ s.send := mem_erase

structure Added (s t : StreamsState) (newSend newRecv : StreamId → Prop) : Prop where
  side : t.side = s.side
  events : t.events = s.events
  outgoing : t.toOutgoing = { s.toOutgoing with send := t.send }
  incoming : t.toIncoming = { s.toIncoming with recv := t.recv, freeRecv := t.freeRecv }
  remote : t.toRemote = s.toRemote
  sendAt : ∀ id, t.sendAt id = s.sendAt id
  mem_send : ∀ id, id ∈ t.send ↔ id ∈ s.send ∨ newSend id
  mem_recv : ∀ id, id ∈ t.recv ↔ id ∈ s.recv ∨ newRecv id
  not_mem_send : ∀ id, newSend id → id ∉ s.send
  not_mem_recv : ∀ id, newRecv id → id ∉ s.recv
  pooled : s.Pooled → t.Pooled
  recvAt : s.Pooled → ∀ id, t.recvAt id = s.recvAt id

theorem Added.refl (s : StreamsState) : Added s s (fun _ => False) (fun _ => False) :=
  ⟨rfl, rfl, rfl, rfl, rfl, fun _ => rfl, fun _ => (iff_of_eq (or_false _)).symm, fun _ => (iff_of_eq (or_false _)).symm,
    fun _ h => h.elim, fun _ h => h.elim, id, fun _ _ => rfl⟩

theorem Added.trans (h₁ : Added s t A B) (h₂ : Added t u A' B') :
    Added s u (fun id => A id ∨ A' id) (fun id => B id ∨ B' id) where
  side := h₂.side.trans h₁.side
  events := h₂.events.trans h₁.events
  outgoing := by rw [h₂.outgoing, h₁.outgoing]
  incoming := by rw [h₂.incoming, h₁.incoming]
  remote := h₂.remote.trans h₁.remote
  sendAt id := (h₂.sendAt id).trans (h₁.sendAt id)
  mem_send id := by rw [h₂.mem_send, h₁.mem_send, or_assoc]
  mem_recv id := by rw [h₂.mem_recv, h₁.mem_recv, or_assoc]
  not_mem_send id h hm := h.elim (fun h => h₁.not_mem_send id h hm) fun h =>
    h₂.not_mem_send id h ((h₁.mem_send id).mpr (.inl hm))
  not_mem_recv id h hm := h.elim (fun h => h₁.not_mem_recv id h hm) fun h =>
    h₂.not_mem_recv id h ((h₁.mem_recv id).mpr (.inl hm))
  pooled h := h₂.pooled (h₁.pooled h)
  recvAt h id := (h₂.recvAt (h₁.pooled h) id).trans (h₁.recvAt h id)

theorem Added.congr (h : Added s t A B) (hA : ∀ id, A id ↔ A' id) (hB : ∀ id, B id ↔ B' id) : Added s t A' B' := by
  obtain rfl : A = A' := funext fun id => propext (hA id)
  obtain rfl : B = B' := funext fun id => propext (hB id)
  exact h

theorem added_insertSend (h : s.insertSend id = some t) : Added s t (· = id) (fun _ => False) := by
  unfold insertSend at h
  split at h
  · cases h
  next hn =>
  cases h
  refine ⟨rfl, rfl, rfl, rfl, rfl, fun id' => ?_, fun id' => ?_, fun id' => (iff_of_eq (or_false _)).symm, ?_,
    fun _ h => h.elim, fun h => ⟨h.free, h.entry⟩, fun _ _ => rfl⟩
  · by_cases hid : id' = id
    · subst hid
      rw [sendAt_of_notMem hn]
      simp [sendAt]
    · simp [sendAt, lookup_insert_ne hid]
  · exact (mem_insert _).trans or_comm
  · rintro id' rfl
    exact hn

theorem added_insertRecv (h : s.insertRecv id = some t) : Added s t (fun _ => False) (· = id) := by
  unfold insertRecv at h
  split at h
  · cases h
  next hn =>
  obtain rfl := Option.some.inj h
  clear h
  -- The entry is one from the pool, or empty.
  have hpool : s.Pooled → ∀ r, s.freeRecv.getLast? = some r → r = .free (Recv.new s.streamReceiveWindow) :=
    fun h r hr => h.free r (List.mem_of_getLast? hr)
  refine ⟨rfl, rfl, rfl, rfl, rfl, fun _ => rfl, fun id' => (iff_of_eq (or_false _)).symm, fun id' => ?_, fun _ h => h.elim, ?_,
    fun h => ⟨fun r hr => h.free r (List.mem_of_mem_dropLast hr), fun id' r hl => ?_⟩, fun h id' => ?_⟩
  · exact (mem_insert _).trans or_comm
  · rintro id' rfl
    exact hn
  · by_cases hid : id' = id
    · subst hid
      simp only [lookup_insert, Option.some.injEq] at hl
      exact free.inj (hpool h _ hl)
    rw [lookup_insert_ne hid] at hl
    exact h.entry id' r hl
  · by_cases hid : id' = id
    · subst hid
      rw [recvAt_of_notMem hn]
      cases hl : s.freeRecv.getLast? with
      | none => simp [recvAt]
      | some r => simp [recvAt, hpool h r hl, asOpenRecv]
    · simp [recvAt, lookup_insert_ne hid]

theorem added_insert {remote : Bool} (h : s.insert remote id = some t) :
    Added s t (fun id' => id' = id ∧ (id.dir = .bi ∨ remote = false)) (fun id' => id' = id ∧ (id.dir = .bi ∨ remote = true)) := by
  unfold insert at h
  obtain ⟨u, hu, ht⟩ := Option.bind_eq_some_iff.mp h
  have h₁ : Added s u (fun id' => id' = id ∧ (id.dir = .bi ∨ remote = false)) (fun _ => False) := by
    split at hu
    · next hc =>
      refine (added_insertSend hu).congr (fun id' => (and_iff_left ?_).symm) fun _ => Iff.rfl
      simpa using hc
    next hc =>
    cases hu
    refine (Added.refl s).congr (fun id' => ⟨False.elim, fun hid => hc (by simpa using hid.2)⟩) fun _ => Iff.rfl
  have h₂ : Added u t (fun _ => False) (fun id' => id' = id ∧ (id.dir = .bi ∨ remote = true)) := by
    split at ht
    · next hc =>
      refine (added_insertRecv ht).congr (fun _ => Iff.rfl) fun id' => (and_iff_left ?_).symm
      simpa using hc
    next hc =>
    obtain rfl := Option.some.inj ht
    refine (Added.refl u).congr (fun _ => Iff.rfl) fun id' => ⟨False.elim, fun hid => hc (by simpa using hid.2)⟩
  exact (h₁.trans h₂).congr (fun _ => iff_of_eq (or_false _)) fun _ => iff_of_eq (false_or _)

def Within (s : StreamsState) (dir : Dir) (start last : Nat) (id : StreamId) : Prop :=
  id.initiator = s.side.peer ∧ id.dir = dir ∧ start ≤ id.index ∧ id.index < last

variable {dir : Dir}

theorem added_insertRemotes {start : Nat} : ∀ {count : Nat} {t : StreamsState}, s.insertRemotes dir start count = some t →
    Added s t (fun id => s.Within dir start (start + count) id ∧ dir = .bi) (s.Within dir start (start + count))
  | 0, t, h => by
    cases h
    have hnone : ∀ id, ¬s.Within dir start (start + 0) id := fun id h => by
      have := h.2.2
      omega
    exact (Added.refl s).congr (fun id => ⟨False.elim, fun h => hnone id h.1⟩) fun id => ⟨False.elim, hnone id⟩
  | count + 1, t, h => by
    obtain ⟨u, hu, ht⟩ := Option.bind_eq_some_iff.mp h
    have h₁ := added_insertRemotes hu
    have h₂ := added_insert ht
    have hspl : ∀ id : StreamId, s.Within dir start (start + (count + 1)) id ↔
        s.Within dir start (start + count) id ∨ id = ⟨u.side.peer, dir, start + count⟩ := fun id => by
      obtain ⟨initiator, d, index⟩ := id
      simp only [Within, h₁.side, StreamId.mk.injEq]
      constructor
      · rintro ⟨h1, h2, h3, h4⟩
        by_cases hlt : index < start + count
        · exact .inl ⟨h1, h2, h3, hlt⟩
        · exact .inr ⟨h1, h2, by omega⟩
      · rintro (⟨h1, h2, h3, h4⟩ | ⟨h1, h2, h3⟩)
        · exact ⟨h1, h2, h3, by omega⟩
        · exact ⟨h1, h2, by omega, by omega⟩
    refine (h₁.trans h₂).congr (fun id => ?_) fun id => ?_
    · rw [hspl id]
      simp only [Bool.true_eq_false, or_false]
      rw [or_and_right]
    · rw [hspl id]
      simp

/-! The peer's streams come in windows. When one of them is gone the next ones are entered, unused, and
    the limit that is announced to the peer moves up. -/

open Function Option

def NewIn (s t : StreamsState) (id : StreamId) : Prop :=
  id.initiator = s.side.peer ∧ s.maxRemote id.dir ≤ id.index ∧ id.index < t.maxRemote id.dir

/-- `t` is `s` after streams of the peer were entered, `drop` of each direction having gone before. -/
structure Grown (s t : StreamsState) (drop : Dir → Nat) : Prop where
  side : t.side = s.side
  events : t.events = s.events
  outgoing : t.toOutgoing = { s.toOutgoing with send := t.send, sendStreams := t.sendStreams }
  incoming : t.toIncoming = { s.toIncoming with recv := t.recv, freeRecv := t.freeRecv }
  remote : t.toRemote = { s.toRemote with
    maxRemote := t.maxRemote, allocatedRemoteCount := t.allocatedRemoteCount
    flowControlAdjusted := t.flowControlAdjusted, maxConcurrentRemoteCount := t.maxConcurrentRemoteCount }
  maxRemote : ∀ dir, s.maxRemote dir ≤ t.maxRemote dir
  allocated : ∀ dir, t.allocatedRemoteCount dir + drop dir + s.maxRemote dir = s.allocatedRemoteCount dir + t.maxRemote dir
  sendAt : ∀ id, t.sendAt id = s.sendAt id
  mem_send : ∀ id, id ∈ t.send ↔ id ∈ s.send ∨ NewIn s t id ∧ id.dir = .bi
  mem_recv : ∀ id, id ∈ t.recv ↔ id ∈ s.recv ∨ NewIn s t id
  pooled : s.Pooled → t.Pooled
  recvAt : s.Pooled → ∀ id, t.recvAt id = s.recvAt id

theorem not_newIn_self (h : ∀ dir, t.maxRemote dir = s.maxRemote dir) : ¬NewIn s t id := fun hn => by
  have := h id.dir
  have := hn.2
  omega

theorem Grown.refl (s : StreamsState) : Grown s s fun _ => 0 where
  side := rfl
  events := rfl
  outgoing := rfl
  incoming := rfl
  remote := rfl
  maxRemote _ := le_rfl
  allocated _ := rfl
  sendAt _ := rfl
  mem_send _ := (or_iff_left fun h => not_newIn_self (fun _ => rfl) h.1).symm
  mem_recv _ := (or_iff_left (not_newIn_self fun _ => rfl)).symm
  pooled := id
  recvAt _ _ := rfl

theorem grown_ensureRemoteStreams (h : s.ensureRemoteStreams dir = some t) : Grown s t fun _ => 0 := by
  obtain ⟨u, hu, ht⟩ := bind_eq_some_iff.mp h
  have ha := added_insertRemotes hu
  have hmax : t.maxRemote = update s.maxRemote dir (s.maxRemote dir +
      (s.maxConcurrentRemoteCount dir - s.allocatedRemoteCount dir)) := by
    rw [← some.inj ht, ← congrArg Remote.maxRemote ha.remote]
  have halloc : t.allocatedRemoteCount = update s.allocatedRemoteCount dir (s.allocatedRemoteCount dir +
      (s.maxConcurrentRemoteCount dir - s.allocatedRemoteCount dir)) := by
    rw [← some.inj ht, ← congrArg Remote.allocatedRemoteCount ha.remote]
  have hnew : ∀ id : StreamId, s.Within dir (s.maxRemote dir) (s.maxRemote dir +
      (s.maxConcurrentRemoteCount dir - s.allocatedRemoteCount dir)) id ↔ NewIn s t id := fun id => by
    unfold Within NewIn
    rw [hmax]
    by_cases hd : id.dir = dir
    · rw [hd, update_self]
      simp
    rw [update_of_ne hd]
    constructor
    · exact fun h => absurd h.2.1 hd
    · intro h
      have := h.2
      omega
  have hmaxRemote : ∀ d, s.maxRemote d ≤ t.maxRemote d ∧
      t.allocatedRemoteCount d + s.maxRemote d = s.allocatedRemoteCount d + t.maxRemote d := fun d => by
    rw [hmax, halloc]
    by_cases hd : d = dir
    · subst hd
      rw [update_self, update_self]
      omega
    rw [update_of_ne hd, update_of_ne hd]
    omega
  have hmem_send : ∀ id, id ∈ u.send ↔ id ∈ s.send ∨ NewIn s t id ∧ id.dir = .bi := fun id => by
    rw [← hnew id]
    refine (ha.mem_send id).trans (or_congr_right (and_congr_right fun hw => ?_))
    rw [hw.2.1]
  have hmem_recv : ∀ id, id ∈ u.recv ↔ id ∈ s.recv ∨ NewIn s t id := fun id => by
    rw [← hnew id]
    exact ha.mem_recv id
  cases ht
  refine ⟨ha.side, ha.events, ?_, ha.incoming, ?_, fun d => (hmaxRemote d).1, fun d => (hmaxRemote d).2, ha.sendAt,
    hmem_send, hmem_recv, fun hp => ⟨(ha.pooled hp).free, (ha.pooled hp).entry⟩, ha.recvAt⟩
  · rw [ha.outgoing]
  · rw [ha.remote]

theorem grown_setMaxConcurrent {count : Nat} (h : s.setMaxConcurrent dir count = some t) : Grown s t fun _ => 0 := by
  have hg := grown_ensureRemoteStreams h
  exact { hg with
    remote := by rw [hg.remote]
    pooled := fun hp => hg.pooled ⟨hp.free, hp.entry⟩
    recvAt := fun hp => hg.recvAt ⟨hp.free, hp.entry⟩ }

def dropOf (s : StreamsState) (id : StreamId) (half : StreamHalf) (dir : Dir) : Nat :=
  if id.dir = dir ∧ id.initiator ≠ s.side ∧ s.fullyFree id half then 1 else 0

theorem grown_streamFreed {half : StreamHalf} (h : s.streamFreed id half = some t) : Grown s t (s.dropOf id half) := by
  obtain ⟨u, hu, ht⟩ := bind_eq_some_iff.mp h
  have hgrown : Grown s u (s.dropOf id half) := by
    split at hu
    · next hc =>
      obtain ⟨count, hcnt, hu⟩ := bind_eq_some_iff.mp hu
      have hcnt := checkedSub_eq_some.mp hcnt
      have hg := grown_ensureRemoteStreams hu
      refine { hg with
        remote := by rw [hg.remote]
        allocated := fun dir => ?_
        pooled := fun hp => hg.pooled ⟨hp.free, hp.entry⟩
        recvAt := fun hp => hg.recvAt ⟨hp.free, hp.entry⟩ }
      have := hg.allocated dir
      dsimp only at this
      unfold dropOf
      by_cases hd : dir = id.dir
      · subst hd
        rw [update_self] at this
        rw [if_pos ⟨rfl, hc⟩]
        omega
      rw [update_of_ne hd] at this
      rw [if_neg fun h => hd h.1.symm]
      exact this
    next hc =>
    cases hu
    have hdrop : s.dropOf id half = fun _ => 0 := funext fun dir => if_neg fun h => hc h.2
    exact hdrop ▸ Grown.refl s
  cases half with
  | recv =>
    cases ht
    exact hgrown
  | send =>
    obtain ⟨sendStreams, -, rfl⟩ := exists_of_bind ht
    exact { hgrown with
      outgoing := congrArg (fun o : Outgoing => { o with sendStreams := sendStreams }) hgrown.outgoing
      pooled := fun hp => ⟨(hgrown.pooled hp).free, (hgrown.pooled hp).entry⟩ }

theorem reinit_eq (rs : Recv) (w : Nat) : rs.reinit w = Recv.new w := by
  rfl

theorem grown_streamRecvFreed {rs : Recv} (h : s.streamRecvFreed id (.open_ rs) = some t) :
    Grown s t (s.dropOf id .recv) := by
  have hg := @grown_streamFreed _ _ _ .recv h
  have hpool : s.Pooled → ({ s with freeRecv := s.freeRecv ++ [.free (rs.reinit s.streamReceiveWindow)] } : StreamsState).Pooled :=
    fun hp => ⟨fun r hr => by
      rcases List.mem_append.mp hr with hr | hr
      · exact hp.free r hr
      · rw [List.mem_singleton.mp hr, reinit_eq], hp.entry⟩
  exact { hg with
    incoming := by rw [hg.incoming]
    pooled := hg.pooled ∘ hpool
    recvAt := hg.recvAt ∘ hpool }

/-- What a new connection starts with: the peer's first streams are entered, and nothing has happened. -/
structure Fresh (s : StreamsState) : Prop where
  pooled : s.Pooled
  sendAt : ∀ id, s.sendAt id = none
  recvAt : ∀ id, s.recvAt id = none
  mem_send : ∀ id, id ∈ s.send ↔ id.initiator = s.side.peer ∧ id.index < s.maxRemote id.dir ∧ id.dir = .bi
  mem_recv : ∀ id, id ∈ s.recv ↔ id.initiator = s.side.peer ∧ id.index < s.maxRemote id.dir
  allocated : s.allocatedRemoteCount = s.maxRemote
  nextRemote : ∀ dir, s.nextRemote dir = 0
  nextReported : ∀ dir, s.nextReportedRemote dir = 0
  sent : s.maxData = 0 ∧ s.dataSent = 0 ∧ s.unackedData = 0
  received : s.localMaxData = s.receiveWindow ∧ s.sentMaxData = s.receiveWindow ∧ s.dataRecvd = 0 ∧
    s.receiveWindowShrinkDebt = 0

theorem fresh_new {side : Side} {maxRemoteUni maxRemoteBi sendWindow receiveWindow streamReceiveWindow : Nat}
    (h : new side maxRemoteUni maxRemoteBi sendWindow receiveWindow streamReceiveWindow = some s) :
    s.Fresh ∧ s.receiveWindow = receiveWindow := by
  obtain ⟨u, hu, h⟩ := bind_eq_some_iff.mp h
  have ha := (added_insertRemotes hu).trans (added_insertRemotes h)
  have hside := ha.side
  have huside := (added_insertRemotes hu).side
  have hmax := congrArg Remote.maxRemote ha.remote
  refine ⟨⟨ha.pooled ⟨fun r hr => (by cases hr), fun id r hl => (by cases hl)⟩, ha.sendAt,
    ha.recvAt ⟨fun r hr => (by cases hr), fun id r hl => (by cases hl)⟩, fun id => ?_, fun id => ?_, ?_,
    congrFun (congrArg Remote.nextRemote ha.remote), congrFun (congrArg Remote.nextReportedRemote ha.remote), ?_, ?_⟩, ?_⟩
  · rw [ha.mem_send, hmax, hside]
    simp only [Within, huside, AList.notMem_empty, false_or, Nat.zero_le, true_and, zero_add, reduceCtorEq, and_false,
      or_false, and_true]
    cases hd : id.dir <;> simp [perDir]
  · rw [ha.mem_recv, hmax, hside]
    simp only [Within, huside, AList.notMem_empty, false_or, Nat.zero_le, true_and, zero_add]
    cases hd : id.dir <;> simp [perDir]
  · rw [ha.remote]
  · rw [ha.outgoing]
    exact ⟨rfl, rfl, rfl⟩
  · rw [ha.incoming]
    exact ⟨rfl, rfl, rfl, rfl⟩
  · rw [ha.incoming]

end SaorsaTransport.StreamsState
