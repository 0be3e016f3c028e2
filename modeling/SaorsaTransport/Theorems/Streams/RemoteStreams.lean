import SaorsaTransport.Theorems.Streams.RemoteMoves

/-! Accounting for the streams of the peer, over whole runs of a connection. -/

namespace SaorsaTransport
open Library StreamsState Function Finset Nat

namespace StreamsState

variable {s t : StreamsState} {id : StreamId} {dir : Dir}

def Alive (s : StreamsState) (dir : Dir) (i : Nat) : Prop :=
  (⟨s.side.peer, dir, i⟩ : StreamId) ∈ s.recv ∨ (⟨s.side.peer, dir, i⟩ : StreamId) ∈ s.send

instance (s : StreamsState) (dir : Dir) : DecidablePred (s.Alive dir) := fun _ => inferInstanceAs (Decidable (_ ∨ _))

/-- How many of the peer's streams that it may open, or did open, are not fully closed. -/
def aliveCount (s : StreamsState) (dir : Dir) : Nat := Nat.count (s.Alive dir) (s.maxRemote dir)

theorem count_congr {p q : Nat → Prop} [DecidablePred p] [DecidablePred q] {n : Nat} (h : ∀ i < n, p i ↔ q i) :
    Nat.count p n = Nat.count q n := by
  rw [count_eq_card_filter_range, count_eq_card_filter_range]
  exact congrArg card (filter_congr fun i hi => h i (mem_range.mp hi))

theorem count_remove {p q : Nat → Prop} [DecidablePred p] [DecidablePred q] {n k : Nat} (hk : k < n) (hp : p k)
    (h : ∀ i, q i ↔ p i ∧ i ≠ k) : Nat.count q n + 1 = Nat.count p n := by
  rw [count_eq_card_filter_range, count_eq_card_filter_range]
  have hset : (range n).filter q = ((range n).filter p).erase k := by
    ext i
    simp only [mem_filter, mem_erase, mem_range, h i]
    tauto
  rw [hset]
  exact card_erase_add_one (mem_filter.mpr ⟨mem_range.mpr hk, hp⟩)

/-- What holds of the peer's streams. The counters are exact as long as all events were accountable. -/
structure RemoteInv (strict : Prop) (s : StreamsState) : Prop where
  pooled : s.Pooled
  send_lt : ∀ id ∈ s.send, id.initiator ≠ s.side → id.dir = .bi ∧ id.index < s.maxRemote id.dir
  recv_lt : ∀ id ∈ s.recv, id.initiator ≠ s.side → id.index < s.maxRemote id.dir
  stopped : ∀ (id : StreamId) rs, id.initiator ≠ s.side → s.recvAt id = some rs → rs.stopped = true →
    id.index < s.nextReportedRemote id.dir
  finished : ∀ (id : StreamId) stream, id.initiator ≠ s.side → s.sendAt id = some stream → stream.state ≠ .ready →
    id.index < s.nextReportedRemote id.dir
  reported : ∀ dir, s.nextReportedRemote dir ≤ s.nextRemote dir
  alive_le : ∀ dir, s.aliveCount dir ≤ s.allocatedRemoteCount dir
  alive : strict → ∀ dir, s.allocatedRemoteCount dir ≤ s.aliveCount dir
  opened : strict → ∀ dir, s.nextRemote dir ≤ s.maxRemote dir
  /-- Streams that were not opened yet have all their halves. -/
  window : strict → ∀ dir i, s.nextRemote dir ≤ i → i < s.maxRemote dir →
    (⟨s.side.peer, dir, i⟩ : StreamId) ∈ s.recv ∧ (dir = .bi → (⟨s.side.peer, dir, i⟩ : StreamId) ∈ s.send)

variable {strict : Prop} {phase : Phase}

theorem alive_congr (hside : t.side = s.side) (hsend : ∀ id : StreamId, id.initiator ≠ s.side → (id ∈ t.send ↔ id ∈ s.send))
    (hrecv : ∀ id : StreamId, id.initiator ≠ s.side → (id ∈ t.recv ↔ id ∈ s.recv)) (dir : Dir) (i : Nat) :
    t.Alive dir i ↔ s.Alive dir i := by
  unfold Alive
  rw [hside, hsend ⟨s.side.peer, dir, i⟩ (Side.peer_ne _), hrecv ⟨s.side.peer, dir, i⟩ (Side.peer_ne _)]

theorem RemoteInv.kept (h : RemoteInv strict s) (hk : RemoteKept s t) : RemoteInv strict t := by
  have hmax : t.maxRemote = s.maxRemote := by rw [hk.remote]
  have halloc : t.allocatedRemoteCount = s.allocatedRemoteCount := by rw [hk.remote]
  have hnext : t.nextRemote = s.nextRemote := by rw [hk.remote]
  have hrep : t.nextReportedRemote = s.nextReportedRemote := by rw [hk.remote]
  have hcnt : ∀ dir, t.aliveCount dir = s.aliveCount dir := fun dir => by
    unfold aliveCount
    rw [hmax]
    exact count_congr fun i _ => alive_congr hk.side hk.mem_send hk.mem_recv dir i
  refine ⟨hk.pooled h.pooled, fun id hid hi => ?_, fun id hid hi => ?_, fun id rs hi hr hs => ?_, fun id st hi hr hs => ?_,
    fun dir => ?_, fun dir => ?_, fun hs dir => ?_, fun hs dir => ?_, fun hs dir i h1 h2 => ?_⟩
  · rw [hk.side] at hi
    rw [hmax]
    exact h.send_lt id ((hk.mem_send id hi).mp hid) hi
  · rw [hk.side] at hi
    rw [hmax]
    exact h.recv_lt id ((hk.mem_recv id hi).mp hid) hi
  · rw [hk.side] at hi
    rw [hrep]
    rcases hk.stopped id rs hi hr hs with ⟨rs', hr', hs'⟩ | hlt
    · exact h.stopped id rs' hi hr' hs'
    · exact hlt
  · rw [hk.side] at hi
    rw [hrep]
    rcases hk.finished id st hi hr hs with ⟨st', hr', hs'⟩ | hlt
    · exact h.finished id st' hi hr' hs'
    · exact hlt
  · rw [hrep, hnext]
    exact h.reported dir
  · rw [hcnt, halloc]
    exact h.alive_le dir
  · rw [hcnt, halloc]
    exact h.alive hs dir
  · rw [hnext, hmax]
    exact h.opened hs dir
  · rw [hnext] at h1
    rw [hmax] at h2
    rw [hk.side, hk.mem_send _ (Side.peer_ne _), hk.mem_recv _ (Side.peer_ne _)]
    exact h.window hs dir i h1 h2

theorem RemoteInv.touched (h : RemoteInv strict s) {notify : Bool}
    (hid : strict → id.initiator ≠ s.side → id.index < s.maxRemote id.dir ∨ id ∈ s.send) :
    RemoteInv strict (s.onStreamFrame notify id) := by
  unfold onStreamFrame
  split
  · next hc =>
    have hnext : ∀ dir, s.nextRemote dir ≤ update s.nextRemote id.dir (id.index + 1) dir :=
      (Function.forall_update_iff _ fun dir n => s.nextRemote dir ≤ n).mpr ⟨hc.2.trans (le_succ _), fun _ _ => le_rfl⟩
    refine { h with
      pooled := ⟨h.pooled.free, h.pooled.entry⟩
      reported := fun dir => (h.reported dir).trans (hnext dir)
      opened := fun hs dir => ?_
      window := fun hs dir i h1 h2 => h.window hs dir i ((hnext dir).trans h1) h2 }
    have hlt : id.index < s.maxRemote id.dir := (hid hs hc.1).elim (fun h => h) fun hm => (h.send_lt id hm hc.1).2
    exact (Function.forall_update_iff s.nextRemote fun dir n => n ≤ s.maxRemote dir).mpr
      ⟨hlt, fun dir _ => h.opened hs dir⟩ dir
  split
  · exact { h with pooled := ⟨h.pooled.free, h.pooled.entry⟩ }
  · exact h

theorem RemoteInv.accepted (h : RemoteInv strict s) (dir : Dir) : RemoteInv strict (s.accept dir).1 := by
  unfold accept
  split
  · exact h
  next hne =>
  have hle : ∀ d, s.nextReportedRemote d ≤ update s.nextReportedRemote dir (s.nextReportedRemote dir + 1) d ∧
      update s.nextReportedRemote dir (s.nextReportedRemote dir + 1) d ≤ s.nextRemote d := by
    refine (Function.forall_update_iff _ fun d n => s.nextReportedRemote d ≤ n ∧ n ≤ s.nextRemote d).mpr
      ⟨?_, fun d _ => ⟨le_rfl, h.reported d⟩⟩
    have hr := h.reported dir
    omega
  exact { h with
    pooled := ⟨h.pooled.free, h.pooled.entry⟩
    stopped := fun id rs hi hr hs => (h.stopped id rs hi hr hs).trans_le (hle _).1
    finished := fun id st hi hr hs => (h.finished id st hi hr hs).trans_le (hle _).1
    reported := fun d => (hle d).2 }

theorem Grown.aliveCount {drop : Dir → Nat} (h : Grown s t drop) (dir : Dir) :
    t.aliveCount dir + s.maxRemote dir = s.aliveCount dir + t.maxRemote dir := by
  have hmem : ∀ i, NewIn s t ⟨s.side.peer, dir, i⟩ ↔ s.maxRemote dir ≤ i ∧ i < t.maxRemote dir := fun i =>
    and_iff_right rfl
  obtain ⟨n, hn⟩ := Nat.exists_eq_add_of_le (h.maxRemote dir)
  unfold StreamsState.aliveCount
  have hold : Nat.count (t.Alive dir) (s.maxRemote dir) = Nat.count (s.Alive dir) (s.maxRemote dir) :=
    count_congr fun i hi => by
      have hnone : ¬NewIn s t ⟨s.side.peer, dir, i⟩ := fun hc => absurd ((hmem i).mp hc).1 (not_le.mpr hi)
      unfold Alive
      rw [h.side, h.mem_recv, h.mem_send]
      exact or_congr (or_iff_left hnone) (or_iff_left fun hc => hnone hc.1)
  have hnew : Nat.count (fun k => t.Alive dir (s.maxRemote dir + k)) n = n := count_iff_forall.mpr fun k hk =>
    .inl (by rw [h.side, h.mem_recv, hmem]; exact .inr ⟨le_add_right _ _, by omega⟩)
  rw [hn, count_add, hold, hnew]
  omega

theorem RemoteInv.grown (h : RemoteInv strict s) {u : StreamsState} {drop : Dir → Nat} (hg : Grown u t drop)
    (hside : u.side = s.side) (hrem : u.toRemote = s.toRemote) (hpool : u.Pooled)
    (hsend : ∀ id, id ∈ u.send → id ∈ s.send) (hrecv : ∀ id, id ∈ u.recv → id ∈ s.recv)
    (hsendAt : ∀ id st, u.sendAt id = some st → s.sendAt id = some st)
    (hrecvAt : ∀ id rs, u.recvAt id = some rs → s.recvAt id = some rs)
    (hcnt : ∀ dir, u.aliveCount dir + drop dir = s.aliveCount dir)
    (hwin : strict → ∀ dir i, s.nextRemote dir ≤ i → i < s.maxRemote dir →
      (⟨u.side.peer, dir, i⟩ : StreamId) ∈ u.recv ∧ (dir = .bi → (⟨u.side.peer, dir, i⟩ : StreamId) ∈ u.send)) :
    RemoteInv strict t := by
  have humax := congrArg Remote.maxRemote hrem
  have huallocated := congrArg Remote.allocatedRemoteCount hrem
  have hnext : t.nextRemote = s.nextRemote := by rw [hg.remote, hrem]
  have hrep : t.nextReportedRemote = s.nextReportedRemote := by rw [hg.remote, hrem]
  have hside' := hg.side.trans hside
  have hle : ∀ dir, s.maxRemote dir ≤ t.maxRemote dir := fun dir => humax ▸ hg.maxRemote dir
  have halloc : ∀ dir, t.allocatedRemoteCount dir + s.aliveCount dir = s.allocatedRemoteCount dir + t.aliveCount dir :=
    fun dir => by
      have h1 := hg.allocated dir
      have h2 := hg.aliveCount dir
      have h3 := hcnt dir
      rw [huallocated] at h1
      omega
  refine ⟨hg.pooled hpool, fun id hid hi => ?_, fun id hid hi => ?_, fun id rs hi hr hs => ?_, fun id st hi hr hs => ?_,
    fun dir => ?_, fun dir => ?_, fun hs dir => ?_, fun hs dir => ?_, fun hs dir i h1 h2 => ?_⟩
  · rw [hside'] at hi
    rcases (hg.mem_send id).mp hid with hid | ⟨hn, hd⟩
    · obtain ⟨hd, hlt⟩ := h.send_lt id (hsend id hid) hi
      exact ⟨hd, hlt.trans_le (hle _)⟩
    · exact ⟨hd, hn.2.2⟩
  · rw [hside'] at hi
    rcases (hg.mem_recv id).mp hid with hid | hn
    · exact (h.recv_lt id (hrecv id hid) hi).trans_le (hle _)
    · exact hn.2.2
  · rw [hside'] at hi
    rw [hrep]
    exact h.stopped id rs hi (hrecvAt id rs ((hg.recvAt hpool id).symm.trans hr)) hs
  · rw [hside'] at hi
    rw [hrep]
    exact h.finished id st hi (hsendAt id st ((hg.sendAt id).symm.trans hr)) hs
  · rw [hrep, hnext]
    exact h.reported dir
  · have := h.alive_le dir
    have := halloc dir
    omega
  · have := h.alive hs dir
    have := halloc dir
    omega
  · rw [hnext]
    exact (h.opened hs dir).trans (hle dir)
  · rw [hnext] at h1
    rw [hg.side, hg.mem_recv, hg.mem_send]
    by_cases hi : i < s.maxRemote dir
    · obtain ⟨hr, hb⟩ := hwin hs dir i h1 hi
      exact ⟨.inl hr, fun hd => .inl (hb hd)⟩
    have hn : NewIn u t ⟨u.side.peer, dir, i⟩ := ⟨rfl, by rw [humax]; exact not_lt.mp hi, h2⟩
    exact ⟨.inr hn, fun hd => .inr ⟨hn, hd⟩⟩

theorem aliveCount_gone {u : StreamsState} {p : Prop} [Decidable p] (hside : u.side = s.side)
    (hmax : u.maxRemote = s.maxRemote) (hid : id ∈ s.recv ∨ id ∈ s.send)
    (halive : ∀ id', (id' ∈ u.recv ∨ id' ∈ u.send) ↔ (id' ∈ s.recv ∨ id' ∈ s.send) ∧ ¬(id' = id ∧ p))
    (hlt : id.initiator ≠ s.side → id.index < s.maxRemote id.dir) (dir : Dir) :
    u.aliveCount dir + (if id.dir = dir ∧ id.initiator ≠ s.side ∧ p then 1 else 0) = s.aliveCount dir := by
  have hiff : ∀ i, u.Alive dir i ↔ s.Alive dir i ∧ ¬((⟨s.side.peer, dir, i⟩ : StreamId) = id ∧ p) := fun i => by
    unfold Alive
    rw [hside]
    exact halive _
  unfold aliveCount
  rw [hmax]
  split
  · next hc =>
    obtain ⟨rfl, hi, hgone⟩ := hc
    have hself : (⟨s.side.peer, id.dir, id.index⟩ : StreamId) = id := by rw [← Side.eq_peer hi]
    refine count_remove (hlt hi) (by unfold Alive; rw [hself]; exact hid) fun i => ?_
    rw [hiff i]
    refine and_congr_right fun _ => not_congr ⟨fun h => ?_, fun h => ⟨by rw [h, hself], hgone⟩⟩
    rw [← h.1]
  next hc =>
  rw [add_zero]
  refine count_congr fun i _ => ?_
  rw [hiff i, and_iff_left]
  rintro ⟨rfl, hgone⟩
  exact hc ⟨rfl, Side.peer_ne _, hgone⟩

section
variable (h : RemoteInv strict s)
include h

theorem RemoteInv.ne_of_unopened
    (hid : id.initiator ≠ s.side → id.index < s.nextReportedRemote id.dir) {i : Nat} (hi : s.nextRemote dir ≤ i) :
    (⟨s.side.peer, dir, i⟩ : StreamId) ≠ id := by
  rintro rfl
  exact absurd (hi.trans_lt (hid (Side.peer_ne _))) (not_lt.mpr (h.reported dir))

theorem RemoteInv.closedRecv (hid : id ∈ s.recv)
    (hrep : id.initiator ≠ s.side → id.index < s.nextReportedRemote id.dir ∨ ∃ rs, s.recvAt id = some rs ∧ rs.stopped = true)
    (hg : Grown (s.eraseRecv id) t ((s.eraseRecv id).dropOf id .recv)) : RemoteInv strict t := by
  have hidx : id.initiator ≠ s.side → id.index < s.nextReportedRemote id.dir := fun hi =>
    (hrep hi).elim (fun h => h) fun ⟨rs, hr, hs⟩ => h.stopped id rs hi hr hs
  refine h.grown hg rfl rfl h.pooled.eraseRecv (fun _ h => h) (fun id' h => (mem_eraseRecv.mp h).2) (fun _ _ h => h)
    (fun id' rs hr => ?_) (fun dir => ?_) fun hs dir i h1 h2 => ?_
  · by_cases hne : id' = id
    · subst hne
      rw [recvAt_eraseRecv_self] at hr
      cases hr
    · rwa [recvAt_eraseRecv_ne hne] at hr
  · have hgone := aliveCount_gone (s := s) (u := s.eraseRecv id) (p := id ∉ s.send) rfl rfl (.inl hid) (fun id' => ?_)
      (h.recv_lt id hid) dir
    · rw [← hgone]
      congr 1
      unfold dropOf fullyFree
      refine if_congr (and_congr_right fun _ => and_congr_right fun hi => ?_) rfl rfl
      rw [Bool.or_eq_true, decide_eq_true_eq, decide_eq_true_eq]
      refine or_iff_right_of_imp fun huni hsend => ?_
      rw [(h.send_lt id hsend hi).1] at huni
      cases huni
    · rw [mem_eraseRecv]
      by_cases hne : id' = id
      · subst hne
        tauto
      · tauto
  · obtain ⟨hr, hb⟩ := h.window hs dir i h1 h2
    exact ⟨mem_eraseRecv.mpr ⟨h.ne_of_unopened hidx h1, hr⟩, hb⟩

theorem RemoteInv.closedSend {stream : Send} (hat : s.sendAt id = some stream)
    (hst : stream.state ≠ .ready) (hg : Grown (s.eraseSend id) t ((s.eraseSend id).dropOf id .send)) :
    RemoteInv strict t := by
  have hid := mem_of_sendAt hat
  refine h.grown hg rfl rfl ⟨h.pooled.free, h.pooled.entry⟩ (fun id' h => (mem_eraseSend.mp h).2) (fun _ h => h)
    (fun _ _ => sendAt_of_eraseSend) (fun _ _ h => h) (fun dir => ?_) fun hs dir i h1 h2 => ?_
  · have hgone := aliveCount_gone (s := s) (u := s.eraseSend id) (p := id ∉ s.recv) rfl rfl (.inr hid) (fun id' => ?_)
      (fun hi => (h.send_lt id hid hi).2) dir
    · rw [← hgone]
      congr 1
      unfold dropOf fullyFree
      refine if_congr (and_congr_right fun _ => and_congr_right fun hi => ?_) rfl rfl
      rw [Bool.or_eq_true, decide_eq_true_eq, decide_eq_true_eq]
      refine or_iff_right_of_imp fun huni => ?_
      rw [(h.send_lt id hid hi).1] at huni
      cases huni
    · rw [mem_eraseSend]
      by_cases hne : id' = id
      · subst hne
        tauto
      · tauto
  · obtain ⟨hr, hb⟩ := h.window hs dir i h1 h2
    exact ⟨hr, fun hd => mem_eraseSend.mpr ⟨h.ne_of_unopened (fun hi => h.finished id stream hi hat hst) h1, hb hd⟩⟩

theorem RemoteInv.lostRecv (hrep : id.initiator ≠ s.side → id.index < s.nextReportedRemote id.dir)
    (hsend : strict → id.initiator ≠ s.side → id ∈ s.send) : RemoteInv strict (s.eraseRecv id) := by
  have hrecv : ∀ id', id' ∈ (s.eraseRecv id).recv → id' ∈ s.recv := fun id' h => (mem_eraseRecv.mp h).2
  have hle : ∀ dir, (s.eraseRecv id).aliveCount dir ≤ s.aliveCount dir := fun dir =>
    count_mono_left fun i _ hi => hi.imp_left (hrecv _)
  have hge : strict → ∀ dir, s.aliveCount dir ≤ (s.eraseRecv id).aliveCount dir := fun hs dir => by
    refine count_mono_left fun i _ hi => ?_
    by_cases hid : (⟨s.side.peer, dir, i⟩ : StreamId) = id
    · exact .inr (hid ▸ hsend hs (hid ▸ Side.peer_ne _))
    · exact hi.imp_left fun hr => mem_eraseRecv.mpr ⟨hid, hr⟩
  refine ⟨h.pooled.eraseRecv, h.send_lt, fun id' hid => h.recv_lt id' (hrecv id' hid), fun id' rs hi hr hs => ?_, h.finished,
    h.reported, fun dir => (hle dir).trans (h.alive_le dir), fun hs dir => (h.alive hs dir).trans (hge hs dir), h.opened,
    fun hs dir i h1 h2 => ?_⟩
  · by_cases hne : id' = id
    · subst hne
      rw [recvAt_eraseRecv_self] at hr
      cases hr
    rw [recvAt_eraseRecv_ne hne] at hr
    exact h.stopped id' rs hi hr hs
  · obtain ⟨hr, hb⟩ := h.window hs dir i h1 h2
    exact ⟨mem_eraseRecv.mpr ⟨h.ne_of_unopened hrep h1, hr⟩, hb⟩

theorem RemoteInv.move (hm : RemoteMove strict phase s t) : RemoteInv strict t := by
  cases hm with
  | kept hk => exact h.kept hk
  | touched notify _ hid => exact h.touched hid
  | accepted dir => exact h.accepted dir
  | grown hg =>
    exact h.grown hg rfl rfl h.pooled (fun _ h => h) (fun _ h => h) (fun _ _ h => h) (fun _ _ h => h) (fun _ => rfl) h.window
  | closedRecv hid hrep hg => exact h.closedRecv hid hrep hg
  | closedSend hat hst hg => exact h.closedSend hat hst hg
  | lostRecv hrep hsend => exact h.lostRecv hrep hsend

theorem RemoteInv.moves (hm : RemoteMoves strict phase s t) : RemoteInv strict t := by
  induction hm with
  | refl => exact h
  | tail _ hm ih => exact ih.move hm

end

theorem remoteInv_fresh (h : s.Fresh) : RemoteInv strict s := by
  have hcnt : ∀ dir, s.aliveCount dir = s.maxRemote dir := fun dir =>
    count_iff_forall.mpr fun i hi => .inl ((h.mem_recv _).mpr ⟨rfl, hi⟩)
  refine ⟨h.pooled, fun id hid _ => ?_, fun id hid _ => ((h.mem_recv id).mp hid).2, fun id rs _ hr => ?_, fun id st _ hr => ?_,
    fun dir => ?_, fun dir => ?_, fun _ dir => ?_, fun _ dir => ?_, fun _ dir i _ hi => ?_⟩
  · obtain ⟨-, hlt, hd⟩ := (h.mem_send id).mp hid
    exact ⟨hd, hlt⟩
  · rw [h.recvAt id] at hr
    cases hr
  · rw [h.sendAt id] at hr
    cases hr
  · rw [h.nextRemote, h.nextReported]
  · rw [hcnt, h.allocated]
  · rw [hcnt, h.allocated]
  · rw [h.nextRemote]
    exact zero_le
  · exact ⟨(h.mem_recv _).mpr ⟨rfl, hi⟩, fun hd => (h.mem_send _).mpr ⟨rfl, hi, hd⟩⟩

theorem maxRemote_le_of_moves (hm : RemoteMoves strict phase s t) (dir : Dir) : s.maxRemote dir ≤ t.maxRemote dir := by
  induction hm with
  | refl => exact le_rfl
  | tail _ hm ih =>
    refine ih.trans ?_
    cases hm with
    | kept hk => rw [hk.remote]
    | touched notify => rw [onStreamFrame_remote]
    | accepted d =>
      unfold accept
      split <;> exact le_rfl
    | grown hg | closedRecv _ _ hg | closedSend _ _ hg => exact hg.maxRemote dir
    | lostRecv => exact le_rfl

theorem none_accepted_of_moves (hph : phase ≠ .ready) (hm : RemoteMoves strict phase s t)
    (h : ∀ dir, s.nextRemote dir = 0 ∧ s.nextReportedRemote dir = 0) :
    ∀ dir, t.nextRemote dir = 0 ∧ t.nextReportedRemote dir = 0 := by
  induction hm with
  | refl => exact h
  | tail _ hm ih =>
    cases hm with
    | kept hk =>
      rw [hk.remote]
      exact ih
    | touched _ hrdy => exact absurd hrdy hph
    | accepted d =>
      unfold accept
      rw [if_pos ((ih d).1.trans (ih d).2.symm)]
      exact ih
    | grown hg | closedRecv _ _ hg | closedSend _ _ hg =>
      rw [hg.remote]
      exact ih
    | lostRecv => exact ih

end StreamsState

namespace Connection

variable {c d : Connection} {allow : Connection → Event → Prop}

def IsNew (c : Connection) : Prop :=
  ∃ side maxRemoteUni maxRemoteBi sendWindow receiveWindow streamReceiveWindow,
    new side maxRemoteUni maxRemoteBi sendWindow receiveWindow streamReceiveWindow = some c

def Reached (allow : Connection → Event → Prop) : Connection → Prop :=
  Reaches step (fun c e => c.Enabled e ∧ allow c e) IsNew

def runNew (allow : Connection → Event → Prop) [∀ c e, Decidable (allow c e)] (side : Side)
    (maxRemoteUni maxRemoteBi sendWindow receiveWindow streamReceiveWindow : Nat) (events : List Event) : Option Connection :=
  (new side maxRemoteUni maxRemoteBi sendWindow receiveWindow streamReceiveWindow).bind fun c =>
    runFrom step (fun c e => c.Enabled e ∧ allow c e) c events

theorem reached_runNew [∀ c e, Decidable (allow c e)] {side : Side} {uni bi sendWindow receiveWindow streamReceiveWindow : Nat}
    {events : List Event} (h : runNew allow side uni bi sendWindow receiveWindow streamReceiveWindow events = some c) :
    Reached allow c := by
  obtain ⟨c₀, hc₀, h⟩ := Option.bind_eq_some_iff.mp h
  exact Reaches.runFrom events (.start ⟨side, uni, bi, sendWindow, receiveWindow, streamReceiveWindow, hc₀⟩) h

theorem IsNew.spec (h : c.IsNew) : c.streams.Fresh ∧ c.sentPackets = [] ∧ c.phase = .initial := by
  obtain ⟨side, uni, bi, sw, rw, srw, h⟩ := h
  obtain ⟨streams, hs, rfl⟩ := exists_of_bind h
  exact ⟨(fresh_new hs).1, rfl, rfl⟩

theorem phase_of_step {e : Event} (hnone : c.NoneAccepted) (he : c.Enabled e) (h : c.step e = some d)
    (hd : d.phase ≠ .ready) : c.phase ≠ .ready := by
  by_cases hh : Handshake e
  · cases e with
    | init0rtt params => exact fun hr => Phase.noConfusion (he.1.symm.trans hr)
    | established params => exact he
    | zeroRttRejected params => exact fun hr => Phase.noConfusion (Eq.trans (Eq.symm he) hr)
    | retry => exact he.1
    | _ => exact hh.elim
  · exact (moves_step hnone he hh h).1 ▸ hd

theorem Reached.base (h : Reached allow c) : c.NoneAccepted ∧ StreamsState.RemoteInv False c.streams := by
  refine Reaches.invariant (P := fun c => c.NoneAccepted ∧ StreamsState.RemoteInv False c.streams)
    (fun c hc => ?_) (fun c e d ih he h => ?_) h
  · obtain ⟨hf, -, -⟩ := hc.spec
    exact ⟨fun _ dir => ⟨hf.nextRemote dir, hf.nextReported dir⟩, remoteInv_fresh hf⟩
  · have hm := remoteMoves_step ih.2.pooled he.1 False.elim h
    refine ⟨fun hd => ?_, ih.2.moves hm⟩
    have hc := phase_of_step ih.1 he.1 h hd
    exact none_accepted_of_moves hc hm (ih.1 hc)

theorem Reached.remoteInv (h : Reached Accountable c) : StreamsState.RemoteInv True c.streams := by
  refine Reaches.invariant (P := fun c => StreamsState.RemoteInv True c.streams) (fun c hc => ?_)
    (fun c e d ih he h => ?_) h
  · exact remoteInv_fresh hc.spec.1
  · exact ih.moves (remoteMoves_step ih.pooled he.1 (fun _ => he.2) h)

instance (c : Connection) : DecidablePred c.Accountable := fun e => by
  unfold Accountable
  split <;> infer_instance

/-- While every event is accountable, the peer opens only streams that were allowed, the counter of its
    streams is the number of those that are not fully closed, and the limit only rises. -/
theorem remote_streams_accounted (h : Reached Accountable c) (dir : Dir) :
    c.streams.nextRemote dir ≤ c.streams.maxRemote dir ∧
    (∀ id, (c.streams.accept dir).2 = some id →
      id.initiator = c.streams.side.peer ∧ id.dir = dir ∧ id.index < c.streams.maxRemote dir) ∧
    c.streams.allocatedRemoteCount dir = Nat.count (c.streams.Alive dir) (c.streams.maxRemote dir) ∧
    (c.streams.remoteOpenStreams dir).isSome = true ∧
    ∀ e d, c.Enabled e → c.step e = some d → c.streams.maxRemote dir ≤ d.streams.maxRemote dir := by
  have inv := h.remoteInv
  have hopened := inv.opened trivial dir
  have hcount := le_antisymm (inv.alive trivial dir) (inv.alive_le dir)
  refine ⟨hopened, fun id hid => ?_, hcount, ?_, fun e d he hd => ?_⟩
  · have hreported := inv.reported dir
    unfold StreamsState.accept at hid
    split at hid
    · cases hid
    cases hid
    exact ⟨rfl, rfl, by dsimp only; omega⟩
  · -- The streams from `nextRemote` on are all alive, so there are at least that many.
    have hle : c.streams.aliveCount dir ≤ c.streams.maxRemote dir := count_le _
    obtain ⟨n, hn⟩ := Nat.exists_eq_add_of_le hopened
    have halive : Nat.count (fun k => c.streams.Alive dir (c.streams.nextRemote dir + k)) n = n :=
      count_iff_forall.mpr fun k hk => .inl (inv.window trivial dir _ (le_add_right _ _) (by omega)).1
    have hge : n ≤ c.streams.aliveCount dir := by
      unfold StreamsState.aliveCount
      rw [hn, count_add, halive]
      exact le_add_left _ _
    unfold StreamsState.remoteOpenStreams
    rw [hcount, checkedSub_of_le hle, Option.bind_eq_bind, Option.bind_some, checkedSub_of_le (by omega)]
    rfl
  · exact maxRemote_le_of_moves (remoteMoves_step inv.pooled he False.elim hd) dir

/-- The peer opens a stream, which is read, answered and closed, so that it may open the next one. -/
theorem remote_streams_accounted_closed :
    let id : StreamId := ⟨.client, .bi, 0⟩
    ∃ c, runNew Accountable .server 1 1 100 1000 500
        [.established ⟨100, 100, 100, 100, 10, 10⟩, .frame (.stream ⟨id, 0, true, [1, 2]⟩ 2), .accept .bi,
          .recv id (.read true [5, 5]), .send id .finish, .transmit 0 0 60 true, .ack 0] = some c ∧
      c.streams.maxRemote .bi = 2 ∧
      c.streams.nextRemote .bi ≤ c.streams.maxRemote .bi ∧
      (∀ id, (c.streams.accept .bi).2 = some id →
        id.initiator = c.streams.side.peer ∧ id.dir = .bi ∧ id.index < c.streams.maxRemote .bi) ∧
      c.streams.allocatedRemoteCount .bi = Nat.count (c.streams.Alive .bi) (c.streams.maxRemote .bi) ∧
      (c.streams.remoteOpenStreams .bi).isSome = true ∧
      ∀ e d, c.Enabled e → c.step e = some d → c.streams.maxRemote .bi ≤ d.streams.maxRemote .bi := by
  intro id
  refine exists_of_map (f := fun c => c.streams.maxRemote .bi) (b := 2) (by decide +kernel) fun c hc hmax => ?_
  exact ⟨hmax, remote_streams_accounted (reached_runNew hc) .bi⟩

/-- `MAX_STREAM_DATA` for a stream that the peer was never allowed to open counts as opening it. And an
    ordered read of a stream that was read out of order loses the stream, which stays counted. -/
theorem remote_streams_miscounted :
    let P : TransportParameters := ⟨100, 100, 100, 100, 10, 10⟩
    let id : StreamId := ⟨.client, .uni, 0⟩
    ((runNew (fun _ _ => True) .server 1 1 100 1000 500 [.established P, .frame (.maxStreamData ⟨.client, .bi, 5⟩ 7)]).map
      fun c => (c.streams.nextRemote .bi, c.streams.maxRemote .bi)) = some (6, 1) ∧
    ((runNew (fun _ _ => True) .server 1 1 100 1000 500 [.established P, .frame (.stream ⟨id, 0, false, [1, 2]⟩ 2),
      .accept .uni, .recv id (.read false [5]), .recv id (.read true [5])]).map
      fun c => (c.streams.allocatedRemoteCount .uni, Nat.count (c.streams.Alive .uni) (c.streams.maxRemote .uni))) =
        some (1, 0) := by
  decide +kernel

end Connection

/-! What is left of a stream when it cannot be opened for reading. -/

namespace Chunks

/-- The stream that a read finds under `id`, in whatever state. -/
def found (s : StreamsState) (id : StreamId) : Option Recv := (s.recv.lookup id).map (getOrInsertRecv s.streamReceiveWindow)

/-- An attempt that fails leaves every stream, and all else, as a read finds it. -/
def FailsIntact (s : StreamsState) (pending : Retransmits) (id : StreamId) (ordered : Bool) : Prop :=
  ∀ e t, new id ordered s pending = .error (e, t) → t = { s with recv := t.recv } ∧ ∀ id', found t id' = found s id'

theorem found_setRecv {s : StreamsState} {id : StreamId} {rs : Recv} (h : found s id = some rs) (id' : StreamId) :
    found (s.setRecv id rs) id' = found s id' := by
  by_cases hid : id' = id
  · subst hid
    rw [h]
    simp [found, setRecv, getOrInsertRecv]
  · simp [found, setRecv, AList.lookup_insert_ne hid]

/-- Only an ordered read of a stream that was read unordered takes it out of the table. -/
theorem fails_intact_iff (s : StreamsState) (pending : Retransmits) (id : StreamId) (ordered : Bool) :
    FailsIntact s pending id ordered ↔ illegalRead s id ordered = false := by
  unfold FailsIntact new
  cases hl : s.recv.lookup id with
  | none => simp +contextual [illegalRead, hl]
  | some entry =>
    cases hstop : (getOrInsertRecv s.streamReceiveWindow entry).stopped with
    | true =>
      have hfound := found_setRecv (congrArg (Option.map (getOrInsertRecv s.streamReceiveWindow)) hl)
      refine iff_of_true (fun e t h => ?_) (by simp [illegalRead, hl, hstop])
      dsimp only at h
      rw [if_pos hstop] at h
      cases h
      exact ⟨rfl, hfound⟩
    | false =>
      cases hens : (getOrInsertRecv s.streamReceiveWindow entry).assembler.ensureOrdering ordered with
      | ok a =>
        refine iff_of_true (by simp [hstop, hens]) ?_
        unfold Assembler.ensureOrdering at hens
        grind [illegalRead]
      | error e =>
        refine iff_of_false (fun h => ?_) (by simp [illegalRead_of_error hl hstop hens])
        have hgone := (h .illegalOrderedRead (s.eraseRecv id) (by simp [hstop, hens, eraseRecv])).2 id
        simp [found, hl, eraseRecv] at hgone

theorem failed_read_loses_stream :
    let id : StreamId := ⟨.client, .uni, 0⟩
    (Connection.runNew (fun _ _ => True) .server 1 1 100 1000 500 [.established ⟨100, 100, 100, 100, 10, 10⟩,
      .frame (.stream ⟨id, 0, false, [1, 2]⟩ 2), .accept .uni, .recv id (.read false [1])]).map (fun c =>
        (decide (id ∈ c.streams.recv), (c.step (.recv id (.read true [5]))).map fun d => decide (id ∈ d.streams.recv)))
      = some (true, some false) := by
  decide +kernel

end Chunks
end SaorsaTransport
