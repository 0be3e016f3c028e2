import SaorsaTransport.Theorems.Streams.RecvLog

/-! The receiving side of a connection along a run, with the log of every stream beside it. -/

namespace SaorsaTransport
open Library StreamsState Recv Function Option

def Event.recvId? : Event → Option StreamId
  | .recv id _ => some id
  | .frame (.stream f _) => some f.id
  | .frame (.resetStream f) => some f.id
  | _ => none

namespace Log

def onStream (log : Log) (s : StreamsState) (frame : StreamFrame) : Except TransportError Bool → Log
  | .ok _ =>
    if frame.id ∈ s.recv ∧ (s.recvOr frame.id).isReceiving = true then
      if (s.recvOr frame.id).stopped then log.take frame else log.store frame
    else log
  | .error _ => log

def onReset (log : Log) (s : StreamsState) (frame : ResetStream) : Except TransportError Bool → Log
  | .ok _ => if frame.id ∈ s.recv then log.declare frame.finalOffset else log
  | .error _ => log

def onRead (log : Log) : Except ReadableError (List (Except ReadError (Option Chunk))) → Log
  | .ok results => log.read (Chunks.handed results)
  | .error _ => log

end Log

namespace Connection

variable {c d : Connection} {e : Event} {id : StreamId}

def logAfter (c : Connection) (log : Log) : Event → Log
  | .frame (.stream frame payloadLen) =>
    (c.streams.received frame payloadLen).elim log fun r => log.onStream c.streams frame r.2
  | .frame (.resetStream frame) => (c.streams.receivedReset frame).elim log fun r => log.onReset c.streams frame r.2
  | .recv id (.read ordered maxLengths) =>
    (Chunks.session c.streams c.pending id ordered maxLengths).elim log fun r => log.onRead r.2.2
  | _ => log

/-- An event leaves the receiving side and the log of the stream as they were, or has an effect on the half of
    the stream. -/
def Affects (c : Connection) (t : StreamsState) (e : Event) (id : StreamId) (log log' : Log) : Prop :=
  RecvKept c.streams t ∧ log' = log ∨
    ∃ after received credits, id ∈ c.streams.recv ∧ (c.streams.recvOr id).Effect log e after log' received credits ∧
      Changed c.streams t id after received credits ∧
      (received = 0 ∨ c.streams.dataRecvd + received ≤ c.streams.localMaxData)

theorem changed_takeBytes {s : StreamsState} (hmem : id ∈ s.recv) (rs : Recv) (newBytes : Nat) :
    Changed s (s.takeBytes id rs newBytes) id (some rs) newBytes 0 :=
  (changed_setRecv hmem rs).counted newBytes

variable {t : StreamsState} {pending : Retransmits} {r : Except TransportError Bool}

theorem affects_received (hp : c.streams.Pooled) {frame : StreamFrame} {payloadLen : Nat}
    (h : c.streams.received frame payloadLen = some (t, r)) (log : Log) :
    Affects c t (.frame (.stream frame payloadLen)) frame.id log (log.onStream c.streams frame r) := by
  cases received_cases h with
  | invalid _ => exact .inl ⟨.refl _, rfl⟩
  | closed hn => exact .inl ⟨.refl _, if_neg fun h => hn h.1⟩
  | finished hl hr =>
    rw [getOrInsertRecv_eq hp hl] at hr
    exact .inl ⟨recvKept_found hl, if_neg fun h => by cases hr.symm.trans h.2⟩
  | rejected hl _ _ => exact .inl ⟨recvKept_found hl, rfl⟩
  | @taken entry rs newBytes closed _ hl hr hi hs =>
    rw [getOrInsertRecv_eq hp hl] at hr hi
    have hmem := mem_of_lookup_recv hl
    obtain ⟨size, hst⟩ := isReceiving_iff.mp hr
    obtain ⟨hsm, hsize, rfl, hroom, ⟨hstop, a, ha, rfl⟩ | ⟨hstop, -, rfl⟩⟩ := ingest_ok hst hi
    · have hlog : log.onStream c.streams frame (.ok false) = log.store frame := by
        rw [Log.onStream, if_pos ⟨hmem, hr⟩, if_neg (Bool.eq_false_iff.mp hstop)]
      rw [hlog]
      exact .inr ⟨_, _, _, hmem, .stored hstop hst hsm hsize ha, (changed_takeBytes hmem _ _).touched true frame.id,
        .inr hroom⟩
    · cases hstop.symm.trans hs
  | @discarded entry rs newBytes transmit t hl hr hi hs hadd =>
    rw [getOrInsertRecv_eq hp hl] at hr hi
    have hmem := mem_of_lookup_recv hl
    obtain ⟨size, hst⟩ := isReceiving_iff.mp hr
    obtain ⟨hsm, hsize, rfl, hroom, ⟨hstop, a, ha, rfl⟩ | ⟨hstop, hfin, rfl⟩⟩ := ingest_ok hst hi
    · cases hstop.symm.trans hs
    have hlog : log.onStream c.streams frame (.ok transmit) = log.take frame := by
      rw [Log.onStream, if_pos ⟨hmem, hr⟩, if_pos hstop]
    rw [hlog]
    refine .inr ⟨_, _, _, hmem, .skipped hstop hst hsm, ?_, .inr hroom⟩
    rw [← hfin, if_neg Bool.false_ne_true]
    exact (changed_takeBytes hmem _ _).credited hadd
  | @ended entry rs newBytes transmit u t hl hr hi hs hfree hadd =>
    rw [getOrInsertRecv_eq hp hl] at hr hi
    have hmem := mem_of_lookup_recv hl
    obtain ⟨size, hst⟩ := isReceiving_iff.mp hr
    obtain ⟨hsm, hsize, rfl, hroom, ⟨hstop, a, ha, rfl⟩ | ⟨hstop, hfin, rfl⟩⟩ := ingest_ok hst hi
    · cases hstop.symm.trans hs
    have hlog : log.onStream c.streams frame (.ok transmit) = log.take frame := by
      rw [Log.onStream, if_pos ⟨hmem, hr⟩, if_pos hstop]
    rw [hlog]
    refine .inr ⟨_, _, _, hmem, .skipped hstop hst hsm, ?_, .inr hroom⟩
    rw [← hfin, if_pos rfl]
    exact ((changed_takeBytes hmem _ _).eraseRecv.freed hfree).credited hadd

theorem room_of_balance {rs : Recv} {finalOffset dataRecvd maxData received credits : Nat}
    (hroom : dataRecvd + (finalOffset - rs.end_) ≤ maxData)
    (hbal : rs.assembler.bytesRead = finalOffset ∧ received = 0 ∧ credits = 0 ∨
      finalOffset = rs.end_ + received ∧ finalOffset = rs.assembler.bytesRead + credits) :
    received = 0 ∨ dataRecvd + received ≤ maxData := by
  rcases hbal with ⟨-, rfl, -⟩ | ⟨hn, -⟩
  · exact .inl rfl
  · exact .inr (by omega)

theorem changed_settled {s u : StreamsState} {after : Option Recv} {rs : Recv} {finalOffset : Nat}
    (h : Changed s u id after 0 0) (hs : Settled u t rs finalOffset) : ∃ received credits,
      (rs.assembler.bytesRead = finalOffset ∧ received = 0 ∧ credits = 0 ∨
        finalOffset = rs.end_ + received ∧ finalOffset = rs.assembler.bytesRead + credits) ∧
      Changed s t id after received credits := by
  rcases hs with ⟨hread, rfl⟩ | ⟨received, credits, transmit, h1, h2, hadd⟩
  · exact ⟨0, 0, .inl ⟨hread, rfl, rfl⟩, h⟩
  · exact ⟨received, credits, .inr ⟨h1, h2⟩, (h.counted received).credited hadd⟩

theorem affects_receivedReset (hp : c.streams.Pooled) {frame : ResetStream}
    (h : c.streams.receivedReset frame = some (t, r)) (log : Log) :
    Affects c t (.frame (.resetStream frame)) frame.id log (log.onReset c.streams frame r) := by
  cases receivedReset_cases h with
  | invalid _ => exact .inl ⟨.refl _, rfl⟩
  | closed hn => exact .inl ⟨.refl _, if_neg hn⟩
  | rejected hl _ => exact .inl ⟨recvKept_found hl, rfl⟩
  | redundant hl hr =>
    rw [getOrInsertRecv_eq hp hl] at hr
    have hmem := mem_of_lookup_recv hl
    obtain ⟨hkn, -, -, ⟨-, rfl, hrecv⟩ | ⟨hf, -⟩⟩ := reset_ok hr
    · rw [show log.onReset c.streams frame (.ok false) = log.declare frame.finalOffset from if_pos hmem]
      refine .inr ⟨_, _, _, hmem, .redundant hrecv ?_, changed_setRecv hmem _, .inl rfl⟩
      obtain ⟨n, hn⟩ : ∃ n, (c.streams.recvOr frame.id).finalOffset = some n := by
        unfold Recv.finalOffset
        unfold Recv.isReceiving at hrecv
        split at hrecv
        · cases hrecv
        · exact ⟨_, rfl⟩
      exact hn.trans (congrArg some (hkn n hn))
    · cases hf
  | @accepted entry rs t transmit _ hl hr hs hset =>
    rw [getOrInsertRecv_eq hp hl] at hr
    have hmem := mem_of_lookup_recv hl
    obtain ⟨hkn, hunk, hroom, ⟨hf, -⟩ | ⟨-, hrecv, rfl⟩⟩ := reset_ok hr
    · cases hf
    rw [show log.onReset c.streams frame (.ok transmit) = log.declare frame.finalOffset from if_pos hmem]
    obtain ⟨received, credits, hbal, hc⟩ := changed_settled ((changed_setRecv hmem _).touched true frame.id) hset
    refine .inr ⟨_, received, credits, hmem, .reset hrecv hkn hunk hbal, ?_, room_of_balance hroom hbal⟩
    rw [if_neg (Bool.eq_false_iff.mp hs)]
    exact hc
  | @disposed entry rs u t transmit _ hl hr hs hfree hset =>
    rw [getOrInsertRecv_eq hp hl] at hr
    have hmem := mem_of_lookup_recv hl
    obtain ⟨hkn, hunk, hroom, ⟨hf, -⟩ | ⟨-, hrecv, rfl⟩⟩ := reset_ok hr
    · cases hf
    rw [show log.onReset c.streams frame (.ok transmit) = log.declare frame.finalOffset from if_pos hmem]
    obtain ⟨received, credits, hbal, hc⟩ :=
      changed_settled (((changed_setRecv hmem _).eraseRecv.freed hfree).touched false frame.id) hset
    refine .inr ⟨_, received, credits, hmem, .reset hrecv hkn hunk hbal, ?_, room_of_balance hroom hbal⟩
    rw [if_pos hs]
    exact hc

theorem affects_stop (hp : c.streams.Pooled) {errorCode : Nat}
    {r : Except ClosedStream Unit} (h : c.streams.stop c.pending id errorCode = some (t, pending, r)) (log : Log) :
    Affects c t (.recv id (.stop errorCode)) id log log := by
  cases stop_cases h with
  | closed _ => exact .inl ⟨.refl _, rfl⟩
  | stopped hl _ => exact .inl ⟨recvKept_found hl, rfl⟩
  | kept hl hs hf hadd =>
    rw [getOrInsertRecv_eq hp hl] at hs
    have hmem := mem_of_lookup_recv hl
    obtain ⟨hns, hcreds, rfl⟩ := stop_ok hs
    refine .inr ⟨_, _, _, hmem, .stopped hns hcreds, ?_, .inl rfl⟩
    have hf : (c.streams.recvOr id).finalOffsetUnknown = true := hf
    rw [if_pos hf]
    exact (changed_setRecv hmem _).credited hadd
  | freed hl hs hf hfree hadd =>
    rw [getOrInsertRecv_eq hp hl] at hs
    have hmem := mem_of_lookup_recv hl
    obtain ⟨hns, hcreds, rfl⟩ := stop_ok hs
    refine .inr ⟨_, _, _, hmem, .stopped hns hcreds, ?_, .inl rfl⟩
    have hf : (c.streams.recvOr id).finalOffsetUnknown = false := hf
    rw [if_neg (Bool.eq_false_iff.mp hf)]
    exact (changed_eraseRecv.freed hfree).credited hadd

theorem affects_checkReset {r : Except ClosedStream (Option Nat)}
    (h : c.streams.checkReset c.pending id = some (t, pending, r)) (log : Log) :
    Affects c t (.recv id .checkReset) id log log := by
  rcases checkReset_cases h with rfl | ⟨rs, code, hat, hs, hcode, hfree⟩
  · exact .inl ⟨.refl _, rfl⟩
  have hor : c.streams.recvOr id = rs := by
    unfold recvOr
    rw [hat]
    rfl
  refine .inr ⟨none, 0, 0, mem_of_recvAt hat, ?_, changed_eraseRecv.freed hfree, .inl rfl⟩
  rw [hor]
  refine .observed ?_ hs
  unfold Recv.resetCode at hcode
  unfold Recv.isReceiving
  split at hcode
  · cases hcode
  · rfl

theorem affects_session (hp : c.streams.Pooled) {ordered : Bool} {maxLengths : List Nat}
    {r : Except ReadableError (List (Except ReadError (Option Chunk)))}
    (h : Chunks.session c.streams c.pending id ordered maxLengths = some (t, pending, r)) (log : Log) :
    Affects c t (.recv id (.read ordered maxLengths)) id log (log.onRead r) := by
  cases Chunks.session_cases h with
  | closed _ => exact .inl ⟨.refl _, rfl⟩
  | stopped hl _ => exact .inl ⟨recvKept_found hl, rfl⟩
  | lost hl hs ha =>
    rw [getOrInsertRecv_eq hp hl] at hs ha
    exact .inr ⟨_, _, _, mem_of_lookup_recv hl, .lost hs ha, changed_eraseRecv, .inl rfl⟩
  | readable hl hs ha hr hadd =>
    rw [getOrInsertRecv_eq hp hl] at hs ha hadd
    have hmem := mem_of_lookup_recv hl
    exact .inr ⟨_, _, _, hmem, .read hs ha hr (.inl rfl), (changed_eraseRecv.setRecv hmem _).credited hadd, .inl rfl⟩
  | ended hl hs ha hr hend hfree hadd =>
    rw [getOrInsertRecv_eq hp hl] at hs ha hend hfree
    exact .inr ⟨_, _, _, mem_of_lookup_recv hl, .read hs ha hr (.inr ⟨rfl, hend⟩),
      (changed_eraseRecv.freed hfree).credited hadd, .inl rfl⟩

theorem affects_step (hp : c.streams.Pooled) (he : e.recvId? = some id) (h : c.step e = some d) (log : Log) :
    Affects c d.streams e id log (c.logAfter log e) := by
  match e, he with
  | .frame (.stream frame payloadLen), he =>
    cases he
    obtain ⟨⟨t, r⟩, hr, rfl⟩ := exists_of_bind h
    have ha := affects_received hp hr log
    rwa [show log.onStream c.streams frame r = c.logAfter log (.frame (.stream frame payloadLen)) by rw [logAfter, hr]; rfl] at ha
  | .frame (.resetStream frame), he =>
    cases he
    obtain ⟨⟨t, r⟩, hr, rfl⟩ := exists_of_bind h
    have ha := affects_receivedReset hp hr log
    rwa [show log.onReset c.streams frame r = c.logAfter log (.frame (.resetStream frame)) by rw [logAfter, hr]; rfl] at ha
  | .recv _ (.read ordered maxLengths), he =>
    cases he
    obtain ⟨⟨t, pending, r⟩, hr, rfl⟩ := exists_of_bind h
    have ha := affects_session hp hr log
    rwa [show log.onRead r = c.logAfter log (.recv _ (.read ordered maxLengths)) by rw [logAfter, hr]; rfl] at ha
  | .recv _ (.stop errorCode), he =>
    cases he
    obtain ⟨⟨t, pending, r⟩, hr, rfl⟩ := exists_of_bind h
    exact affects_stop hp hr log
  | .recv _ .checkReset, he =>
    cases he
    obtain ⟨⟨t, pending, r⟩, hr, rfl⟩ := exists_of_bind h
    exact affects_checkReset hr log

end Connection

namespace StreamsState

variable {s t : StreamsState} {id : StreamId} {logs : StreamId → Log} {phase : Phase} {phase' : Phase}

/-- Every open half agrees with its log. Streams that nobody used have no log, and there is none before the
    handshake is done. -/
structure RecvInv (phase : Phase) (s : StreamsState) (logs : StreamId → Log) : Prop where
  known : ∀ id ∈ s.recv, s.Known id
  bi : ∀ id ∈ s.recv, id.initiator = s.side → id.dir = .bi
  good : ∀ id ∈ s.recv, (s.recvOr id).Good (logs id)
  unused : ∀ id ∈ s.recv, s.recvAt id = none → logs id = .empty
  unknown : ∀ id, ¬s.Known id → logs id = .empty
  consistent : ∀ id, (logs id).Consistent
  early : phase ≠ .ready → ∀ id, logs id = .empty

theorem recvOr_of_none (h : s.recvAt id = none) : s.recvOr id = Recv.new s.streamReceiveWindow := by
  unfold recvOr
  rw [h]
  rfl

theorem recvOr_of_some {rs : Recv} (h : s.recvAt id = some rs) : s.recvOr id = rs := by
  unfold recvOr
  rw [h]
  rfl

theorem recvInv_fresh (h : s.Fresh) : RecvInv phase s fun _ => .empty where
  known id hid := by
    obtain ⟨hi, hlt⟩ := (h.mem_recv id).mp hid
    unfold Known
    rwa [if_neg (hi ▸ Side.peer_ne s.side)]
  bi id hid hi := absurd hi (((h.mem_recv id).mp hid).1 ▸ Side.peer_ne s.side)
  good id _ := by
    rw [recvOr_of_none (h.recvAt id)]
    exact good_new _
  unused _ _ _ := rfl
  unknown _ _ := rfl
  consistent _ := Log.consistent_of_none rfl
  early _ _ := rfl

theorem RecvKept.recvOr (h : RecvKept s t) (hp : s.Pooled) (id : StreamId) : Recv.Alike (s.recvOr id) (t.recvOr id) := by
  have ht := h.recvAt hp id
  unfold StreamsState.recvOr
  rw [h.window]
  generalize s.recvAt id = a at ht
  generalize t.recvAt id = b at ht
  cases ht with
  | none => exact Std.Refl.refl _
  | created ha | some ha => exact ha

section
variable (h : RecvInv phase s logs)
include h

theorem RecvInv.kept (hp : s.Pooled) (hk : RecvKept s t)
    (hph : phase' ≠ .ready → phase ≠ .ready) : RecvInv phase' t logs where
  known id hid := (hk.fresh id hid).elim (fun hid => (h.known id hid).mono hk.side hk.next hk.maxRemote) fun hn => hn.2.1
  bi id hid hi := by
    rw [hk.side] at hi
    exact (hk.fresh id hid).elim (fun hid => h.bi id hid hi) fun hn => hn.2.2 hi
  good id hid := by
    refine Recv.Good.alike ?_ (hk.recvOr hp id)
    rcases hk.fresh id hid with hid | hn
    · exact h.good id hid
    rw [h.unknown id hn.1, recvOr_of_none (recvAt_of_notMem fun hid => hn.1 (h.known id hid))]
    exact good_new _
  unused id hid hnone := by
    rcases hk.fresh id hid with hid | hn
    · refine h.unused id hid ?_
      have ht := hk.recvAt hp id
      rw [hnone] at ht
      generalize s.recvAt id = a at ht
      cases ht
      rfl
    · exact h.unknown id hn.1
  unknown id hn := h.unknown id fun hks => hn (hks.mono hk.side hk.next hk.maxRemote)
  consistent := h.consistent
  early hp id := h.early (hph hp) id

theorem RecvInv.changed {after : Option Recv} {received credits : Nat} {log' : Log} (hp : s.Pooled)
    (hid : id ∈ s.recv) (hc : Changed s t id after received credits)
    (haft : (∀ rs', after = some rs' → rs'.Good log') ∧ log'.Consistent) (hph : phase' ≠ .ready → phase ≠ .ready)
    (hearly : phase' ≠ .ready → log' = .empty) : RecvInv phase' t (update logs id log') := by
  have hne : ∀ id', id' ≠ id → update logs id log' id' = logs id' := fun id' hne => update_of_ne hne _ _
  -- A stream of the new state is the one that changed, an old one, or one that was not known before.
  have hcases : ∀ id' ∈ t.recv, (∃ rs', id' = id ∧ after = some rs') ∨ id' ≠ id ∧ (id' ∈ s.recv ∨ NewRecv s t id') :=
    fun id' hid' => by
      by_cases heq : id' = id
      · rcases hc.fresh id' hid' with ⟨-, hsome⟩ | hn
        · obtain ⟨rs', hrs⟩ := ne_none_iff_exists'.mp (hsome heq)
          exact .inl ⟨rs', heq, hrs⟩
        · exact absurd (h.known id hid) (heq ▸ hn.1)
      · exact .inr ⟨heq, (hc.fresh id' hid').imp_left fun h => h.1⟩
  have hor : ∀ id', id' ≠ id → t.recvOr id' = s.recvOr id' := fun id' hne => by
    unfold StreamsState.recvOr
    rw [hc.other hp id' hne, hc.streamWindow]
  refine ⟨fun id' hid' => ?_, fun id' hid' hi => ?_, fun id' hid' => ?_, fun id' hid' hnone => ?_, fun id' hn => ?_,
    (Function.forall_update_iff logs fun _ log => log.Consistent).mpr ⟨haft.2, fun id' _ => h.consistent id'⟩, fun hph' =>
      (Function.forall_update_iff logs fun _ log => log = .empty).mpr ⟨hearly hph', fun id' _ => h.early (hph hph') id'⟩⟩
  · exact (hc.fresh id' hid').elim (fun h' => (h.known id' h'.1).mono hc.side hc.next hc.maxRemote) fun hn => hn.2.1
  · rw [hc.side] at hi
    exact (hc.fresh id' hid').elim (fun h' => h.bi id' h'.1 hi) fun hn => hn.2.2 hi
  · rcases hcases id' hid' with ⟨rs', rfl, hrs⟩ | ⟨heq, hid' | hn⟩
    · rw [update_self, recvOr_of_some ((hc.self hp).trans hrs)]
      exact haft.1 rs' hrs
    · rw [hne id' heq, hor id' heq]
      exact h.good id' hid'
    rw [hne id' heq, hor id' heq, h.unknown id' hn.1, recvOr_of_none (recvAt_of_notMem fun hid => hn.1 (h.known id' hid))]
    exact good_new _
  · rcases hcases id' hid' with ⟨rs', rfl, hrs⟩ | ⟨heq, hid' | hn⟩
    · cases ((hc.self hp).trans hrs).symm.trans hnone
    · rw [hne id' heq]
      exact h.unused id' hid' ((hc.other hp id' heq).symm.trans hnone)
    rw [hne id' heq]
    exact h.unknown id' hn.1
  · have hns : ¬s.Known id' := fun hks => hn (hks.mono hc.side hc.next hc.maxRemote)
    rw [hne id' fun heq => hns (heq ▸ h.known id hid)]
    exact h.unknown id' hns

theorem RecvInv.setReceiveWindow (n : Nat) : RecvInv phase (s.setReceiveWindow n).1 logs := by
  unfold StreamsState.setReceiveWindow
  split <;> exact { h with }

theorem RecvInv.rejected (hph : phase ≠ .ready) (hr : Rejected s t) : RecvInv phase' t logs := by
  have hside : t.side = s.side := by rw [hr.eq]
  have hmax : t.maxRemote = s.maxRemote := by rw [hr.eq]
  have hwin : t.streamReceiveWindow = s.streamReceiveWindow := by rw [hr.eq]
  have hrem : ∀ id ∈ t.recv, id.initiator ≠ s.side ∧ id ∈ s.recv := fun id hid => by
    have hne : id.initiator ≠ s.side := fun hi => by
      obtain ⟨hs, hn⟩ := hr.recv id hi hid
      have hk := h.known id hs
      unfold Known at hk
      rw [if_pos hi] at hk
      exact hn ⟨h.bi id hs hi, hk⟩
    exact ⟨hne, (hr.mem_recv id hne).mp hid⟩
  refine ⟨fun id hid => ?_, fun id hid hi => ?_, fun id hid => ?_, fun id _ _ => h.early hph id,
    fun id _ => h.early hph id, h.consistent, fun _ id => h.early hph id⟩
  · obtain ⟨hne, hs⟩ := hrem id hid
    have hk := h.known id hs
    unfold Known at hk ⊢
    rw [hside, hmax, if_neg hne]
    rwa [if_neg hne] at hk
  · exact absurd (hi.trans hside) (hrem id hid).1
  · obtain ⟨hne, hs⟩ := hrem id hid
    have hat : t.recvAt id = s.recvAt id := (hr.recvAt id).resolve_right fun hl => hne hl.1
    have hor : t.recvOr id = s.recvOr id := by
      unfold recvOr
      rw [hat, hwin]
    rw [hor]
    exact h.good id hs

end

end StreamsState

/-- A connection with the logs of its streams, and the credit that it has returned to the peer. -/
structure History where
  conn : Connection
  logs : StreamId → Log
  credited : Int

namespace Connection

/-- What the peer was allowed to send in all, once the debt is paid. -/
def allowance (c : Connection) : Int := c.streams.localMaxData - c.streams.receiveWindowShrinkDebt

def Orderly (c : Connection) (e : Event) : Prop := ∀ id ∈ e.recvId?, (c.streams.recvOr id).Orderly e

instance (c : Connection) : DecidablePred c.Orderly := fun e =>
  inferInstanceAs (Decidable (∀ id ∈ e.recvId?, (c.streams.recvOr id).Orderly e))

end Connection

namespace History

variable {x y : History} {e : Event} {allow : Connection → Event → Prop}

def logsAfter (x : History) (e : Event) : StreamId → Log :=
  match e.recvId? with
  | some id => update x.logs id (x.conn.logAfter (x.logs id) e)
  | none => x.logs

/-- Credit is whatever the peer is allowed in addition, unless it comes from the configuration. -/
def creditedAfter (x : History) (conn : Connection) : Event → Int
  | .setReceiveWindow _ => x.credited
  | _ => x.credited + (conn.allowance - x.conn.allowance)

def step (x : History) (e : Event) : Option History := do
  let conn ← x.conn.step e
  some ⟨conn, x.logsAfter e, x.creditedAfter conn e⟩

def IsNew (x : History) : Prop := x.conn.IsNew ∧ x.logs = (fun _ => .empty) ∧ x.credited = 0

def Reached (allow : Connection → Event → Prop) : History → Prop :=
  Reaches step (fun x e => x.conn.Enabled e ∧ allow x.conn e) IsNew

def runNew (allow : Connection → Event → Prop) [∀ c e, Decidable (allow c e)] (side : Side)
    (maxRemoteUni maxRemoteBi sendWindow receiveWindow streamReceiveWindow : Nat) (events : List Event) : Option History :=
  (Connection.new side maxRemoteUni maxRemoteBi sendWindow receiveWindow streamReceiveWindow).bind fun conn =>
    runFrom step (fun x e => x.conn.Enabled e ∧ allow x.conn e) ⟨conn, fun _ => .empty, 0⟩ events

theorem reached_runNew [∀ c e, Decidable (allow c e)] {side : Side} {uni bi sendWindow receiveWindow streamReceiveWindow : Nat}
    {events : List Event} (h : runNew allow side uni bi sendWindow receiveWindow streamReceiveWindow events = some x) :
    Reached allow x := by
  obtain ⟨conn, hconn, h⟩ := bind_eq_some_iff.mp h
  exact Reaches.runFrom events
    (.start ⟨⟨side, uni, bi, sendWindow, receiveWindow, streamReceiveWindow, hconn⟩, rfl, rfl⟩) h

theorem step_eq (h : x.step e = some y) :
    x.conn.step e = some y.conn ∧ y.logs = x.logsAfter e ∧ y.credited = x.creditedAfter y.conn e := by
  obtain ⟨conn, hconn, rfl⟩ := exists_of_bind h
  exact ⟨hconn, rfl, rfl⟩

theorem Reached.conn (h : Reached allow x) : Connection.Reached allow x.conn :=
  Reaches.map History.conn (fun _ hx => hx.1) (fun _ _ ha => ha) (fun _ _ _ hs => (step_eq hs).1) h

theorem recvInv_step (hc : Connection.Reached allow x.conn) (h : RecvInv x.conn.phase x.conn.streams x.logs)
    (he : x.conn.Enabled e) (ho : x.conn.Orderly e) (hs : x.step e = some y) :
    RecvInv y.conn.phase y.conn.streams y.logs := by
  obtain ⟨hstep, hlogs, -⟩ := step_eq hs
  obtain ⟨hnone, hrem⟩ := hc.base
  have hph := Connection.phase_of_step hnone he hstep
  rw [hlogs]
  unfold logsAfter
  cases hid : e.recvId? with
  | some id =>
    dsimp only
    rcases Connection.affects_step hrem.pooled hid hstep (x.logs id) with ⟨hk, hlog⟩ | ⟨after, n, k, hmem, heff, hch, -⟩
    · rw [hlog, update_eq_self]
      exact h.kept hrem.pooled hk hph
    have hgood := h.good id hmem
    refine h.changed hrem.pooled hmem hch (hgood.effect (ho id hid) heff) hph fun hp => ?_
    have hemp := h.early (hph hp) id
    refine (heff.quiet hgood (by rw [hemp]; rfl) fun frame hf => ?_).trans hemp
    subst hf
    exact hph hp he.1
  | none =>
    by_cases ha : Connection.AboutReceiving e
    · match e, hid, ha with
      | .setReceiveWindow n, _, _ =>
        rw [← some.inj hstep]
        exact h.setReceiveWindow n
      | .zeroRttRejected params, _, _ =>
        obtain ⟨streams, hr, hstep⟩ := bind_eq_some_iff.mp hstep
        have hrej := rejected_zeroRttRejected hr
        have hzero := he
        rw [← some.inj hstep]
        have hrdy : RecvInv .ready streams x.logs := h.rejected (hzero ▸ Phase.noConfusion) hrej
        exact hrdy.kept (hrej.pooled hrem.pooled) (recvKept_setParams params) fun hn => hn
    · exact h.kept hrem.pooled (Connection.recvKept_step ha hstep) hph

theorem Reached.recvInv (hallow : ∀ c e, allow c e → c.Orderly e) (h : Reached allow x) :
    RecvInv x.conn.phase x.conn.streams x.logs := by
  induction h with
  | start hx =>
    rw [hx.2.1]
    exact recvInv_fresh hx.1.spec.1
  | next e hx ha hs ih => exact recvInv_step (Reached.conn hx) ih ha.1 (hallow _ _ ha.2) hs

end History

/-! The credit that a connection returns to its peer: what was received, less what is still there to be
    read. -/

namespace Recv

variable {rs rs' : Recv} {log log' : Log} {after : Option Recv} {received credits : Nat} {e : Event}

def unread (rs : Recv) : Nat := if rs.live then rs.end_ - rs.assembler.bytesRead else 0

/-- A stream that was stopped is not reset, and one that was reset is not stopped, with bytes received that were
    not read; nor is a stream with such bytes read in order after it was read out of order. -/
def Fair (rs : Recv) : Event → Prop
  | .frame (.resetStream _) => rs.stopped = true → rs.assembler.bytesRead = rs.end_
  | .recv _ (.stop _) => rs.isReceiving = false → rs.assembler.bytesRead = rs.end_
  | .recv _ (.read ordered _) => ordered = true → rs.live = true → rs.assembler.state.isOrdered = false →
    rs.assembler.bytesRead = rs.end_
  | _ => True

instance (rs : Recv) : DecidablePred rs.Fair := fun e => by
  delta Fair
  induction e using Event.casesOn <;> first | infer_instance |
    rename_i x; first | induction x using Frame.casesOn <;> infer_instance | induction x using RecvCall.casesOn <;> infer_instance

theorem unread_of_live (hl : rs.live = true) : rs.unread = rs.end_ - rs.assembler.bytesRead := if_pos hl

theorem unread_of_dead (hl : rs.live = false) : rs.unread = 0 := if_neg (Bool.eq_false_iff.mp hl)

theorem unread_alike (h : Alike rs rs') : rs'.unread = rs.unread := by
  unfold unread live isReceiving
  rw [h.state, h.assembler, h.end_, h.stopped]

theorem live_eq_false (h : rs.isReceiving = false) : rs.live = false := by
  unfold live
  rw [h]
  rfl

theorem ensureOrdering_error {a : Assembler} {ordered : Bool} {error : IllegalOrderedRead}
    (h : a.ensureOrdering ordered = .error error) : ordered = true ∧ a.state.isOrdered = false := by
  unfold Assembler.ensureOrdering at h
  split at h
  · next hc => simpa using hc
  · split at h <;> cases h

/-- Whatever happens to a stream, what is received and what was unread before is returned or is still unread. -/
theorem Effect.balance (he : Effect rs log e after log' received credits) (h : Good rs log) (hord : rs.Orderly e)
    (hfair : rs.Fair e) : credits + after.elim 0 unread = received + rs.unread := by
  have hread := h.bytesRead_le
  cases he with
  | @stored frame payloadLen size a hs hst hsm hsize ha =>
    have hg := h.store hs hst hsm hsize ha hord
    have hby := hg.bytesRead.trans h.bytesRead.symm
    rw [unread_of_live (live_of_recv hs hst), elim_some, unread_of_live]
    · dsimp only
      rw [hby]
      omega
    · exact live_of_recv hs rfl
  | @skipped frame payloadLen size hs hst hsm =>
    rw [unread_of_dead (not_live_of_stopped hs)]
    split
    · rfl
    rw [elim_some, unread_of_dead]
    exact not_live_of_stopped hs
  | redundant hr hsize => rfl
  | @reset frame _ _ hr hkn hunk hbal =>
    have hend : rs.end_ ≤ frame.finalOffset := by
      cases hf : rs.finalOffset with
      | none => exact hunk hf
      | some n => exact hkn n hf ▸ h.within n hf
    split
    · next hs =>
      have := hfair hs
      rw [unread_of_dead (not_live_of_stopped hs), elim_none]
      omega
    next hs =>
    have hl : rs.live = true := by
      unfold live
      rw [hr, Bool.eq_false_iff.mpr hs]
      rfl
    rw [unread_of_live hl, elim_some, unread_of_dead rfl]
    omega
  | stopped hs hcredit =>
    have hzero : (if rs.finalOffsetUnknown then some { rs with stopped := true, assembler := rs.assembler.clear }
        else none).elim 0 unread = 0 := by
      split
      · exact unread_of_dead (not_live_of_stopped rfl)
      · rfl
    rw [hzero]
    cases hl : rs.live with
    | true =>
      rw [unread_of_live hl]
      omega
    | false =>
      have hr : rs.isReceiving = false := by
        unfold live at hl
        rwa [hs, Bool.not_false, Bool.and_true] at hl
      have := hfair hr
      rw [unread_of_dead hl]
      omega
  | @read id ordered maxLengths reads a b got after hs ha hr haft =>
    obtain ⟨hg, hgot⟩ := h.read hord ha hr
    have hle := hg.bytesRead_le
    have hby := hg.bytesRead
    dsimp only at hle hby
    rw [Log.read, Assembler.chunkSpans_append, total_append, ← h.bytesRead] at hby
    cases hl : rs.live with
    | true =>
      rw [unread_of_live hl]
      rcases haft with rfl | ⟨rfl, hend⟩
      · rw [elim_some, unread_of_live]
        · dsimp only
          omega
        · exact hl
      rcases hend with ⟨-, hend⟩ | ⟨size, code, hst⟩
      · rw [elim_none]
        dsimp only at hend
        omega
      obtain ⟨size', hst'⟩ := isReceiving_iff.mp (isReceiving_of_live hl).1
      cases hst.symm.trans hst'
    | false =>
      obtain rfl := hgot hl
      rw [unread_of_dead hl]
      rcases haft with rfl | ⟨rfl, -⟩
      · rw [elim_some, unread_of_dead]
        · rfl
        · exact hl
      · rfl
  | lost hs ha =>
    obtain ⟨hordered, hst⟩ := ensureOrdering_error ha
    cases hl : rs.live with
    | true =>
      have := hfair hordered hl hst
      rw [unread_of_live hl, elim_none]
      omega
    | false => rw [unread_of_dead hl, elim_none]
  | observed hr hs => rw [unread_of_dead (live_eq_false hr), elim_none]

theorem Effect.small (he : Effect rs log e after log' received credits) (h : Good rs log)
    (henc : ∀ frame, e = .frame (.resetStream frame) → frame.finalOffset ≤ VarInt.max) :
    received + rs.end_ ≤ 2 ^ 62 := by
  have hsm := h.small
  cases he with
  | stored _ _ hlt | skipped _ _ hlt => omega
  | @reset frame _ _ _ _ _ hbal =>
    have := henc frame rfl
    unfold VarInt.max at this
    omega
  | redundant | stopped | read | lost | observed => omega

theorem Good.unread_eq (h : Good rs log) :
    rs.unread = if rs.live then Nat.count (fun o => ∀ c ∈ log.delivered, ¬InSpan c.span o) rs.end_ else 0 := by
  have hcnt : Nat.count (fun o => ∀ c ∈ log.delivered, ¬InSpan c.span o) rs.end_ =
      Nat.count (fun o => cover (chunkSpans log.delivered) o = 0) rs.end_ :=
    count_congr fun o _ => by
      rw [cover_eq_zero_iff]
      simp [chunkSpans]
  have htot := total_add_count (fun _ => h.delivered_lt) h.once
  unfold unread
  split
  · rw [hcnt, h.bytesRead]
    omega
  · rfl

end Recv

namespace StreamsState

variable {s t : StreamsState} {id : StreamId} {after : Option Recv} {received credits : Nat}

/-- The limit of the connection, its debt subtracted, is the window and all that was received, except what can
    still be read. -/
structure Balanced (s : StreamsState) : Prop where
  sum : s.localMaxData + s.recvSum unread = s.receiveWindow + s.receiveWindowShrinkDebt + s.dataRecvd
  limit : s.dataRecvd ≤ s.localMaxData

theorem elim_unread (s : StreamsState) (id : StreamId) : (s.recvAt id).elim 0 unread = (s.recvOr id).unread := by
  cases h : s.recvAt id with
  | none =>
    rw [recvOr_of_none h]
    rfl
  | some rs =>
    rw [recvOr_of_some h]
    rfl

theorem recvSum_unread_congr (h : ∀ id, (t.recvOr id).unread = (s.recvOr id).unread) :
    t.recvSum unread = s.recvSum unread :=
  sumBy_congr fun id => by rw [valueAt_recv, valueAt_recv, elim_unread, elim_unread, h id]

section
variable (h : Balanced s)
include h

theorem Balanced.of_eq (hsum : t.recvSum unread = s.recvSum unread)
    (hmax : t.localMaxData = s.localMaxData) (hdebt : t.receiveWindowShrinkDebt = s.receiveWindowShrinkDebt)
    (hdata : t.dataRecvd = s.dataRecvd) (hwin : t.receiveWindow = s.receiveWindow) :
    Balanced t ∧ t.receiveWindow = s.receiveWindow := by
  refine ⟨⟨?_, ?_⟩, hwin⟩
  · rw [hmax, hsum, hwin, hdebt, hdata]
    exact h.sum
  · rw [hmax, hdata]
    exact h.limit

theorem Balanced.kept (hp : s.Pooled) (hk : RecvKept s t) : Balanced t ∧ t.receiveWindow = s.receiveWindow := by
  have hsum : t.recvSum unread = s.recvSum unread :=
    recvSum_unread_congr fun id => unread_alike (hk.recvOr hp id)
  exact h.of_eq hsum (by rw [hk.incoming]) (by rw [hk.incoming]) (by rw [hk.incoming]) (by rw [hk.incoming])

theorem Balanced.changed (hp : s.Pooled) (hc : Changed s t id after received credits)
    (hbal : credits + after.elim 0 unread = received + (s.recvOr id).unread) (hcreds : credits ≤ 2 ^ 62)
    (hample : s.localMaxData + 2 ^ 62 ≤ u64Max)
    (hroom : received = 0 ∨ s.dataRecvd + received ≤ s.localMaxData) : Balanced t := by
  have hlim := h.limit
  have hsum := h.sum
  have hdata := hc.dataRecvd (by omega)
  have hunr := recvSum_change unread (hc.other hp)
  rw [hc.self hp, elim_unread] at hunr
  have hmax : t.localMaxData + s.receiveWindowShrinkDebt =
      s.localMaxData + credits + t.receiveWindowShrinkDebt ∧ s.localMaxData ≤ t.localMaxData := by
    rw [hc.localMaxData, hc.debt]
    split
    · rw [saturatingAdd_of_le (by omega)]
      omega
    · omega
  refine ⟨?_, by omega⟩
  rw [hc.window]
  omega

theorem Balanced.setReceiveWindow {n : Nat} (hn : n ≤ VarInt.max)
    (hample : s.localMaxData + 2 ^ 62 ≤ u64Max ∧ s.receiveWindowShrinkDebt + s.receiveWindow ≤ u64Max) :
    Balanced (s.setReceiveWindow n).1 ∧ (s.setReceiveWindow n).1.dataRecvd = s.dataRecvd ∧
      (s.setReceiveWindow n).1.recvSum unread = s.recvSum unread := by
  have hsum := h.sum
  have hlim := h.limit
  unfold VarInt.max at hn
  have hunr : (s.setReceiveWindow n).1.recvSum unread = s.recvSum unread := by
    unfold StreamsState.setReceiveWindow
    split <;> rfl
  have hcounters : (s.setReceiveWindow n).1.localMaxData + s.receiveWindow + s.receiveWindowShrinkDebt =
      s.localMaxData + (s.setReceiveWindow n).1.receiveWindow + (s.setReceiveWindow n).1.receiveWindowShrinkDebt ∧
      (s.setReceiveWindow n).1.dataRecvd = s.dataRecvd ∧ s.localMaxData ≤ (s.setReceiveWindow n).1.localMaxData := by
    unfold StreamsState.setReceiveWindow
    split
    all_goals
      dsimp only
      rw [saturatingAdd_of_le (by omega)]
      omega
  exact ⟨⟨by omega, by omega⟩, hcounters.2.1, hunr⟩

theorem Balanced.rejected {phase : Phase} {logs : StreamId → Log} (hinv : RecvInv phase s logs)
    (hph : phase ≠ .ready) (hr : Rejected s t) : Balanced t ∧ t.receiveWindow = s.receiveWindow := by
  have hemp : ∀ id, (s.recvOr id).unread = 0 := fun id => by
    by_cases hid : id ∈ s.recv
    · have hg := hinv.good id hid
      have htop := hg.top
      rw [hinv.early hph id] at htop
      unfold unread
      rw [htop.resolve_right List.not_mem_nil]
      split <;> simp
    rw [recvOr_of_none (recvAt_of_notMem hid)]
    rfl
  have hsum : t.recvSum unread = s.recvSum unread := by
    refine recvSum_unread_congr fun id => ?_
    rcases hr.recvAt id with heq | ⟨-, hnone⟩
    · rw [← elim_unread, ← elim_unread, heq]
    rw [hemp id, recvOr_of_none hnone]
    rfl
  exact h.of_eq hsum (by rw [hr.eq]) (by rw [hr.eq]) (by rw [hr.eq]) (by rw [hr.eq])

end

end StreamsState

namespace Connection

def Fair (c : Connection) (e : Event) : Prop := ∀ id ∈ e.recvId?, (c.streams.recvOr id).Fair e

def Ample (c : Connection) : Prop :=
  c.streams.localMaxData + 2 ^ 62 ≤ u64Max ∧ c.streams.receiveWindowShrinkDebt + c.streams.receiveWindow ≤ u64Max

def Creditable (c : Connection) (e : Event) : Prop := c.Orderly e ∧ c.Fair e ∧ c.Ample

instance (c : Connection) : DecidablePred c.Fair := fun e =>
  inferInstanceAs (Decidable (∀ id ∈ e.recvId?, (c.streams.recvOr id).Fair e))

instance (c : Connection) : Decidable c.Ample := inferInstanceAs (Decidable (_ ∧ _))

instance (c : Connection) : DecidablePred c.Creditable := fun e =>
  inferInstanceAs (Decidable (c.Orderly e ∧ c.Fair e ∧ c.Ample))

theorem allowance_of_balanced {c : Connection} (h : c.streams.Balanced) :
    c.allowance = c.streams.receiveWindow + c.streams.dataRecvd - c.streams.recvSum unread := by
  have := h.sum
  unfold allowance
  omega

end Connection

namespace History
open Connection

variable {x y : History} {e : Event}

/-- The receiving side is balanced, and the credit returned so far is all of the limit but the window. -/
structure Accounted (x : History) : Prop where
  balanced : x.conn.streams.Balanced
  credited : x.credited = x.conn.allowance - x.conn.streams.receiveWindow

theorem accounted_step (hc : Connection.Reached Creditable x.conn) (hinv : RecvInv x.conn.phase x.conn.streams x.logs)
    (h : Accounted x) (he : x.conn.Enabled e) (ha : Creditable x.conn e) (hs : x.step e = some y) : Accounted y := by
  obtain ⟨hstep, -, hcred⟩ := step_eq hs
  obtain ⟨-, hrem⟩ := hc.base
  obtain ⟨hord, hfair, hample⟩ := ha
  by_cases hset : ∃ n, e = .setReceiveWindow n
  · obtain ⟨n, rfl⟩ := hset
    have hstreams : (x.conn.streams.setReceiveWindow n).1 = y.conn.streams :=
      congrArg Connection.streams (some.inj hstep)
    have hb := h.balanced.setReceiveWindow he hample
    rw [hstreams] at hb
    obtain ⟨hb, hdata, hunr⟩ := hb
    refine ⟨hb, ?_⟩
    have hx := allowance_of_balanced h.balanced
    have hy := allowance_of_balanced hb
    rw [hcred, creditedAfter, h.credited, hx, hy, hdata, hunr]
    omega
  have hcred : y.credited = x.credited + (y.conn.allowance - x.conn.allowance) := by
    rw [hcred]
    cases e with
    | setReceiveWindow n => exact absurd ⟨n, rfl⟩ hset
    | _ => rfl
  have hb : Balanced y.conn.streams ∧ y.conn.streams.receiveWindow = x.conn.streams.receiveWindow := by
    cases hid : e.recvId? with
    | some id =>
      rcases affects_step hrem.pooled hid hstep (x.logs id) with ⟨hk, -⟩ | ⟨after, n, k, hmem, heff, hch, hroom⟩
      · exact h.balanced.kept hrem.pooled hk
      have hgood := hinv.good id hmem
      have hbal := heff.balance hgood (hord id hid) (hfair id hid)
      have hsm := heff.small hgood fun frame hf => (hf ▸ he : x.conn.Enabled (.frame (.resetStream frame))).2
      have hunr : (x.conn.streams.recvOr id).unread ≤ (x.conn.streams.recvOr id).end_ := by
        unfold unread
        split <;> omega
      exact ⟨h.balanced.changed hrem.pooled hch hbal (by omega) hample.1 hroom, hch.window⟩
    | none =>
      by_cases hab : AboutReceiving e
      · match e, hid, hab with
        | .setReceiveWindow n, _, _ => exact absurd ⟨n, rfl⟩ hset
        | .zeroRttRejected params, _, _ =>
          obtain ⟨streams, hr, hstep⟩ := bind_eq_some_iff.mp hstep
          have hrej := rejected_zeroRttRejected hr
          have hzero := he
          obtain ⟨hb, hw⟩ := h.balanced.rejected hinv (hzero ▸ Phase.noConfusion) hrej
          rw [← some.inj hstep]
          obtain ⟨hb', hw'⟩ := hb.kept (hrej.pooled hrem.pooled) (recvKept_setParams params)
          exact ⟨hb', hw'.trans hw⟩
      · exact h.balanced.kept hrem.pooled (recvKept_step hab hstep)
  refine ⟨hb.1, ?_⟩
  rw [hcred, h.credited, hb.2]
  omega

theorem Reached.accounted (h : Reached Creditable x) : Accounted x := by
  induction h with
  | @start x hx =>
    obtain ⟨hf, -, -⟩ := hx.1.spec
    obtain ⟨hmax, -, hdata, hdebt⟩ := hf.received
    have hzero : x.conn.streams.recvSum unread = 0 := sumBy_eq_zero fun id => by
      rw [valueAt_recv, hf.recvAt id]
      rfl
    refine ⟨⟨?_, ?_⟩, ?_⟩
    · rw [hmax, hzero, hdata, hdebt]
    · rw [hdata]
      exact zero_le
    · unfold allowance
      rw [hx.2.2, hmax, hdebt]
      omega
  | next e hx ha hs ih =>
    exact accounted_step (Reached.conn hx) (Reached.recvInv (fun _ _ ha => ha.1) hx) ih ha.1 ha.2 hs

/-- The credit that was returned is all that was received, except the bytes on open streams that the application
    has neither read nor discarded; and the limit is the window and that credit. -/
theorem receive_credit_conserved (h : Reached Creditable x) :
    x.credited = x.conn.streams.dataRecvd - x.conn.streams.recvSum unread ∧
    (x.conn.streams.localMaxData : Int) - x.conn.streams.receiveWindowShrinkDebt =
      x.conn.streams.receiveWindow + x.credited ∧
    ∀ id rs, x.conn.streams.recvAt id = some rs →
      Assembler.Disjoint (x.logs id).delivered ∧
      rs.unread = if rs.live then Nat.count (fun o => ∀ c ∈ (x.logs id).delivered, ¬InSpan c.span o) rs.end_ else 0 := by
  have hacc := h.accounted
  have hsum := hacc.balanced.sum
  have hcredited := hacc.credited
  unfold allowance at hcredited
  refine ⟨by omega, by omega, fun id rs hat => ?_⟩
  have hg := (h.recvInv fun _ _ ha => ha.1).good id (mem_of_recvAt hat)
  rw [recvOr_of_some hat] at hg
  exact ⟨Assembler.disjoint_of_once hg.once, hg.unread_eq⟩

/-- One stream is read in part and then reset, one is stopped, one is still open; and the window shrinks in
    between. -/
theorem receive_credit_conserved_disposed :
    let u (i : Nat) : StreamId := ⟨.client, .uni, i⟩
    ∃ x, runNew Creditable .server 3 1 100 1000 500
        [.established ⟨100, 100, 100, 100, 10, 10⟩, .frame (.stream ⟨u 0, 0, false, [1, 2, 3, 4, 5]⟩ 5), .accept .uni,
          .recv (u 0) (.read true [2]), .setReceiveWindow 997, .frame (.stream ⟨u 1, 2, true, [3, 4]⟩ 2), .accept .uni,
          .recv (u 1) (.stop 7), .frame (.resetStream ⟨u 0, 9, 8⟩), .frame (.stream ⟨u 2, 0, false, [1, 2, 3]⟩ 3),
          .accept .uni, .recv (u 2) (.read true [2])] = some x ∧
      x.credited = 14 ∧ x.conn.streams.dataRecvd = 15 ∧ x.conn.streams.localMaxData = 1011 ∧
      x.credited = x.conn.streams.dataRecvd - x.conn.streams.recvSum unread ∧
      (x.conn.streams.localMaxData : Int) - x.conn.streams.receiveWindowShrinkDebt =
        x.conn.streams.receiveWindow + x.credited ∧
      ∀ id rs, x.conn.streams.recvAt id = some rs → Assembler.Disjoint (x.logs id).delivered ∧
        rs.unread = if rs.live then Nat.count (fun o => ∀ c ∈ (x.logs id).delivered, ¬InSpan c.span o) rs.end_ else 0 := by
  intro u
  refine exists_of_map (f := fun x => (x.credited, x.conn.streams.dataRecvd, x.conn.streams.localMaxData))
    (b := (14, 15, 1011)) (by decide +kernel) fun x hx hvalues => ?_
  obtain ⟨h1, h2⟩ := Prod.mk.inj hvalues
  obtain ⟨h2, h3⟩ := Prod.mk.inj h2
  exact ⟨h1, h2, h3, receive_credit_conserved (reached_runNew hx)⟩

/-- Three bytes are received and credited twice: when the stream is stopped and when it is reset, in either
    order. And a stream that an illegal read loses is never credited. -/
theorem receive_credit_miscounted :
    let P : TransportParameters := ⟨100, 100, 100, 100, 10, 10⟩
    let id : StreamId := ⟨.client, .uni, 0⟩
    let values (x : History) :=
      (x.credited, x.conn.streams.dataRecvd, x.conn.streams.recvSum unread, x.conn.streams.localMaxData)
    ((runNew (fun _ _ => True) .server 1 1 100 1000 500 [.established P, .frame (.stream ⟨id, 0, false, [1, 2, 3]⟩ 3),
      .accept .uni, .recv id (.stop 0), .frame (.resetStream ⟨id, 0, 3⟩)]).map values) = some (6, 3, 0, 1006) ∧
    ((runNew (fun _ _ => True) .server 1 1 100 1000 500 [.established P, .frame (.stream ⟨id, 0, false, [1, 2, 3]⟩ 3),
      .accept .uni, .frame (.resetStream ⟨id, 0, 3⟩), .recv id (.stop 0)]).map values) = some (6, 3, 0, 1006) ∧
    ((runNew (fun _ _ => True) .server 1 1 100 1000 500 [.established P, .frame (.stream ⟨id, 0, false, [1, 2, 3]⟩ 3),
      .accept .uni, .recv id (.read false []), .recv id (.read true [])]).map values) = some (0, 3, 0, 1000) := by
  decide +kernel

end History
end SaorsaTransport
