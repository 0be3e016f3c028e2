import SaorsaTransport.Masque.Relay

/-! The tables of a relay's session over whole runs: the two indexes by target say which contexts are live, as long as the
    client keeps to identifiers that are its own and new, closes a context once, and there is room. -/

namespace SaorsaTransport.Masque
open Library BTreeMap ContextManager

def Indexes (contexts : Nat → Option ContextInfo) (index : SocketAddr → Option Nat) : Prop :=
  ∀ target id, index target = some id ↔ ∃ info, contexts id = some info ∧ info.state ≠ .closed ∧ info.target = some target

section Indexes
variable {contexts contexts' : Nat → Option ContextInfo} {index index' : SocketAddr → Option Nat} {id : Nat}
  {info info' : ContextInfo}

section
variable (h : Indexes contexts index)
include h

theorem Indexes.add (hnew : contexts id = none) (hlive : info.state ≠ .closed)
    (hfree : ∀ target, info.target = some target → index target = none)
    (hctx : ∀ i, contexts' i = if i = id then some info else contexts i)
    (hidx : ∀ target, index' target = if info.target = some target then some id else index target) :
    Indexes contexts' index' := by
  intro target i
  rw [hidx, hctx]
  have hold := h target i
  grind

theorem Indexes.change (hold : contexts id = some info) (hlive : info.state ≠ .closed)
    (hlive' : info'.state ≠ .closed) (htgt : info'.target = info.target)
    (hctx : ∀ i, contexts' i = if i = id then some info' else contexts i) : Indexes contexts' index := by
  intro target i
  rw [h target i, hctx]
  grind

theorem Indexes.close (hold : contexts id = some info) (hcl : info'.state = .closed)
    (hctx : ∀ i, contexts' i = if i = id then some info' else contexts i)
    (hidx : ∀ target, index' target = if info.target = some target ∧ index target = some id then none else index target) :
    Indexes contexts' index' := by
  intro target i
  rw [hidx, hctx]
  have hold := h target i
  grind

end

end Indexes

namespace ContextManager

def Has (self : ContextManager) (id : Nat) (info : ContextInfo) : Prop :=
  (id, info) ∈ self.localContexts ∨ (id, info) ∈ self.remoteContexts

def Live (self : ContextManager) (target : SocketAddr) (id : Nat) : Prop :=
  ∃ info, self.Has id info ∧ info.state ≠ .closed ∧ info.target = some target

/-- The identifiers of the two tables differ, and the next one is new. -/
structure Parted (m : ContextManager) : Prop where
  even : ∀ id info, m.remoteContexts.get id = some info → id % 2 = 0
  odd : ∀ id info, m.localContexts.get id = some info → id % 2 = 1 ∧ id < m.nextLocalId
  next : m.nextLocalId % 2 = 1

variable {m : ContextManager} {id : Nat} {info : ContextInfo} {index : SocketAddr → Option Nat}

theorem Parted.has_iff (h : Parted m) : m.Has id info ↔ m.getContext id = some info := by
  have heven := h.even id
  have hodd := h.odd id
  unfold Has getContext
  rw [← get_eq_some, ← get_eq_some]
  cases hl : m.localContexts.get id <;> cases hr : m.remoteContexts.get id <;> simp_all

theorem Parted.getContext_next (h : Parted m) : m.getContext m.nextLocalId = none := by
  cases hg : m.getContext m.nextLocalId with
  | none => rfl
  | some info =>
    rcases Option.or_eq_some_iff.mp hg with hl | ⟨-, hr⟩
    · exact absurd (h.odd _ info hl).2 (lt_irrefl _)
    have := h.even _ info hr
    have := h.next
    omega

theorem getContext_insertLocal (m : ContextManager) (id : Nat) (info : ContextInfo) (i : Nat) :
    ((m.localContexts.insert id info).get i).or (m.remoteContexts.get i) = if i = id then some info else m.getContext i := by
  unfold getContext
  rw [get_insert]
  split <;> simp

theorem getContext_insertRemote (h : m.localContexts.get id = none) (info : ContextInfo) (i : Nat) :
    (m.localContexts.get i).or ((m.remoteContexts.insert id info).get i) =
      if i = id then some info else m.getContext i := by
  unfold getContext
  rw [get_insert]
  split <;> simp_all

theorem Parted.insertLocal {next : Nat} (h : Parted m) (hid : id % 2 = 1 ∧ id < next) (hnext : next % 2 = 1)
    (hle : m.nextLocalId ≤ next) {uncompressed : Option Nat} :
    Parted ⟨m.localContexts.insert id info, m.remoteContexts, index, uncompressed, next⟩ where
  even := h.even
  odd i info' hi := by
    rw [get_insert] at hi
    split at hi
    · next heq => exact heq ▸ hid
    · exact (h.odd i info' hi).imp_right (·.trans_le hle)
  next := hnext

theorem Parted.insertRemote (h : Parted m) (hid : id % 2 = 0) {uncompressed : Option Nat} :
    Parted ⟨m.localContexts, m.remoteContexts.insert id info, index, uncompressed, m.nextLocalId⟩ where
  even i info' hi := by
    rw [get_insert] at hi
    split at hi
    · next heq => rw [heq, hid]
    · exact h.even i info' hi
  odd := h.odd
  next := h.next

end ContextManager

def firstTarget : SocketAddr := ⟨true, 3405803777, 9000⟩

def secondTarget : SocketAddr := ⟨true, 3405803778, 9000⟩

namespace RelaySession
open ContextManager

def held (s : RelaySession) : Nat := s.contextManager.localContexts.len + s.contextManager.remoteContexts.len

/-- Both indexes say which contexts are live, no target has two, and there are not too many. -/
structure Consistent (s : RelaySession) : Prop where
  index : ∀ target id, s.contextManager.targetIndex target = some id ↔ s.contextManager.Live target id
  mapping : ∀ target id, s.targetToContext target = some id ↔ s.contextManager.Live target id
  unique : ∀ target id id' info info', s.contextManager.Has id info → s.contextManager.Has id' info' →
    info.state ≠ .closed → info'.state ≠ .closed → info.target = some target → info'.target = some target →
    (id, info) = (id', info')
  bound : s.held ≤ s.maxContexts

/-- The client assigns even identifiers that are not in use, unless the relay refuses: too many contexts are active, or the
    target has one. It closes what is not closed. There is room for contexts that are new. -/
def Orderly (s : RelaySession) : SessionEvent → Prop
  | .capsule (.compressionAssign id target) =>
    s.maxContexts ≤ s.contextManager.activeCount ∨
      (target.elim s.contextManager.uncompressedContext s.targetToContext).isSome = true ∨
      id % 2 = 0 ∧ s.contextManager.getContext id = none ∧ s.held < s.maxContexts
  | .capsule (.compressionClose id) => ∀ info ∈ s.contextManager.getContext id, info.state ≠ .closed
  | .capsule _ => True
  | .target target => (s.targetToContext target).isSome = true ∨ s.held < s.maxContexts

instance (s : RelaySession) : ∀ e, Decidable (Orderly s e) := fun e => by
  unfold Orderly
  split <;> infer_instance

structure Kept (s : RelaySession) : Prop where
  parted : Parted s.contextManager
  index : Indexes s.contextManager.getContext s.contextManager.targetIndex
  mapping : Indexes s.contextManager.getContext s.targetToContext
  bound : s.held ≤ s.maxContexts

variable {s t : RelaySession}

theorem Kept.live_iff (h : Kept s) {target : SocketAddr} {id : Nat} : s.contextManager.Live target id ↔
    ∃ info, s.contextManager.getContext id = some info ∧ info.state ≠ .closed ∧ info.target = some target := by
  unfold Live
  simp only [h.parted.has_iff]

theorem Kept.consistent (h : Kept s) : Consistent s where
  index target id := by rw [h.index target id, h.live_iff]
  mapping target id := by rw [h.mapping target id, h.live_iff]
  unique target id id' info info' hinfo hinfo' hlive hlive' htgt htgt' := by
    rw [h.parted.has_iff] at hinfo hinfo'
    have hid := (h.index target id).mpr ⟨info, hinfo, hlive, htgt⟩
    have hid' := (h.index target id').mpr ⟨info', hinfo', hlive', htgt'⟩
    obtain rfl := Option.some.inj (hid.symm.trans hid')
    rw [Option.some.inj (hinfo.symm.trans hinfo')]
  bound := h.bound

theorem kept_new (maxContexts : Nat) : Kept (.new maxContexts) := by
  refine ⟨⟨?_, ?_, rfl⟩, fun target id => ?_, fun target id => ?_, zero_le⟩
  all_goals simp [RelaySession.new, Contexts.new, ContextManager.new, getContext, BTreeMap.get, BTreeMap.empty]

section
variable (h : Kept s)
include h

variable {id : Nat}

theorem Kept.assign {target : Option SocketAddr} {c : Contexts} (heven : id % 2 = 0)
    (hnew : s.contextManager.getContext id = none) (hroom : s.held < s.maxContexts)
    (hfree : ∀ x, target = some x → s.targetToContext x = none) (hc : s.register id target = .ok c) :
    Kept { s with toContexts := c } := by
  obtain ⟨hpart, hidx, hmapping, hbd⟩ := h
  have hlive : (⟨target, .active⟩ : ContextInfo).state ≠ .closed := nofun
  have hget := getContext_insertRemote (Option.or_eq_none_iff.mp hnew).1 ⟨target, .active⟩
  have hlen : s.contextManager.localContexts.len + (s.contextManager.remoteContexts.insert id ⟨target, .active⟩).len ≤
      s.maxContexts := (Nat.add_le_add_left len_insert_le _).trans hroom
  unfold Contexts.register registerRemote at hc
  cases target with
  | none =>
    dsimp only at hc
    split at hc
    · cases hc
    cases hc
    exact ⟨hpart.insertRemote heven, hidx.add hnew hlive nofun hget fun _ => by simp,
      hmapping.add hnew hlive nofun hget fun _ => by simp, hlen⟩
  | some x =>
    dsimp only at hc
    split at hc
    · cases hc
    next hx =>
    cases hc
    refine ⟨hpart.insertRemote heven, hidx.add hnew hlive ?_ hget fun y => ?_,
      hmapping.add hnew hlive hfree hget fun y => ?_, hlen⟩
    · rintro y ⟨⟩
      simpa using hx
    all_goals simp only [ContextManager.index, Contexts.setContext, Option.elim, Option.some.injEq, eq_comm]

theorem Kept.ack (id : Nat) : Kept { s with toContexts := s.handleAck id } := by
  have hkept := h
  obtain ⟨hpart, hidx, hmapping, hbd⟩ := h
  unfold Contexts.handleAck handleAck
  cases hl : s.contextManager.localContexts.get id with
  | none => exact hkept
  | some info =>
    dsimp only
    by_cases hst : info.state = .pending
    · rw [if_neg (not_not.mpr hst)]
      have hold : s.contextManager.getContext id = some info := by simp [getContext, hl]
      have hlive : info.state ≠ .closed := by simp [hst]
      have hlive' : ({ info with state := .active } : ContextInfo).state ≠ .closed := nofun
      have hget := getContext_insertLocal s.contextManager id { info with state := .active }
      refine ⟨hpart.insertLocal (hpart.odd id info hl) hpart.next le_rfl, hidx.change hold hlive hlive' rfl hget,
        hmapping.change hold hlive hlive' rfl hget, ?_⟩
      unfold held at hbd ⊢
      rwa [len_insert_of_get hl]
    rw [if_pos hst]
    exact hkept

theorem Kept.setContext_close {info : ContextInfo}
    (hold : s.contextManager.getContext id = some info) (hlive : info.state ≠ .closed) (target : SocketAddr) :
    (s.contextManager.getTarget id).elim s.targetToContext (fun t => s.setContext t none) target =
      if info.target = some target ∧ s.targetToContext target = some id then none else s.targetToContext target := by
  have hmap := h.mapping target id
  unfold getTarget
  rw [hold]
  cases ht : info.target with
  | none => simp [ht]
  | some x =>
    simp only [Option.bind_some, ht, Option.elim, Contexts.setContext, Option.some.injEq]
    grind

theorem Kept.close (hord : ∀ info ∈ s.contextManager.getContext id, info.state ≠ .closed) :
    Kept { s with toContexts := s.handleClose id } := by
  have hmap := fun info hold => @Kept.setContext_close s h id info hold (hord info hold)
  obtain ⟨hpart, hidx, hmapping, hbd⟩ := h
  unfold Contexts.handleClose ContextManager.close
  cases hl : s.contextManager.localContexts.get id with
  | some info =>
    have hold : s.contextManager.getContext id = some info := by simp [getContext, hl]
    have hget := getContext_insertLocal s.contextManager id { info with state := .closed }
    refine ⟨hpart.insertLocal (hpart.odd id info hl) hpart.next le_rfl, hidx.close hold rfl hget fun _ => rfl,
      hmapping.close hold rfl hget (hmap info hold), ?_⟩
    simpa only [held, unindex, len_insert_of_get hl] using hbd
  | none =>
    cases hr : s.contextManager.remoteContexts.get id with
    | none =>
      have hnone : s.contextManager.getTarget id = none := by simp [getTarget, getContext, hl, hr]
      simp only [hnone, Option.elim]
      exact ⟨hpart, hidx, hmapping, hbd⟩
    | some info =>
      have hold : s.contextManager.getContext id = some info := by simp [getContext, hl, hr]
      have hget := getContext_insertRemote hl { info with state := .closed }
      refine ⟨hpart.insertRemote (hpart.even id info hr), hidx.close hold rfl hget fun _ => rfl,
        hmapping.close hold rfl hget (hmap info hold), ?_⟩
      simpa only [held, unindex, len_insert_of_get hr] using hbd

theorem Kept.target {target : SocketAddr} (hord : Orderly s (.target target)) : Kept (s.contextForTarget target).1 := by
  have hkept := h
  unfold contextForTarget
  cases hmap : s.targetToContext target with
  | some id => exact h
  | none =>
    obtain ⟨hpart, hidx, hmapping, hbd⟩ := h
    have hroom : s.held < s.maxContexts := hord.resolve_left (by simp [hmap])
    have hnext : (s.contextManager.nextLocalId + 2) % 2 = 1 := by rw [Nat.add_mod_right, hpart.next]
    unfold Contexts.allocate allocateLocal
    by_cases hmax : VarInt.max < s.contextManager.nextLocalId
    · rw [if_pos hmax]
      exact hkept
    rw [if_neg hmax]
    dsimp only [registerCompressed]
    by_cases hi : (s.contextManager.targetIndex target).isSome = true
    · rw [if_pos hi]
      exact ⟨⟨hpart.even, fun i info hi => (hpart.odd i info hi).imp_right (Nat.lt_add_right 2), hnext⟩, hidx,
        hmapping, hbd⟩
    rw [if_neg hi]
    have hlive : (⟨some target, .pending⟩ : ContextInfo).state ≠ .closed := nofun
    have hget := getContext_insertLocal s.contextManager s.contextManager.nextLocalId ⟨some target, .pending⟩
    refine ⟨hpart.insertLocal ⟨hpart.next, by omega⟩ hnext (by omega),
      hidx.add hpart.getContext_next hlive ?_ hget fun y => ?_,
      hmapping.add hpart.getContext_next hlive ?_ hget fun y => ?_, ?_⟩
    · rintro y ⟨⟩
      simpa using hi
    · simp [ContextManager.index, eq_comm]
    · rintro y ⟨⟩
      exact hmap
    · simp [Contexts.setContext, eq_comm]
    · exact (Nat.add_le_add_right len_insert_le s.contextManager.remoteContexts.len).trans
        ((Nat.add_right_comm ..).trans_le hroom)

theorem Kept.step {e : SessionEvent} (hord : Orderly s e) (ht : s.step e = some t) : Kept t := by
  cases e with
  | target target =>
    cases ht
    exact h.target hord
  | capsule capsule =>
    cases ht
    cases capsule with
    | compressionAck id => exact h.ack id
    | compressionClose id => exact h.close hord
    | unknown => exact h
    | compressionAssign id target =>
      show Kept (s.handleCompressionAssign id target).1
      unfold handleCompressionAssign
      split
      · exact h
      next hfree =>
      obtain ⟨hroom, hfree⟩ := not_or.mp hfree
      split
      · next c hc =>
        have hnew : (target.elim s.contextManager.uncompressedContext s.targetToContext).isSome ≠ true := fun hsome => by
          cases target with
          | none =>
            have hsome : s.contextManager.uncompressedContext.isSome = true := hsome
            rw [Contexts.register, registerRemote, if_pos hsome] at hc
            cases hc
          | some x => exact hfree hsome
        obtain ⟨heven, hunused, hheld⟩ := (hord.resolve_left hroom).resolve_left hnew
        refine h.assign heven hunused hheld (fun x hx => ?_) hc
        rw [hx] at hfree
        simpa using hfree
      · exact h

end

/-- In every run of such capsules and targets, the tables stay consistent. -/
theorem context_table_consistent {maxContexts : Nat} (h : Reaches step Orderly (· = .new maxContexts) s) : Consistent s :=
  Kept.consistent (h.invariant (fun _ hs => hs ▸ kept_new maxContexts) fun _ _ _ hs he ht => hs.step he ht)

def reassignment : List SessionEvent :=
  [.capsule (.compressionAssign 2 (some firstTarget)), .target secondTarget, .capsule (.compressionAssign 2 (some firstTarget)),
    .capsule (.compressionClose 2), .capsule (.compressionAssign 4 (some firstTarget)), .target firstTarget]

/-- A context is assigned, which is not done twice, and closed, and the target is assigned anew. -/
theorem context_table_consistent_reassigned : ∃ s, runFrom step Orderly (.new 4) reassignment = some s ∧
    s.targetToContext firstTarget = some 4 ∧ Consistent s :=
  ⟨_, rfl, by decide +kernel, @context_table_consistent _ 4 (.runFrom reassignment (.start rfl) rfl)⟩

/-- An identifier that is assigned again keeps its first target in the index. -/
theorem context_id_reassigned : ∃ s, runFrom step (fun _ _ => True) (.new 4)
      [.capsule (.compressionAssign 2 (some firstTarget)), .capsule (.compressionAssign 2 (some secondTarget))] = some s ∧
      s.contextManager.targetIndex firstTarget = some 2 ∧ s.contextManager.getContext 2 = some ⟨some secondTarget, .active⟩ ∧
      ¬ Consistent s := by
  refine ⟨_, rfl, by decide +kernel, by decide +kernel, fun h => ?_⟩
  obtain ⟨info, hinfo, -, htarget⟩ := (h.index firstTarget 2).mp (by decide +kernel)
  rcases hinfo with hinfo | hinfo
  · exact absurd hinfo (not_mem_empty _)
  rw [Option.some.inj ((get_eq_some.mpr hinfo).symm.trans (by decide +kernel :
    _ = some (⟨some secondTarget, .active⟩ : ContextInfo)))] at htarget
  exact absurd htarget (by decide)

end RelaySession
/-! Which traffic the limits of a relay session cover. -/

namespace Forwarding

variable {config : RelaySessionConfig} {s s' : Forwarding} {start : Nat}

/-- Every datagram that was forwarded is one that the limiter admitted, and the sweep closes a session only when its last
    datagram is further back than the timeout. -/
structure Covered (config : RelaySessionConfig) (s : Forwarding) : Prop where
  limited : s.forwarded.Sublist s.traffic.admitted
  swept : ∀ time, s.swept = some time → ∀ d ∈ s.forwarded, config.sessionTimeout < time - d.1

/-- Datagrams go the way that asks the limiter, and none while a sweep is about to close the session; one that timed out
    has had no datagram since its last capsule. -/
def Metered (config : RelaySessionConfig) (s : Forwarding) : Event → Prop
  | .forward _ carrier => carrier = .forwardDatagram ∧ s.expired = false
  | .find => s.traffic.isTimedOut config s.now = true → ∀ d ∈ s.forwarded, d.1 ≤ s.traffic.lastActivity
  | _ => True

instance : ∀ e, Decidable (Metered config s e) := fun e => by unfold Metered; split <;> infer_instance

/-- What the sweep has found stays so until it closes the session. -/
structure Idle (config : RelaySessionConfig) (s : Forwarding) : Prop extends Covered config s where
  found : s.expired = true → ∀ d ∈ s.forwarded, config.sessionTimeout < s.now - d.1

theorem admitted_checkRateLimit (traffic : Traffic) (now bytes : Nat) :
    (traffic.checkRateLimit config now bytes).1.admitted =
      if (traffic.checkRateLimit config now bytes).2 then (now, bytes) :: traffic.admitted else traffic.admitted := by
  unfold Traffic.checkRateLimit
  split
  · rfl
  split
  · dsimp only
    split <;> rfl
  split <;> rfl

theorem Idle.forward (h : Idle config s) (hopen : s.swept = none) (hexpired : s.expired = false) (bytes : Nat) :
    Idle config (s.forward config bytes .forwardDatagram) := by
  have hadmitted := @admitted_checkRateLimit config s.traffic s.now bytes
  simp only [Forwarding.forward]
  split
  · next hok =>
    rw [if_pos hok] at hadmitted
    refine ⟨⟨?_, fun time ht => nomatch hopen.symm.trans ht⟩, fun hfound => nomatch hexpired.symm.trans hfound⟩
    exact hadmitted ▸ h.limited.cons_cons _
  · next hok =>
    rw [if_neg hok] at hadmitted
    exact ⟨⟨hadmitted ▸ h.limited, h.swept⟩, h.found⟩

theorem Idle.findExpired (h : Idle config s) (hmet : Metered config s .find) : Idle config (s.findExpired config) := by
  refine { h with found := fun hfound d hd => ?_ }
  rcases Bool.or_eq_true_iff.mp hfound with hfound | hout
  · exact h.found hfound d hd
  have hlast := hmet hout d hd
  have hout : config.sessionTimeout < s.now - s.traffic.lastActivity := by simpa [Traffic.isTimedOut] using hout
  show config.sessionTimeout < s.now - d.1
  omega

theorem Idle.closeExpired (h : Idle config s) : Idle config s.closeExpired := by
  unfold Forwarding.closeExpired
  split
  · next hexpired =>
    refine { h with swept := fun time ht => ?_ }
    cases ht
    exact h.found hexpired
  · exact h

theorem Idle.step (h : Idle config s) {e : Event} (hmet : Metered config s e) (hs : s.step config e = some s') :
    Idle config s' := by
  simp only [Forwarding.step] at hs
  split at hs <;> cases hs
  next hsome =>
  have hopen := Option.not_isSome_iff_eq_none.mp hsome
  cases e with
  | elapse ms =>
    refine { h with found := fun hfound d hd => ?_ }
    have := h.found hfound d hd
    show config.sessionTimeout < s.now + ms - d.1
    omega
  | capsule => exact { h with }
  | forward bytes carrier =>
    obtain ⟨rfl, hexpired⟩ := hmet
    exact h.forward hopen hexpired bytes
  | find => exact h.findExpired hmet
  | close => exact h.closeExpired

def within : List Event :=
  [.forward 800 .forwardDatagram, .forward 800 .forwardDatagram, .elapse 1000, .forward 700 .forwardDatagram, .capsule,
    .elapse 60001, .find, .elapse 5, .close]

end Forwarding

/-! What becomes of datagrams whose context is not acknowledged yet, in whatever state calls and capsules have left the
    client. -/

namespace PendingClient
variable (s : PendingClient) (target : SocketAddr) (payload : Bytes) (capsule : Capsule) (now : Nat)

def Waiting : Prop := ∃ id ∈ s.targetToContext target, ∃ info ∈ s.contextManager.getContext id, info.state = .pending

def Serves : Prop := s.Waiting target → ∃ data, (s.createDatagram target payload now).2 = some (data, none)

/-- No datagram leaves the queue before its time: `handleCapsule` hands none of them out. -/
def Keeps : Prop := ∀ d ∈ s.pendingDatagrams, now - d.createdAt < pendingDatagramMaxAge →
  d ∈ (s.handleCapsule capsule now).1.pendingDatagrams

/-- The target of the pending context that the capsule acknowledges. -/
def acknowledged : Option SocketAddr :=
  match capsule with
  | .compressionAck id =>
    ((s.contextManager.localContexts.get id).filter fun info => info.state = .pending).bind (·.target)
  | _ => none

theorem handleAck_target (id : Nat) : (if (s.contextManager.handleAck id).isOk = true then
    (s.handleAck id).contextManager.getTarget id else none) = s.acknowledged (.compressionAck id) := by
  unfold acknowledged Contexts.handleAck ContextManager.handleAck
  dsimp only
  cases s.contextManager.localContexts.get id with
  | none => rfl
  | some info =>
    by_cases hpending : info.state = .pending
    · simp [hpending, getTarget, getContext, get_insert, Except.isOk, Except.toBool, Option.filter]
    · simp [hpending, Except.isOk, Except.toBool, Option.filter]

theorem createDatagram_of_waiting (h : s.Waiting target) : (s.createDatagram target payload now).2
    = (s.allocate target).2.map fun id => (⟨id, payload⟩, some (.compressionAssign id (some target))) := by
  obtain ⟨id, hid, info, hinfo, hstate⟩ := h
  simp_all [createDatagram, MasqueRelayClient.createDatagram, Option.filter]

/-- No target that waits is served, and an acknowledgement drops all that was queued for its target. -/
theorem pending_served_iff : (s.Serves target payload now ↔ ¬s.Waiting target) ∧
    (s.Keeps capsule now ↔ ∀ d ∈ s.pendingDatagrams, s.acknowledged capsule = some d.target →
      pendingDatagramMaxAge ≤ now - d.createdAt) := by
  constructor
  · refine ⟨fun hserves h => ?_, fun h hwaits => absurd hwaits h⟩
    obtain ⟨data, hdata⟩ := hserves h
    rw [createDatagram_of_waiting s target payload now h] at hdata
    simp at hdata
  cases capsule with
  | compressionAck id =>
    rw [← handleAck_target]
    simp only [Keeps, handleCapsule, MasqueRelayClient.handleCapsule, flushPendingForContext]
    split
    · cases (s.handleAck id).contextManager.getTarget id with
      | none => simp +contextual
      | some target => grind
    · simp +contextual
  | _ => simp +contextual [Keeps, acknowledged, handleCapsule]

/-- After one datagram a second is refused, and the acknowledgement drops the first. -/
theorem pending_unserved : ∃ s, s = (new.createDatagram firstTarget [1] 0).1 ∧ s.Waiting firstTarget ∧
    (s.createDatagram firstTarget [2] 1).2 = none ∧ ¬s.Keeps (.compressionAck 2) 2 := by
  refine ⟨_, rfl, ⟨2, rfl, _, rfl, rfl⟩, rfl, fun h => ?_⟩
  exact absurd (h ⟨firstTarget, [1], 0⟩ (by decide) (by decide)) (by decide)

end PendingClient
end SaorsaTransport.Masque
