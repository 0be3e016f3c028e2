import SaorsaTransport.Theorems.Masque.Contexts

/-! Where relayed datagrams end up. Each context identifier stands for one target for good: the client picks the even
    ones and the relay the odd ones, and all that is known of one agrees. -/

namespace SaorsaTransport.Masque
open Library List Contexts Option

structure Follows (f : Nat → Option SocketAddr) (c : Contexts) : Prop where
  localContexts : ∀ id info target, c.contextManager.localContexts.get id = some info → info.target = some target →
    f id = some target
  remoteContexts : ∀ id info target, c.contextManager.remoteContexts.get id = some info → info.target = some target →
    f id = some target
  mapping : ∀ id target, c.targetToContext target = some id → f id = some target

variable {f f' : Nat → Option SocketAddr} {c c' : Contexts} {id : Nat} {target : SocketAddr}

theorem Follows.mono (h : Follows f c) (hf : ∀ i t, f i = some t → f' i = some t) : Follows f' c where
  localContexts i info t hi ht := hf i t (h.localContexts i info t hi ht)
  remoteContexts i info t hi ht := hf i t (h.remoteContexts i info t hi ht)
  mapping i t hi := hf i t (h.mapping i t hi)

theorem Follows.getTarget (h : Follows f c) (ht : c.contextManager.getTarget id = some target) : f id = some target := by
  obtain ⟨info, hinfo, htgt⟩ := bind_eq_some_iff.mp ht
  rcases or_eq_some_iff.mp hinfo with hl | ⟨-, hr⟩
  · exact h.localContexts id info target hl htgt
  · exact h.remoteContexts id info target hr htgt

theorem Follows.register {target : Option SocketAddr} (h : Follows f c) (ht : ∀ t, target = some t → f id = some t)
    (hc : c.register id target = .ok c') :
    Follows f c' ∧ c'.contextManager.nextLocalId = c.contextManager.nextLocalId := by
  have hrem : ∀ i info t, (c.contextManager.remoteContexts.insert id ⟨target, .active⟩).get i = some info →
      info.target = some t → f i = some t := by
    intro i info t hi hinfo
    rw [BTreeMap.get_insert] at hi
    split at hi
    · next heq =>
      cases hi
      exact heq ▸ ht t hinfo
    · exact h.remoteContexts i info t hi hinfo
  unfold Contexts.register ContextManager.registerRemote at hc
  cases target with
  | none =>
    dsimp only at hc
    split at hc
    · cases hc
    cases hc
    exact ⟨⟨h.localContexts, hrem, h.mapping⟩, rfl⟩
  | some x =>
    dsimp only at hc
    split at hc
    · cases hc
    cases hc
    refine ⟨⟨h.localContexts, hrem, fun i t hi => ?_⟩, rfl⟩
    simp only [Option.elim, setContext] at hi
    split at hi
    · next heq => rw [← Option.some.inj hi, heq, ht x rfl]
    · exact h.mapping i t hi

theorem get_insert_state {m : BTreeMap Nat ContextInfo} {info : ContextInfo} {state : ContextState}
    (h : ∀ i info t, m.get i = some info → info.target = some t → f i = some t) (hinfo : m.get id = some info) :
    ∀ i info' t, (m.insert id { info with state }).get i = some info' → info'.target = some t → f i = some t := by
  intro i info' t hi ht
  rw [BTreeMap.get_insert] at hi
  split at hi
  · next heq =>
    cases hi
    exact heq ▸ h id info t hinfo ht
  · exact h i info' t hi ht

theorem Follows.ack (h : Follows f c) (id : Nat) :
    Follows f (c.handleAck id) ∧ (c.handleAck id).contextManager.nextLocalId = c.contextManager.nextLocalId := by
  unfold handleAck ContextManager.handleAck
  cases hl : c.contextManager.localContexts.get id with
  | none => exact ⟨h, rfl⟩
  | some info =>
    dsimp only
    by_cases hst : info.state ≠ .pending
    · rw [if_pos hst]
      exact ⟨h, rfl⟩
    rw [if_neg hst]
    exact ⟨⟨get_insert_state h.localContexts hl, h.remoteContexts, h.mapping⟩, rfl⟩

theorem Follows.close (h : Follows f c) (id : Nat) :
    Follows f (c.handleClose id) ∧ (c.handleClose id).contextManager.nextLocalId = c.contextManager.nextLocalId := by
  have hmap : ∀ i t, (c.contextManager.getTarget id).elim c.targetToContext (fun t => c.setContext t none) t = some i →
      f i = some t := by
    intro i t hi
    cases ht : c.contextManager.getTarget id with
    | none => exact h.mapping i t (by simpa [ht] using hi)
    | some x =>
      simp only [ht, Option.elim, setContext] at hi
      split at hi
      · cases hi
      · exact h.mapping i t hi
  unfold handleClose ContextManager.close
  cases hl : c.contextManager.localContexts.get id with
  | some info => exact ⟨⟨get_insert_state h.localContexts hl, h.remoteContexts, hmap⟩, rfl⟩
  | none =>
    cases hr : c.contextManager.remoteContexts.get id with
    | none => exact ⟨{ h with mapping := hmap }, rfl⟩
    | some info => exact ⟨⟨h.localContexts, get_insert_state h.remoteContexts hr, hmap⟩, rfl⟩

def assigned (f : Nat → Option SocketAddr) (id : Nat) (target : SocketAddr) : Nat → Option SocketAddr :=
  fun i => if i = id then some target else f i

theorem assigned_mono (hnew : f id = none) (i : Nat) (t : SocketAddr) (h : f i = some t) : assigned f id target i = some t := by
  unfold assigned
  rw [if_neg, h]
  rintro rfl
  rw [hnew] at h
  cases h

/-- Either nothing is allocated, or the next identifier comes to stand for the target. -/
theorem Follows.allocate (h : Follows f c) (hnew : f c.contextManager.nextLocalId = none) (target : SocketAddr) :
    ((c.allocate target).2 = none ∧ Follows f (c.allocate target).1 ∧
      ((c.allocate target).1.contextManager.nextLocalId = c.contextManager.nextLocalId ∨
        (c.allocate target).1.contextManager.nextLocalId = c.contextManager.nextLocalId + 2)) ∨
    ((c.allocate target).2 = some c.contextManager.nextLocalId ∧
      Follows (assigned f c.contextManager.nextLocalId target) (c.allocate target).1 ∧
      (c.allocate target).1.contextManager.nextLocalId = c.contextManager.nextLocalId + 2) := by
  unfold Contexts.allocate ContextManager.allocateLocal
  by_cases hmax : VarInt.max < c.contextManager.nextLocalId
  · rw [if_pos hmax]
    exact .inl ⟨rfl, h, .inl rfl⟩
  rw [if_neg hmax]
  dsimp only [ContextManager.registerCompressed]
  by_cases hi : (c.contextManager.targetIndex target).isSome = true
  · rw [if_pos hi]
    exact .inl ⟨rfl, { h with }, .inr rfl⟩
  rw [if_neg hi]
  have hf := @assigned_mono f _ target hnew
  refine .inr ⟨rfl, ⟨fun i info t hi ht => ?_, (h.mono hf).remoteContexts, fun i t hi => ?_⟩, rfl⟩
  · rw [BTreeMap.get_insert] at hi
    split at hi
    · next heq =>
      cases hi
      rw [assigned, if_pos heq, ← ht]
    · exact hf i t (h.localContexts i info t hi ht)
  · simp only [setContext] at hi
    split at hi
    · next heq => rw [assigned, if_pos (Option.some.inj hi).symm, heq]
    · exact hf i t (h.mapping i t hi)

structure Agrees (f : Nat → Option SocketAddr) (w : Relayed) : Prop where
  client : Follows f w.client.toContexts
  session : Follows f w.session.toContexts
  toRelay : ∀ id target, .compressionAssign id (some target) ∈ w.toRelay → f id = some target
  toClient : ∀ id target, .compressionAssign id (some target) ∈ w.toClient → f id = some target
  outgoing : ∀ x ∈ w.outgoing, f x.2.contextId = some x.1
  incoming : ∀ x ∈ w.incoming, f x.2.contextId = some x.1
  even : w.client.contextManager.nextLocalId % 2 = 0
  odd : w.session.contextManager.nextLocalId % 2 = 1
  evenFree : ∀ id, id % 2 = 0 → w.client.contextManager.nextLocalId ≤ id → f id = none
  oddFree : ∀ id, id % 2 = 1 → w.session.contextManager.nextLocalId ≤ id → f id = none

variable {w w' : Relayed}

theorem agrees_new (maxContexts : Nat) : Agrees (fun _ => none) (.new maxContexts) where
  client := ⟨nofun, nofun, nofun⟩
  session := ⟨nofun, nofun, nofun⟩
  toRelay := nofun
  toClient := nofun
  outgoing := nofun
  incoming := nofun
  even := Nat.mod_self 2
  odd := Nat.mod_eq_of_lt Nat.one_lt_two
  evenFree _ _ _ := rfl
  oddFree _ _ _ := rfl

theorem Agrees.create (h : Agrees f w) {payload : Bytes} (hw : w.step (.create target payload) = some w') :
    ∃ f', Agrees f' w' := by
  cases hw
  dsimp only [MasqueRelayClient.createDatagram]
  split
  · next id hid =>
    obtain ⟨hmap, -⟩ := filter_eq_some_iff.mp hid
    refine ⟨f, { h with outgoing := fun x hx => ?_ }⟩
    rcases mem_cons.mp hx with rfl | hx
    · exact h.client.mapping id target hmap
    · exact h.outgoing x hx
  have heven := h.even
  have hnew := h.evenFree _ h.even le_rfl
  rcases h.client.allocate hnew target with ⟨hnone, hfol, hnext⟩ | ⟨hsome, hfol, hnext⟩
  · rw [hnone]
    refine ⟨f, { h with client := hfol, even := ?_, evenFree := fun id he hle => h.evenFree id he ?_ }⟩
    · dsimp only
      omega
    · dsimp only at hle
      omega
  rw [hsome]
  have hf := @assigned_mono f _ target hnew
  refine ⟨_, hfol, h.session.mono hf, fun id t hmem => ?_, fun id t hmem => hf _ _ (h.toClient id t hmem),
    fun x hx => ?_, fun x hx => hf _ _ (h.incoming x hx), ?_, h.odd, fun id he hle => ?_, fun id ho hle => ?_⟩
  · rcases mem_cons.mp hmem with heq | hmem
    · cases heq
      exact if_pos rfl
    · exact hf _ _ (h.toRelay id t hmem)
  · rcases mem_cons.mp hx with rfl | hx
    · exact if_pos rfl
    · exact hf _ _ (h.outgoing x hx)
  · dsimp only
    omega
  · dsimp only at hle
    rw [assigned, if_neg (by omega), h.evenFree id he (by omega)]
  · rw [assigned, if_neg (by omega), h.oddFree id ho hle]

theorem Agrees.returned (h : Agrees f w) {source : SocketAddr} {payload : Bytes} {announce : Bool}
    (hw : w.step (.returned source payload announce) = some w') : ∃ f', Agrees f' w' := by
  cases hw
  dsimp only [RelaySession.handleTargetDatagram, RelaySession.contextForTarget]
  cases hid : w.session.targetToContext source with
  | some id =>
    have hf := h.session.mapping id source hid
    refine ⟨f, { h with toClient := fun i t hmem => ?_, incoming := fun x hx => ?_ }⟩
    · rcases mem_append.mp hmem with hmem | hmem
      · cases announce <;> simp at hmem
        obtain ⟨rfl, rfl⟩ := hmem
        exact hf
      · exact h.toClient i t hmem
    · rcases mem_cons.mp hx with rfl | hx
      · exact hf
      · exact h.incoming x hx
  | none =>
    have hodd := h.odd
    have hnew := h.oddFree _ h.odd le_rfl
    rcases h.session.allocate hnew source with ⟨hnone, hfol, hnext⟩ | ⟨hsome, hfol, hnext⟩
    · dsimp only
      rw [hnone]
      refine ⟨f, { h with session := hfol, odd := ?_, oddFree := fun id ho hle => h.oddFree id ho ?_ }⟩
      · dsimp only
        omega
      · dsimp only at hle
        omega
    dsimp only
    rw [hsome]
    have hf := @assigned_mono f _ source hnew
    refine ⟨_, h.client.mono hf, hfol, fun id t hmem => hf _ _ (h.toRelay id t hmem), fun id t hmem => ?_,
      fun x hx => hf _ _ (h.outgoing x hx), fun x hx => ?_, h.even, ?_, fun id he hle => ?_, fun id ho hle => ?_⟩
    · rcases mem_append.mp hmem with hmem | hmem
      · cases announce <;> simp at hmem
        obtain ⟨rfl, rfl⟩ := hmem
        exact if_pos rfl
      · exact hf _ _ (h.toClient id t hmem)
    · rcases mem_cons.mp hx with rfl | hx
      · exact if_pos rfl
      · exact hf _ _ (h.incoming x hx)
    · dsimp only
      omega
    · rw [assigned, if_neg (by omega), h.evenFree id he hle]
    · dsimp only at hle
      rw [assigned, if_neg (by omega), h.oddFree id ho (by omega)]

structure Answers (f : Nat → Option SocketAddr) (c c' : Contexts) (reply : Option Capsule) : Prop where
  follows : Follows f c'
  next : c'.contextManager.nextLocalId = c.contextManager.nextLocalId
  reply : ∀ id target, reply ≠ some (.compressionAssign id target)

theorem Follows.session {s : RelaySession} (h : Follows f s.toContexts) {capsule : Capsule}
    (hcapsule : ∀ id target, capsule = .compressionAssign id (some target) → f id = some target) :
    Answers f s.toContexts (s.handleCapsule capsule).1.toContexts (s.handleCapsule capsule).2 := by
  cases capsule with
  | compressionAck id => exact ⟨(h.ack id).1, (h.ack id).2, nofun⟩
  | compressionClose id => exact ⟨(h.close id).1, (h.close id).2, nofun⟩
  | unknown => exact ⟨h, rfl, nofun⟩
  | compressionAssign id target =>
    unfold RelaySession.handleCapsule RelaySession.handleCompressionAssign
    dsimp only
    split
    · exact ⟨h, rfl, nofun⟩
    split
    · next c hc =>
      obtain ⟨hfol, hnext⟩ := h.register (fun t ht => hcapsule id t (by rw [ht])) hc
      exact ⟨hfol, hnext, nofun⟩
    · exact ⟨h, rfl, nofun⟩

theorem Follows.client {c : MasqueRelayClient} (h : Follows f c.toContexts) {capsule : Capsule}
    (hcapsule : ∀ id target, capsule = .compressionAssign id (some target) → f id = some target) :
    Answers f c.toContexts (c.handleCapsule capsule).1.toContexts (c.handleCapsule capsule).2 := by
  cases capsule with
  | compressionAck id => exact ⟨(h.ack id).1, (h.ack id).2, nofun⟩
  | compressionClose id => exact ⟨(h.close id).1, (h.close id).2, nofun⟩
  | unknown => exact ⟨h, rfl, nofun⟩
  | compressionAssign id target =>
    unfold MasqueRelayClient.handleCapsule
    dsimp only
    split
    · next c hc =>
      obtain ⟨hfol, hnext⟩ := h.register (fun t ht => hcapsule id t (by rw [ht])) hc
      exact ⟨hfol, hnext, nofun⟩
    · exact ⟨h, rfl, nofun⟩

theorem mem_reply {reply : Option Capsule} {capsules : List Capsule}
    (hreply : ∀ id target, reply ≠ some (.compressionAssign id target)) {target : Option SocketAddr}
    (h : .compressionAssign id target ∈ reply.toList ++ capsules) : .compressionAssign id target ∈ capsules := by
  rcases mem_append.mp h with h | h
  · exact absurd (mem_toList.mp h) (hreply id target)
  · exact h

theorem Agrees.step (h : Agrees f w) {e : Relayed.Event} (hw : w.step e = some w') : ∃ f', Agrees f' w' := by
  cases e with
  | create target payload => exact h.create hw
  | returned source payload announce => exact h.returned hw
  | relayCapsule capsule =>
    simp only [Relayed.step] at hw
    split at hw
    · next hmem =>
      cases hw
      obtain ⟨hfol, hnext, hreply⟩ := h.session.session fun id t heq => h.toRelay id t (heq ▸ hmem)
      exact ⟨f, { h with
        session := hfol
        toClient := fun id t ht => h.toClient id t (mem_reply hreply ht)
        odd := hnext ▸ h.odd
        oddFree := fun id ho hle => h.oddFree id ho (hnext ▸ hle) }⟩
    · cases hw
  | clientCapsule capsule =>
    simp only [Relayed.step] at hw
    split at hw
    · next hmem =>
      cases hw
      obtain ⟨hfol, hnext, hreply⟩ := h.client.client fun id t heq => h.toClient id t (heq ▸ hmem)
      exact ⟨f, { h with
        client := hfol
        toRelay := fun id t ht => h.toRelay id t (mem_reply hreply ht)
        even := hnext ▸ h.even
        evenFree := fun id he hle => h.evenFree id he (hnext ▸ hle) }⟩
    · cases hw

/-- The datagram is dropped, or it goes with its payload to the address it was made for. -/
def Routed (resolve : CompressedDatagram → Option (SocketAddr × Bytes)) (x : SocketAddr × CompressedDatagram) : Prop :=
  resolve x.2 = none ∨ resolve x.2 = some (x.1, x.2.payload)

/-- The context is known, or the payload does not read like an address and a payload. -/
def Unmistakable (c : Contexts) (x : SocketAddr × CompressedDatagram) : Prop :=
  (c.contextManager.getTarget x.2.contextId).isSome = true ∨ decodeUncompressed x.2.payload = none

theorem length_decodeUncompressed {bytes rest : Bytes}
    (h : decodeUncompressed bytes = some (target, rest)) : rest.length < bytes.length := by
  cases bytes with
  | nil => cases h
  | cons version bytes =>
    simp only [decodeUncompressed] at h
    generalize (if version = 4 then 4 else 16) = len at h
    split at h
    · cases h
    split at h
    · cases h
    obtain ⟨-, rfl⟩ := Prod.mk.inj (Option.some.inj h)
    rw [length_drop, length_cons]
    omega

theorem Follows.routed_iff (h : Follows f c) {x : SocketAddr × CompressedDatagram} (hx : f x.2.contextId = some x.1) :
    Routed c.resolve x ↔ Unmistakable c x := by
  unfold Routed Unmistakable resolve
  cases ht : c.contextManager.getTarget x.2.contextId with
  | some t =>
    obtain rfl := Option.some.inj ((h.getTarget ht).symm.trans hx)
    simp
  | none =>
    simp only [isSome_none, Bool.false_eq_true, false_or, or_iff_left_iff_imp]
    intro heq
    exact absurd (length_decodeUncompressed heq) (lt_irrefl _)

/-- In every run, a datagram is dropped or reaches the target it was made for exactly when the relay knows its context or
    its payload does not read like an address and a payload; and so for the datagrams that come back to the client. -/
theorem relay_routes_iff {maxContexts : Nat} (h : Reaches Relayed.step (fun _ _ => True) (· = .new maxContexts) w) :
    (∀ x ∈ w.outgoing, Routed w.session.resolveRawDatagram x ↔ Unmistakable w.session.toContexts x) ∧
      ∀ x ∈ w.incoming, Routed w.client.decodeDatagram x ↔ Unmistakable w.client.toContexts x := by
  obtain ⟨f, hf⟩ := @Reaches.invariant _ _ _ _ _ (fun w => ∃ f, Agrees f w)
    (fun _ hs => ⟨_, hs ▸ agrees_new maxContexts⟩) (fun _ _ _ ⟨_, hs⟩ _ ht => hs.step ht) w h
  exact ⟨fun x hx => hf.session.routed_iff (hf.outgoing x hx), fun x hx => hf.client.routed_iff (hf.incoming x hx)⟩

def disguised : Bytes := [4, 203, 0, 113, 2, 35, 40, 1]

def announced : List Relayed.Event :=
  [.create firstTarget disguised, .relayCapsule (.compressionAssign 2 (some firstTarget)), .returned firstTarget [1] false]

/-- The capsule arrives in time. -/
theorem relay_routes_announced : ∃ w, runFrom Relayed.step (fun _ _ => True) (.new 4) announced = some w ∧
    w.outgoing = [(firstTarget, ⟨2, disguised⟩)] ∧
    w.session.resolveRawDatagram ⟨2, disguised⟩ = some (firstTarget, disguised) ∧
    Routed w.session.resolveRawDatagram (firstTarget, ⟨2, disguised⟩) := by
  refine ⟨_, rfl, by decide +kernel, by decide +kernel, ?_⟩
  exact ((@relay_routes_iff _ 4 (.runFrom announced (.start rfl) rfl)).1 _ mem_cons_self).mpr (.inl (by decide +kernel))

/-- The capsule is lost, and the relay takes the payload for another address. -/
theorem relay_misroutes : ∃ w, runFrom Relayed.step (fun _ _ => True) (.new 4) [.create firstTarget disguised] = some w ∧
    w.outgoing = [(firstTarget, ⟨2, disguised⟩)] ∧
    w.session.resolveRawDatagram ⟨2, disguised⟩ = some (secondTarget, [1]) :=
  ⟨_, rfl, by decide +kernel, by decide +kernel⟩

end SaorsaTransport.Masque
