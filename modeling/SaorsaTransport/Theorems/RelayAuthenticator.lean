import SaorsaTransport.RelayAuthenticator

/-! When a token can be used twice. -/

namespace SaorsaTransport.Verifying
open Library List

variable {κ : Type} {auth : RelayAuthenticator κ} {s s' : Verifying}

structure SingleUse (auth : RelayAuthenticator κ) (s : Verifying) : Prop where
  once : (s.accepted.map fun a => (a.1.nonce, a.1.signature)).Nodup
  inTime : ∀ a ∈ s.accepted, a.2 ≤ a.1.timestamp + auth.maxTokenAge
  noOverflow : s.overflowed = []

/-- Timestamps are far from the end of their range. A token is locked before it expires, and when the window is full, the
    oldest nonce belongs to tokens that expired and that no call still holds. -/
def Sheltered (auth : RelayAuthenticator κ) (s : Verifying) : Event κ → Prop
  | .verify token _ => token.timestamp + auth.maxTokenAge ≤ u64Max
  | .lock token => s.now ≤ token.timestamp + auth.maxTokenAge ∧
    (s.usedNonces.order.length = replayWindowSize → ∀ a ∈ s.accepted, some a.1.nonce = s.usedNonces.order.head? →
      a.1.timestamp + auth.maxTokenAge < s.now ∧ a.1 ∉ s.waiting)
  | .elapse _ => True

instance : ∀ e, Decidable (Sheltered auth s e) := fun e => by unfold Sheltered; split <;> infer_instance

structure Remembers (auth : RelayAuthenticator κ) (s : Verifying) : Prop extends SingleUse auth s where
  signed : ∀ token, token ∈ s.waiting ∨ token ∈ s.accepted.map Prod.fst → ∃ key, auth.verify key token = true
  remembered : ∀ a ∈ s.accepted, a.1.nonce ∈ s.usedNonces.order ∨ a.1.timestamp + auth.maxTokenAge < s.now ∧ a.1 ∉ s.waiting
  bounded : s.usedNonces.order.length ≤ replayWindowSize

/-- A new nonce takes the place of the oldest one if the window is full. -/
theorem insertWithLimit_order {window : NonceWindow} {nonce : Nat} (hnew : nonce ∉ window.order)
    (hle : window.order.length ≤ replayWindowSize) : (window.insertWithLimit nonce replayWindowSize).order =
      if window.order.length = replayWindowSize then window.order.tail ++ [nonce] else window.order ++ [nonce] := by
  simp only [NonceWindow.insertWithLimit, if_neg hnew, length_append, length_singleton]
  split
  · next hfull =>
    have hne : window.order ≠ [] := by
      rintro hnil
      rw [hnil] at hfull
      cases hfull
    rw [hfull, Nat.add_sub_cancel_left, drop_one, tail_append_of_ne_nil hne]
  · next hroom =>
    have hzero : window.order.length + 1 - replayWindowSize = 0 := by omega
    rw [hzero, drop_zero]

theorem mem_insertWithLimit {window : NonceWindow} {nonce old : Nat} (hnew : nonce ∉ window.order)
    (hle : window.order.length ≤ replayWindowSize) (hold : old ∈ window.order)
    (hkept : window.order.length = replayWindowSize → some old ≠ window.order.head?) :
    old ∈ (window.insertWithLimit nonce replayWindowSize).order := by
  rw [insertWithLimit_order hnew hle]
  split
  · next hfull =>
    refine mem_append_left _ ?_
    cases horder : window.order with
    | nil => simp [horder] at hold
    | cons first rest =>
      rw [horder] at hold
      refine (mem_cons.mp hold).resolve_left fun heq => hkept hfull ?_
      rw [horder, heq]
      rfl
  · exact mem_append_left _ hold

theorem Remembers.lock (h : Remembers auth s) {token : AuthToken} (hmem : token ∈ s.waiting)
    (hshelter : Sheltered auth s (.lock token)) (hnew : token.nonce ∉ s.usedNonces.order) :
    Remembers auth { s with
      waiting := s.waiting.erase token
      usedNonces := s.usedNonces.insertWithLimit token.nonce replayWindowSize
      accepted := (token, s.now) :: s.accepted } := by
  obtain ⟨hnow, hevicted⟩ := hshelter
  have horder := insertWithLimit_order hnew h.bounded
  refine ⟨⟨nodup_cons.mpr ⟨fun hdup => ?_, h.once⟩, forall_mem_cons.mpr ⟨hnow, h.inTime⟩, h.noOverflow⟩,
    fun t ht => h.signed t ?_, forall_mem_cons.mpr ⟨.inl ?_, fun a ha => ?_⟩, ?_⟩
  · -- The same signature stands for the same token, which would still be remembered.
    obtain ⟨a, ha, heq⟩ := mem_map.mp hdup
    obtain ⟨key, hkey⟩ := h.signed token (.inl hmem)
    obtain ⟨key', hkey'⟩ := h.signed a.1 (.inr (mem_map_of_mem ha))
    obtain rfl := auth.ideal _ _ _ _ hkey' hkey (Prod.mk.inj heq).2
    exact (h.remembered a ha).elim hnew fun hexpired => hexpired.2 hmem
  · rcases ht with ht | ht
    · exact .inl (mem_of_mem_erase ht)
    · rw [map_cons, mem_cons] at ht
      exact ht.elim (fun heq => .inl (heq ▸ hmem)) .inr
  · dsimp only
    rw [horder]
    split <;> exact mem_append_right _ mem_cons_self
  · have hgone : ∀ {P : Prop}, P ∧ a.1 ∉ s.waiting → P ∧ a.1 ∉ s.waiting.erase token := fun hexpired =>
      ⟨hexpired.1, fun hstill => hexpired.2 (mem_of_mem_erase hstill)⟩
    rcases h.remembered a ha with hheld | hexpired
    · by_cases holdest : s.usedNonces.order.length = replayWindowSize ∧ some a.1.nonce = s.usedNonces.order.head?
      · exact .inr (hgone (hevicted holdest.1 a ha holdest.2))
      · exact .inl (mem_insertWithLimit hnew h.bounded hheld fun hfull heq => holdest ⟨hfull, heq⟩)
    · exact .inr (hgone hexpired)
  · have hle := h.bounded
    dsimp only
    rw [horder]
    unfold replayWindowSize at hle ⊢
    split <;> simp only [length_append, length_tail, length_singleton] <;> omega

theorem Remembers.step (h : Remembers auth s) {e : Event κ} (hshelter : Sheltered auth s e)
    (hs : s.step auth e = some s') : Remembers auth s' := by
  cases e with
  | elapse seconds =>
    cases hs
    exact { h with remembered := fun a ha => (h.remembered a ha).imp_right fun hexpired =>
      ⟨hexpired.1.trans_le (Nat.le_add_right _ _), hexpired.2⟩ }
  | verify token key =>
    simp only [Sheltered] at hshelter
    simp only [Verifying.step, AuthToken.isExpired, if_pos hshelter] at hs
    split at hs
    · next hverify =>
      split at hs
      · contradiction
      · exact Option.some.inj hs ▸ h
      next hvalid =>
      cases hs
      have hvalid : s.now ≤ token.timestamp + auth.maxTokenAge := by simpa using hvalid
      refine { h with signed := fun t ht => ?_, remembered := fun a ha => (h.remembered a ha).imp_right fun hexpired => ?_ }
      · rcases ht with ht | ht
        · exact (mem_cons.mp ht).elim (fun heq => ⟨key, heq ▸ hverify⟩) fun ht => h.signed t (.inl ht)
        · exact h.signed t (.inr ht)
      · refine ⟨hexpired.1, fun hmem => (mem_cons.mp hmem).elim (fun heq => ?_) hexpired.2⟩
        rw [heq] at hexpired
        omega
    · exact Option.some.inj hs ▸ h
  | lock token =>
    simp only [Verifying.step, NonceWindow.contains, decide_eq_true_eq] at hs
    split at hs
    · next hmem =>
      split at hs <;> cases hs
      · refine { h with
          signed := fun t ht => h.signed t (ht.imp_left mem_of_mem_erase)
          remembered := fun a ha => (h.remembered a ha).imp_right fun hexpired => ?_ }
        exact ⟨hexpired.1, fun hstill => hexpired.2 (mem_of_mem_erase hstill)⟩
      · next hnew => exact h.lock hmem hshelter hnew
    · cases hs

/-- In every run of that kind each token is accepted once, and in time. -/
theorem tokens_single_use (h : Reaches (step auth) (Sheltered auth) (· = .new) s) : SingleUse auth s :=
  Remembers.toSingleUse (h.invariant (fun _ hs => hs ▸ ⟨⟨nodup_nil, nofun, rfl⟩, by simp [new], nofun, Nat.zero_le _⟩)
    fun _ _ _ hs he ht => hs.step he ht)

def token (nonce timestamp : Nat) : AuthToken := ⟨nonce, timestamp, 0, 0, [UInt8.ofNat nonce]⟩

def maker : RelayAuthenticator Unit where
  maxTokenAge := 300
  verify _ t := t ∈ [token 0 0, token 1 0, token 2 u64Max]
  ideal _ _ t t' h h' := by
    have : ∀ t ∈ [token 0 0, token 1 0, token 2 u64Max], ∀ t' ∈ [token 0 0, token 1 0, token 2 u64Max],
        t.signature = t'.signature → t = t' := by decide
    exact this t (of_decide_eq_true h) t' (of_decide_eq_true h')

/-- A token is locked long after it was verified, and verified again. -/
def late : List (Event Unit) :=
  [.verify (token 0 0) (), .verify (token 1 0) (), .lock (token 1 0), .elapse 300, .lock (token 0 0), .verify (token 0 0) ()]

def lateEnd : Verifying := ⟨300, ⟨[1, 0]⟩, [token 0 0], [(token 0 0, 300), (token 1 0, 0)], []⟩

theorem tokens_single_use_late : runFrom (step maker) (Sheltered maker) .new late = some lateEnd ∧ SingleUse maker lateEnd :=
  ⟨by decide +kernel, @tokens_single_use _ maker lateEnd (.runFrom late (.start rfl) (by decide +kernel))⟩

/-- The last token makes the sum overflow; and a token is accepted that expired while the call waited for the lock. -/
theorem timestamp_overflows : ∃ s s', runFrom (step maker) (fun _ _ => True) .new [.verify (token 2 u64Max) ()] = some s ∧
    s.overflowed = [token 2 u64Max] ∧ ¬ SingleUse maker s ∧
    runFrom (step maker) (fun _ _ => True) .new [.verify (token 0 0) (), .elapse 301, .lock (token 0 0)] = some s' ∧
    s'.accepted = [(token 0 0, 301)] ∧ ¬ SingleUse maker s' :=
  ⟨_, ⟨301, ⟨[0]⟩, [], [(token 0 0, 301)], []⟩, rfl, rfl, (nomatch ·.noOverflow), by decide +kernel, rfl,
    fun h => absurd (h.inTime _ (.head _)) (by decide)⟩

end SaorsaTransport.Verifying
