import SaorsaTransport.Theorems.Keys

/-! The confidentiality limit: how many packets are sealed under one key in the course of a connection. -/

namespace SaorsaTransport
open Library Function Option

structure Metered where
  conn : KeyedConnection
  sealed : KeyId → Nat

namespace Metered
open KeyedConnection

def count (sealed : KeyId → Nat) (out : Option Packet) : KeyId → Nat :=
  match out.bind (·.sealedWith) with
  | some (key, _) => update sealed key (sealed key + 1)
  | none => sealed

def step (limits : AeadLimits) (m : Metered) (e : KeyEvent) : Option Metered :=
  (m.conn.step limits e).map fun (conn, out) => ⟨conn, count m.sealed out⟩

inductive Start : Metered → Prop
  | intro (side : Side) (setup : Setup) : Start ⟨KeyedConnection.new side setup, fun _ => 0⟩

def InPhase (c : KeyedConnection) : Prop :=
  (c.spaces .data).sentWithKeys < c.keyPhaseSize ∨ (c.state.isEstablished = true ∧ c.prevCrypto = none)

instance : DecidablePred InPhase := fun _ => inferInstanceAs (Decidable (_ ∨ (_ ∧ _)))

def OffLimit (limits : AeadLimits) (c : KeyedConnection) (space : SpaceId) : Prop :=
  ∀ key ∈ (c.spaces space).crypto, (c.spaces space).sentWithKeys ≠ limits.confidentialityLimit key

instance (limits : AeadLimits) (c : KeyedConnection) : DecidablePred (OffLimit limits c) := fun space =>
  inferInstanceAs (Decidable (∀ key ∈ (c.spaces space).crypto,
    (c.spaces space).sentWithKeys ≠ limits.confidentialityLimit key))

/-- A packet is built in the data space only while the phase is not exhausted or the keys can be updated, and in an
    early space never when the limit is reached. -/
def Paced (limits : AeadLimits) (m : Metered) : KeyEvent → Prop
  | .transmit .data _ => InPhase m.conn
  | .transmit space _ => OffLimit limits m.conn space
  | .probe _ => InPhase m.conn
  | _ => True

instance (limits : AeadLimits) (m : Metered) : DecidablePred (Paced limits m) := fun e => by
  unfold Paced
  split <;> infer_instance

variable {limits : AeadLimits} {c c' : KeyedConnection} {sealed : KeyId → Nat}

/-- The counters of the spaces bound what was sealed under the keys in use, and keys to come are fresh. -/
structure Counted (limits : AeadLimits) (c : KeyedConnection) (sealed : KeyId → Nat) : Prop where
  wf : Wf c
  bound : ∀ key, sealed key ≤ limits.confidentialityLimit key
  initial : ∀ a, (c.spaces .initial).crypto = some (.initial a) → sealed (.initial a) ≤ (c.spaces .initial).sentWithKeys
  handshake : sealed .handshake ≤ (c.spaces .handshake).sentWithKeys
  early : (c.spaces .data).crypto = none → sealed .zeroRtt ≤ (c.spaces .data).sentWithKeys ∧ c.keyPhaseSize ≤ 1000
  data : ∀ g, (c.spaces .data).crypto = some (.oneRtt g) → sealed (.oneRtt g) ≤ (c.spaces .data).sentWithKeys
  freshInitial : ∀ a b, (c.spaces .initial).crypto = some (.initial a) → a < b → sealed (.initial b) = 0
  fresh : ∀ k, c.session ≤ k + 1 → sealed (.oneRtt k) = 0
  phase : c.keyPhaseSize ≤ limits.confidentialityLimit (.oneRtt 0)

section
variable (h : Counted limits c sealed)
include h

theorem Counted.congr (hwf : Wf c') (hdata : (c'.spaces .data).crypto = (c.spaces .data).crypto)
    (hearly : ∀ space key, (c'.spaces space).crypto = some key → (c.spaces space).crypto = some key)
    (hsent : ∀ space, (c'.spaces space).sentWithKeys = (c.spaces space).sentWithKeys)
    (hsize : c'.keyPhaseSize = c.keyPhaseSize) (hsess : c'.session = c.session) : Counted limits c' sealed where
  wf := hwf
  bound := h.bound
  initial a ha := (h.initial a (hearly _ _ ha)).trans (hsent _).ge
  handshake := h.handshake.trans (hsent _).ge
  early hnone := by
    rw [hsent, hsize]
    exact h.early (hdata.symm.trans hnone)
  data g hg := (h.data g (hdata.symm.trans hg)).trans (hsent _).ge
  freshInitial a b ha := h.freshInitial a b (hearly _ _ ha)
  fresh := hsess ▸ h.fresh
  phase := hsize ▸ h.phase

theorem Counted.same (hwf : Wf c') (hs : SameKeys c c') : Counted limits c' sealed :=
  h.congr hwf hs.crypto hs.early hs.sentWithKeys hs.keyPhaseSize hs.session

theorem Counted.quiet (hq : Quiet c c') : Counted limits c' sealed :=
  h.same (hq.wf h.wf) hq.toSameKeys

theorem Counted.updated {next old : KeyId} (hnext : c.nextCrypto = some next)
    (hold : (c.spaces .data).crypto = some old) (endPacket : Option Nat) (remote : Bool) :
    Counted limits (c.updated limits next old endPacket remote) sealed := by
  obtain ⟨g, hg⟩ := h.wf.hasKeys hold
  obtain rfl := some.inj (hnext.symm.trans hg.nextCrypto)
  refine ⟨h.wf.updated hnext hold endPacket remote, h.bound, h.initial, h.handshake, ?_, ?_, h.freshInitial, ?_, ?_⟩
  · rw [updated_data]
    exact nofun
  · intro k hk
    obtain rfl : k = g + 1 := (KeyId.oneRtt.inj (some.inj hk)).symm
    rw [h.fresh (g + 1) hg.session.le]
    exact zero_le
  · exact fun k hk => h.fresh k (Nat.le_of_succ_le hk)
  · calc limits.confidentialityLimit (.oneRtt c.session) - keyUpdateMargin
        ≤ limits.confidentialityLimit (.oneRtt c.session) := Nat.sub_le _ _
      _ = limits.confidentialityLimit (.oneRtt 0) := limits.oneRtt_eq _

end

def keySpace : KeyId → SpaceId
  | .initial _ => .initial
  | .handshake => .handshake
  | .zeroRtt => .data
  | .oneRtt _ => .data

variable {space : SpaceId} {key : KeyId} {n : Nat} {e : KeyEvent}

theorem sealingKey_inv (h : Wf c) (hkey : c.sealingKey space = some key) :
    keySpace key = space ∧ ((c.spaces space).crypto = some key ∨ (c.spaces space).crypto = none ∧ key = .zeroRtt) := by
  unfold sealingKey at hkey
  split at hkey
  · next k hk =>
    cases hkey
    refine ⟨?_, .inl hk⟩
    cases space with
    | initial =>
      obtain ⟨a, rfl⟩ := h.initial _ hk
      rfl
    | handshake =>
      obtain rfl := h.handshake _ hk
      rfl
    | data =>
      obtain ⟨g, hg⟩ := h.hasKeys hk
      obtain rfl := some.inj (hk.symm.trans hg.crypto)
      rfl
  next hnone =>
  split at hkey
  · next hzero =>
    cases hkey
    exact ⟨hzero.1.symm, .inr ⟨hnone, rfl⟩⟩
  · cases hkey

section
variable (h : Counted limits c sealed)
include h

theorem Counted.sealed_le (hkey : c.sealingKey space = some key) : sealed key ≤ (c.spaces space).sentWithKeys := by
  obtain ⟨rfl, hc⟩ := sealingKey_inv h.wf hkey
  cases key with
  | initial a => exact h.initial a (hc.resolve_right nofun)
  | handshake => exact h.handshake
  | zeroRtt =>
    rcases hc with hc | ⟨hc, -⟩
    · obtain ⟨g, hg⟩ := h.wf.hasKeys hc
      cases hc.symm.trans hg.crypto
    · exact (h.early hc).1
  | oneRtt g => exact h.data g (hc.resolve_right nofun)

theorem Counted.sealPacket (ha : Allocated c c' space n) (hkey : c.sealingKey space = some key)
    (hroom : sealed key < limits.confidentialityLimit key) :
    Counted limits c' (update sealed key (sealed key + 1)) := by
  obtain ⟨hspace, hcry⟩ := sealingKey_inv h.wf hkey
  have hoth : ∀ {k}, k ≠ key → update sealed key (sealed key + 1) k = sealed k := fun hk =>
    update_of_ne hk _ _
  -- The count of the key grows with the counter of its space; nothing else grows.
  have hle : ∀ k, sealed k ≤ (c.spaces (keySpace k)).sentWithKeys →
      update sealed key (sealed key + 1) k ≤ (c'.spaces (keySpace k)).sentWithKeys := by
    intro k hk
    by_cases heq : k = key
    · rw [heq, update_self, hspace]
      exact Nat.succ_le_of_lt ((h.sealed_le hkey).trans_lt ha.counted)
    rw [hoth heq]
    by_cases hsp : keySpace k = space
    · rw [hsp] at hk ⊢
      exact hk.trans ha.counted.le
    · exact hk.trans (ha.sentWithKeys _ hsp).ge
  have hbd := (Function.forall_update_iff sealed fun k n => n ≤ limits.confidentialityLimit k).mpr
    ⟨hroom, fun k _ => h.bound k⟩
  refine ⟨ha.wf h.wf, hbd, fun a hc => hle (.initial a) (h.initial a (ha.crypto _ ▸ hc)),
    hle .handshake h.handshake, fun hc => ?_, fun g hc => hle (.oneRtt g) (h.data g (ha.crypto _ ▸ hc)),
    fun a b hc hab => ?_, fun k hk => ?_, ha.keyPhaseSize ▸ h.phase⟩
  · obtain ⟨hzero, hsize⟩ := h.early (ha.crypto _ ▸ hc)
    exact ⟨hle .zeroRtt hzero, ha.keyPhaseSize ▸ hsize⟩
  · rw [ha.crypto] at hc
    rw [hoth, h.freshInitial a b hc hab]
    rintro rfl
    subst hspace
    obtain rfl := KeyId.initial.inj (some.inj (hc.symm.trans (hcry.resolve_right nofun)))
    exact lt_irrefl _ hab
  · rw [ha.session] at hk
    rw [hoth, h.fresh k hk]
    rintro rfl
    subst hspace
    obtain ⟨g, hg⟩ := h.wf.hasKeys (hcry.resolve_right nofun)
    obtain rfl := KeyId.oneRtt.inj (some.inj ((hcry.resolve_right nofun).symm.trans hg.crypto))
    rw [hg.session] at hk
    omega

theorem Counted.built {packet : Packet} (hb : Built limits c c' space packet)
    (hdata : space = .data → InPhase c) (hearly : space ≠ .data → OffLimit limits c space) :
    Counted limits c' (count sealed (some packet)) := by
  obtain @⟨d, n, number, key, hprep, ha, hkey, rfl⟩ := hb
  have hkey' : d.sealingKey space = some key := by
    unfold sealingKey at hkey ⊢
    rwa [ha.crypto, ha.zeroRttCrypto] at hkey
  cases hprep with
  | keep hq hsize hlim =>
    have hd := h.quiet hq
    refine hd.sealPacket ha hkey' ((hd.sealed_le hkey').trans_lt ?_)
    rw [hq.sentWithKeys]
    obtain ⟨rfl, hc⟩ := sealingKey_inv hd.wf hkey'
    by_cases hspace : keySpace key = .data
    · -- In the data space the phase is not exhausted, and it is shorter than the limit allows.
      have hroom : (c.spaces .data).sentWithKeys < c.keyPhaseSize := by
        rcases hdata hspace with hroom | hup
        · exact hroom
        · exact (hsize hspace).resolve_right fun hno => hno hup
      rw [hspace] at hc ⊢
      rcases hc with hc | ⟨hc, rfl⟩
      · obtain ⟨g, hg⟩ := hd.wf.hasKeys hc
        obtain rfl := some.inj (hc.symm.trans hg.crypto)
        rw [limits.oneRtt_eq]
        exact hroom.trans_le h.phase
      rw [hq.crypto] at hc
      exact hroom.trans_le ((h.early hc).2.trans limits.zeroRtt_large)
    have hc' := hq.early _ _ (hc.resolve_right fun hz => hspace (hz.2 ▸ rfl))
    exact lt_of_le_of_ne (hlim hspace rfl key hc') (hearly hspace key hc')
  | update hspace _ hu =>
    subst hspace
    obtain ⟨next, old, hnext, hold, rfl⟩ := hu.keys
    have hd := h.updated hnext hold none false
    refine hd.sealPacket ha hkey' ((hd.sealed_le hkey').trans_lt ?_)
    obtain ⟨g, hg⟩ := hd.wf.hasKeys (congrArg KeySpace.crypto updated_data)
    obtain rfl : key = .oneRtt g := by
      unfold sealingKey at hkey'
      rw [hg.crypto] at hkey'
      exact (some.inj hkey').symm
    rw [updated_data, limits.oneRtt_eq]
    exact (Nat.succ_pos 999).trans_le limits.oneRtt_large

theorem Counted.received {packet : Packet} (hr : Received limits c packet c') : Counted limits c' sealed := by
  have hwf := hr.wf h.wf
  cases hr with
  | quiet hq => exact h.quiet hq
  | refused _ hs _ => exact h.same hwf hs
  | @opened d e c' r ho hd he hn =>
    have hcd : Counted limits d sealed := by
      rcases acknowledgeUpdate_inv hd with rfl | ⟨-, prev, hprev, rfl⟩
      · exact h
      · exact h.congr (h.wf.confirmed hprev r.number) rfl (fun _ _ => id) (fun _ => rfl) rfl rfl
    have hce : Counted limits e sealed := by
      rcases followUpdate_inv he with ⟨-, rfl⟩ | ⟨-, next, old, hnext, hold, rfl⟩
      · exact hcd
      have hup : Counted limits (d.updated limits next old (some r.number) true) sealed := hcd.updated hnext hold _ _
      exact hup.congr (hup.wf.arm (by rw [updated_data]; exact nofun)) rfl (fun _ _ => id) (fun _ => rfl) rfl rfl
    exact hce.same hwf hn.toSameKeys

theorem Counted.builds {out : Option Packet} (hb : Builds limits c c' space out)
    (hdata : space = .data → InPhase c) (hearly : space ≠ .data → OffLimit limits c space) :
    Counted limits c' (count sealed out) := by
  rcases hb with ⟨rfl, hp⟩ | ⟨packet, rfl, hb⟩
  · cases hp with
    | keep hq _ _ => exact h.quiet hq
  · exact h.built hb hdata hearly

theorem Counted.dataKeys (hno : NoKeys c) : Counted limits (c.upgradeCrypto .data (.oneRtt 0)) sealed := by
  have hfresh : ∀ k, sealed (.oneRtt k) = 0 := fun k => h.fresh k (hno.session.le.trans (Nat.le_add_left 1 k))
  refine ⟨h.wf.dataKeys hno.highestSpace, h.bound, h.initial, h.handshake, nofun, fun g _ => ?_, h.freshInitial,
    fun k _ => hfresh k, h.phase⟩
  rw [hfresh g]
  exact zero_le

theorem Counted.step {out : Option Packet}
    (hpaced : Paced limits ⟨c, sealed⟩ e) (hs : Stepped limits c e c' out) : Counted limits c' (count sealed out) := by
  have hwf := hs.wf h.wf
  cases hs with
  | quiet hq => exact h.quiet hq
  | update hu =>
    obtain ⟨next, old, hnext, hold, rfl⟩ := hu.keys
    exact h.updated hnext hold none false
  | @transmit d c' space draw out hq hst hb =>
    have hd : Counted limits d.answered sealed :=
      (h.quiet hq).congr (hq.wf h.wf).answered rfl (fun _ _ => id) (fun _ => rfl) rfl rfl
    refine hd.builds hb (fun hspace => ?_) fun hspace key hkey => ?_
    · subst hspace
      have hph : InPhase c := hpaced
      simpa [InPhase, answered, hq.sentWithKeys, hq.keyPhaseSize, hq.prevCrypto, hst] using hph
    · have hoff : OffLimit limits c space := by
        cases space with
        | data => exact absurd rfl hspace
        | initial | handshake => exact hpaced
      have hne := hoff key (hq.early space key hkey)
      rwa [← hq.sentWithKeys space] at hne
  | probe hb => exact h.builds hb (fun _ => hpaced) fun hne => absurd rfl hne
  | receive hr => exact h.received hr
  | discard _ => exact h.congr hwf rfl (fun _ _ => id) (fun _ => rfl) rfl rfl
  | handshakeKeys hh =>
    exact { h with wf := hwf }
  | dataKeys hh => exact h.dataKeys (h.wf.noKeys hh)
  | flight hh =>
    have hw := h.wf.handshakeKeys hh
    have hmid : Counted limits (c.upgradeCrypto .handshake .handshake) sealed :=
      { h with wf := hw }
    exact (hmid.dataKeys (hw.noKeys nofun)).congr hwf rfl (fun _ _ => id) (fun _ => rfl) rfl rfl
  | @retry token attempt total state hkey =>
    have hzero := h.freshInitial attempt (attempt + 1) hkey (lt_add_one _)
    refine { h with wf := hwf, initial := fun a ha => ?_, freshInitial := fun a b ha hab => ?_ }
    · obtain rfl := KeyId.initial.inj (some.inj ha)
      exact hzero.le
    · obtain rfl := KeyId.initial.inj (some.inj ha)
      exact h.freshInitial attempt b hkey (Nat.lt_of_succ_lt hab)

end

theorem counted_start {m : Metered} (h : Start m) : Counted limits m.conn m.sealed := by
  obtain ⟨side, setup⟩ := h
  have hsize : 10 + setup.phase % 990 ≤ 1000 := by omega
  exact ⟨wf_new side setup, fun _ => zero_le, fun _ _ => zero_le, zero_le,
    fun _ => ⟨zero_le, hsize⟩, fun _ _ => zero_le, fun _ _ _ _ => rfl, fun _ _ => rfl,
    hsize.trans limits.oneRtt_large⟩

theorem counted_step {m m' : Metered} (h : Counted limits m.conn m.sealed) (hp : Paced limits m e)
    (hs : m.step limits e = some m') : Counted limits m'.conn m'.sealed := by
  obtain ⟨⟨conn, out⟩, hconn, rfl⟩ := map_eq_some_iff.mp hs
  exact h.step hp (step_inv hconn)

/-- In no run are more packets sealed under a key than its confidentiality limit allows, if packets are built in the
    data space only while the phase lasts or the keys can be updated, and in an early space never at the limit. -/
theorem confidentiality_limit_kept (limits : AeadLimits) {m : Metered}
    (h : Reaches (step limits) (Paced limits) Start m) (key : KeyId) :
    m.sealed key ≤ limits.confidentialityLimit key := by
  have hcounted : Counted limits m.conn m.sealed :=
    h.invariant (fun _ hs => counted_start hs) fun _ _ _ hc hp hs => counted_step hc hp hs
  exact hcounted.bound key

def aesLimits : AeadLimits := ⟨fun _ => 2 ^ 23, fun _ => 2 ^ 52, fun _ => rfl, by decide, by decide⟩

/-- A connection of QUIC version 1 without early data; the first number to be skipped is 63. -/
def plainSetup : Setup := ⟨⟨true, 1, 443⟩, [], [], 1, [], false, 0, 63⟩

def client : Metered := ⟨KeyedConnection.new .client plainSetup, fun _ => 0⟩

theorem client_start : Start client := .intro .client plainSetup

def pacedRun : List KeyEvent :=
  [.transmit .initial 0, .upgradeCrypto, .transmit .handshake 0, .upgradeCrypto, .establish] ++
    List.replicate 12 (.transmit .data 0)

theorem confidentiality_limit_kept_updated : ∃ m, Reaches (step aesLimits) (Paced aesLimits) Start m ∧
    m.sealed (.oneRtt 0) = 10 ∧ m.sealed (.oneRtt 1) = 2 ∧ ∀ key, m.sealed key ≤ 2 ^ 23 := by
  obtain ⟨m, hr, h₀, h₁⟩ : ∃ m, Reaches (step aesLimits) (Paced aesLimits) Start m ∧
      m.sealed (.oneRtt 0) = 10 ∧ m.sealed (.oneRtt 1) = 2 :=
    Reaches.exists_of_runFrom (.start client_start) pacedRun (by decide +kernel)
  exact ⟨m, hr, h₀, h₁, confidentiality_limit_kept aesLimits hr⟩

variable {key : KeyId}

theorem seals_many {P : Nat → KeyedConnection → Prop} {bound : Nat}
    (hP : ∀ n c, n < bound → P n c → ∃ c' header n', c.step limits e = some (c', some ⟨header, some (key, n'), true⟩) ∧
      P (n + 1) c') {m : Metered} (h : Reaches (step limits) (fun _ _ => True) Start m) (h₀ : P 0 m.conn) :
    ∀ n ≤ bound, ∃ m', Reaches (step limits) (fun _ _ => True) Start m' ∧ m'.sealed key = m.sealed key + n ∧ P n m'.conn
  | 0, _ => ⟨m, h, rfl, h₀⟩
  | n + 1, hn => by
    obtain ⟨m', hr, hcnt, hm'⟩ := seals_many hP h h₀ n (Nat.le_of_succ_le hn)
    obtain ⟨c', header, n', hstep, hc'⟩ := hP n m'.conn hn hm'
    refine ⟨⟨c', count m'.sealed (some ⟨header, some (key, n'), true⟩)⟩, .next e hr trivial ?_, ?_, hc'⟩
    · rw [step, hstep]
      rfl
    · show update m'.sealed key (m'.sealed key + 1) key = m.sealed key + (n + 1)
      rw [update_self, hcnt, add_assoc]

theorem packetNumber_new (n : Nat) : ∃ number, PacketNumber.new n 0 = some number := by
  unfold PacketNumber.new
  simp only [checkedSub_of_le (Nat.zero_le n)]
  dsimp only [bind, Option.bind]
  split
  · exact ⟨_, rfl⟩
  split
  · exact ⟨_, rfl⟩
  split
  · exact ⟨_, rfl⟩
  · exact ⟨_, rfl⟩

/-- A space in which at most `2 * n` packet numbers were used, none of them acknowledged, and its key. -/
structure Busy (space : SpaceId) (key : KeyId) (n : Nat) (c : KeyedConnection) : Prop where
  crypto : (c.spaces space).crypto = some key
  nextPacketNumber : (c.spaces space).nextPacketNumber ≤ 2 * n
  largestAckedPacket : (c.spaces space).largestAckedPacket = none

theorem getTxNumber_of_lt {space : KeySpace} (h : space.nextPacketNumber < 2 ^ 62) :
    space.getTxNumber = some (space.nextPacketNumber, { space with nextPacketNumber := space.nextPacketNumber + 1
                                                                   sentWithKeys := space.sentWithKeys + 1 }) :=
  if_pos h

theorem Busy.allocate {space : SpaceId} {n : Nat} (h : Busy space key n c) (draw : Nat) (hn : n < 2 ^ 60) :
    ∃ m c', c.allocateNumber space draw = some (m, c') ∧ Busy space key (n + 1) c' ∧
      (space ≠ .data → (c'.spaces space).sentWithKeys = (c.spaces space).sentWithKeys + 1) ∧
      c'.prevCrypto = c.prevCrypto := by
  have hnext := h.nextPacketNumber
  have hfst : (c.spaces space).getTxNumber = some _ := getTxNumber_of_lt (by omega)
  unfold allocateNumber
  by_cases hspace : space = .data
  · subst hspace
    rw [if_pos rfl]
    unfold PacketNumberFilter.allocate
    simp only [hfst]
    dsimp only [bind, Option.bind]
    split
    · refine ⟨_, _, rfl, ⟨?_, ?_, ?_⟩, fun hne => absurd rfl hne, rfl⟩
      · exact h.crypto
      · show (c.spaces .data).nextPacketNumber + 1 ≤ 2 * (n + 1)
        omega
      · exact h.largestAckedPacket
    rw [getTxNumber_of_lt (by show (c.spaces .data).nextPacketNumber + 1 < 2 ^ 62; omega)]
    refine ⟨_, _, rfl, ⟨?_, ?_, ?_⟩, fun hne => absurd rfl hne, rfl⟩
    · exact h.crypto
    · show (c.spaces .data).nextPacketNumber + 1 + 1 ≤ 2 * (n + 1)
      omega
    · exact h.largestAckedPacket
  rw [if_neg hspace, hfst]
  refine ⟨_, _, rfl, ⟨?_, ?_, ?_⟩, fun _ => ?_, rfl⟩ <;> rw [setSpace_same]
  · exact h.crypto
  · show (c.spaces space).nextPacketNumber + 1 ≤ 2 * (n + 1)
    omega
  · exact h.largestAckedPacket

theorem Busy.sealPacket {space : SpaceId} {n : Nat} (h : Busy space key n c) (draw : Nat) (hn : n < 2 ^ 60) :
    ∃ c' header n', c.sealPacket space draw = some (c', some ⟨header, some (key, n'), true⟩) ∧ Busy space key (n + 1) c' ∧
      (space ≠ .data → (c'.spaces space).sentWithKeys = (c.spaces space).sentWithKeys + 1) ∧
      c'.prevCrypto = c.prevCrypto := by
  obtain ⟨m, c', halloc, hbusy, hsent, hprev⟩ := h.allocate draw hn
  obtain ⟨number, hnum⟩ := packetNumber_new m
  have hkey : c'.sealingKey space = some key := by
    unfold sealingKey
    rw [hbusy.crypto]
  refine ⟨c', c'.header space number.onWire, m, ?_, hbusy, hsent, hprev⟩
  unfold KeyedConnection.sealPacket
  simp only [halloc]
  dsimp only [bind, Option.bind]
  rw [hbusy.largestAckedPacket, Option.getD_none, hnum, hkey]

theorem buildPacket_of_prepared {d : KeyedConnection} {draw : Nat}
    (h : c.prepareKeys limits space = some (d, true)) : c.buildPacket limits space draw = d.sealPacket space draw := by
  unfold buildPacket
  rw [h]
  rfl

theorem transmit_initial (hn : n < 2 ^ 23 + 1) (h : Busy .initial (.initial 0) n c ∧ (c.spaces .initial).sentWithKeys = n) :
    ∃ c' header n', c.step aesLimits (.transmit .initial 0) = some (c', some ⟨header, some (.initial 0, n'), true⟩) ∧
      Busy .initial (.initial 0) (n + 1) c' ∧ (c'.spaces .initial).sentWithKeys = n + 1 := by
  obtain ⟨hbusy, hsent⟩ := h
  have hprep : ∃ d, c.answered.prepareKeys aesLimits .initial = some (d, true) ∧ d.spaces = c.spaces := by
    have hkey : (c.answered.spaces .initial).crypto = some (.initial 0) := hbusy.crypto
    unfold prepareKeys
    rw [if_neg nofun, hkey, some_or, map_some]
    unfold checkLimit
    split
    · refine ⟨_, rfl, ?_⟩
      unfold closeInner
      split <;> rfl
    split
    · next hover =>
      have hlim : 2 ^ 23 < (c.spaces .initial).sentWithKeys := hover
      omega
    · exact ⟨_, rfl, rfl⟩
  obtain ⟨d, hd, hspcs⟩ := hprep
  have hbusy' : Busy .initial (.initial 0) n d :=
    ⟨hspcs ▸ hbusy.crypto, hspcs ▸ hbusy.nextPacketNumber, hspcs ▸ hbusy.largestAckedPacket⟩
  obtain ⟨c', header, n', hseal, hc', hcnt, -⟩ := hbusy'.sealPacket 0 (by omega)
  refine ⟨c', header, n', ?_, hc', ?_⟩
  · have hstop : c.stopInitial .client .initial = c := if_neg fun hs => nomatch hs.2.1
    show (c.stopInitial .client .initial).answered.buildPacket aesLimits .initial 0 = _
    rw [hstop, buildPacket_of_prepared hd, hseal]
  · rw [hcnt nofun, hspcs, hsent]

theorem transmit_data (hn : n < 2 ^ 23 + 1) (h : Busy .data (.oneRtt 1) n c ∧ c.prevCrypto.isSome = true) :
    ∃ c' header n', c.step aesLimits (.transmit .data 0) = some (c', some ⟨header, some (.oneRtt 1, n'), true⟩) ∧
      Busy .data (.oneRtt 1) (n + 1) c' ∧ c'.prevCrypto.isSome = true := by
  obtain ⟨hbusy, hprev⟩ := h
  have hprev' : c.answered.prevCrypto.isSome = true := by simpa [answered] using hprev
  have hprep : c.answered.prepareKeys aesLimits .data = some (c.answered, true) := by
    unfold prepareKeys forceKeyUpdate
    rw [if_pos rfl, if_pos hprev', ite_self, map_some, ite_self]
  have hbusy' : Busy .data (.oneRtt 1) n c.answered := { hbusy with }
  obtain ⟨c', header, n', hseal, hc', -, hkept⟩ := hbusy'.sealPacket 0 (by omega)
  refine ⟨c', header, n', ?_, hc', hkept ▸ hprev'⟩
  have hstop : c.stopInitial .client .data = c := if_neg fun hs => nomatch hs.2.1
  show (c.stopInitial .client .data).answered.buildPacket aesLimits .data 0 = _
  rw [hstop, buildPacket_of_prepared hprep, hseal]

/-- A client seals one Initial packet more than the limit allows, and so it does with data packets while a key update
    of its own is not confirmed. -/
theorem confidentiality_limit_exceeded :
    (∃ m, Reaches (step aesLimits) (fun _ _ => True) Start m ∧
      aesLimits.confidentialityLimit (.initial 0) < m.sealed (.initial 0)) ∧
    ∃ m, Reaches (step aesLimits) (fun _ _ => True) Start m ∧
      aesLimits.confidentialityLimit (.oneRtt 1) < m.sealed (.oneRtt 1) := by
  constructor
  · obtain ⟨m, hr, hcount, -⟩ := seals_many (fun _ _ hn hc => transmit_initial hn hc) (.start client_start)
      ⟨⟨rfl, le_rfl, rfl⟩, rfl⟩ _ (le_refl (2 ^ 23 + 1))
    exact ⟨m, hr, by rw [hcount]; decide⟩
  · obtain ⟨m₀, hr₀, ⟨hcrypto, hnext, hacked⟩, hprev, hzero⟩ : ∃ m, Reaches (step aesLimits) (fun _ _ => True) Start m ∧
        ((m.conn.spaces .data).crypto = some (.oneRtt 1) ∧ (m.conn.spaces .data).nextPacketNumber = 0 ∧
          (m.conn.spaces .data).largestAckedPacket = none) ∧ m.conn.prevCrypto.isSome ∧ m.sealed (.oneRtt 1) = 0 :=
      Reaches.exists_of_runFrom (.start client_start) [.upgradeCrypto, .upgradeCrypto, .establish, .forceKeyUpdate]
        (by decide +kernel)
    obtain ⟨m, hr, hcount, -⟩ := seals_many (fun _ _ hn hc => transmit_data hn hc) hr₀ ⟨⟨hcrypto, hnext.le, hacked⟩, hprev⟩ _
      (le_refl (2 ^ 23 + 1))
    exact ⟨m, hr, by rw [hcount, hzero]; decide⟩

end Metered

/-! Packets that are not authentic: Version Negotiation and Retry packets, and those that open under no key. After the
    first authentic packet they change nothing but a counter. -/

open Header

namespace KeyedConnection
variable {limits : AeadLimits} {handlers : Handlers} {c : KeyedConnection} {remote : SocketAddr} {packet : Packet}
  {payload : Payload}

def Authentic (c : KeyedConnection) (packet : Packet) : Prop :=
  ∃ truncated key update, packet.header.number = some truncated ∧
    c.openingKey packet.header (truncated.expand ((c.spaces packet.header.space).rxPacket + 1)) = some (key, update) ∧
    packet.decrypt key (truncated.expand ((c.spaces packet.header.space).rxPacket + 1)) = true

/-- The keys that the program counts on: those of the highest space, and with 1-RTT keys those of the next phase. -/
structure Keyed (c : KeyedConnection) : Prop where
  highest : ((c.spaces c.highestSpace).crypto).isSome = true
  next : (c.spaces .data).crypto.isSome = true → c.nextCrypto.isSome = true

structure Visible where
  state : State
  error : Option ConnectionError
  close : Bool
  deriving DecidableEq

def visible (c : KeyedConnection) : Visible := ⟨c.state, c.error, c.close⟩

def emptyPayload : TransportError := ⟨.protocolViolation, "packet payload is empty"⟩

/-- When a packet without protection does nothing. A server in its handshake gets no Retry packet from the path's
    address. A closed connection keeps its close flag only if that says whether the packet comes from the path's address,
    and it looks for frames in the payload: none closes the connection, and an empty payload finds its error made before. -/
def Guarded (c : KeyedConnection) (remote : SocketAddr) (header : Header) (payload : Payload) : Prop :=
  header.isProtected = false →
    match c.state with
    | .closed reason => c.close = decide (remote = c.remote) ∧
        if payload.bytes = [] then reason = emptyPayload.toClose ∧ c.error = some (.transportError emptyPayload)
        else ∀ close, .close close ∉ payload.frames
    | .handshake _ => (∃ srcCid, header = .retry srcCid) → c.side = .server → remote ≠ c.remote
    | _ => True

theorem drainAtClose_eq (frames : List FrameResult) :
    c.drainAtClose frames = c ∧ (∀ close, .close close ∉ frames) ∨
      c.drainAtClose frames = { c with state := .draining } ∧ ∃ close, .close close ∈ frames := by
  induction frames with
  | nil => exact .inl ⟨rfl, fun _ => List.not_mem_nil⟩
  | cons frame rest ih =>
    cases frame with
    | close reason => exact .inr ⟨rfl, reason, List.mem_cons_self⟩
    | padding | other | invalid =>
      refine ih.imp (fun h => ⟨h.1, fun close hmem => h.2 close ?_⟩) fun h => ⟨h.1, h.2.imp fun _ => List.mem_cons_of_mem _⟩
      simpa using hmem

theorem handleDecode_unprotected {process : Process} (hhdr : packet.header.isProtected = false) :
    c.handleDecode limits process remote packet false =
      if c.state.isHandshake = true ∧ remote ≠ c.remote then some c
      else (process c remote none packet).bind fun (c', result) => c'.afterPacket c.state.isClosed remote result := by
  have hread : c.unprotectHeader packet.header = true := by
    cases hh : packet.header <;> simp_all [isProtected, unprotectHeader, is0rtt]
  have hshort : packet.header.isShort = false := by
    cases hh : packet.header <;> simp_all [isProtected, isShort]
  have htoken : c.invalidToken packet.header = false := by
    cases hh : packet.header <;> simp_all [isProtected, invalidToken]
  have hopen : c.decryptPacket limits packet = some (c, .ok none) := by
    simp [decryptPacket, decryptPacketBody, hhdr]
  simp only [handleDecode, hread, handlePacket, hopen, acceptPacket, recordSeen, hshort, htoken, processPacket,
    Bool.false_eq_true, and_false, ↓reduceIte, isSome_none, bind, bind_some]

/-- What a packet without protection leaves behind, and that `Guarded` says exactly when that is nothing. -/
theorem handleDecode_unprotected_effect (hauth : 0 < c.totalAuthedPackets) (hhdr : packet.header.isProtected = false) :
    ∃ c', c.handleDecode limits (processDecryptedPacket handlers payload) remote packet false = some c' ∧
      (Guarded c remote packet.header payload → c' = c) ∧ (c'.visible = c.visible → Guarded c remote packet.header payload) := by
  rw [handleDecode_unprotected hhdr]
  unfold processDecryptedPacket Guarded
  simp only [hhdr, forall_const]
  cases hst : c.state with
  | established =>
    refine ⟨c, ?_, fun _ => rfl, fun _ => trivial⟩
    cases hh : packet.header <;> simp_all [isProtected, space, hasFrames, afterPacket, State.isHandshake]
  | draining | drained => exact ⟨c, by simp [afterPacket, hst, State.isHandshake, State.isClosed], fun _ => rfl, fun _ => trivial⟩
  | closed reason =>
    simp only [State.isHandshake, Bool.false_eq_true, false_and, ↓reduceIte, bind_some, processClosed]
    by_cases hempty : payload.bytes = []
    · -- The error is made again, and with it the state.
      refine ⟨{ c with error := some (.transportError emptyPayload), close := decide (remote = c.remote),
                       state := .closed emptyPayload.toClose }, ?_, ?_, ?_⟩
      · simp [hempty, afterPacket, ConnectionError.toState, emptyPayload, State.isClosed]
      · rintro ⟨hclose, hmade⟩
        rw [if_pos hempty] at hmade
        rw [← hclose, ← hmade.1, ← hmade.2, ← hst]
      · intro hsame
        simp only [visible, Visible.mk.injEq, hst, State.closed.injEq] at hsame
        exact ⟨hsame.2.2.symm, by rw [if_pos hempty]; exact ⟨hsame.1.symm, hsame.2.1.symm⟩⟩
    rcases c.drainAtClose_eq payload.frames with ⟨hdrain, hnone⟩ | ⟨hdrain, close, hmem⟩
    · refine ⟨{ c with close := decide (remote = c.remote) }, ?_, fun hguard => by rw [← hguard.1], fun hsame => ?_⟩
      · simp [hempty, hdrain, afterPacket, hst, State.isClosed]
      · simp only [visible, Visible.mk.injEq] at hsame
        exact ⟨hsame.2.2.symm, by rw [if_neg hempty]; exact hnone⟩
    · refine ⟨{ c with state := .draining }, ?_, fun hguard => ?_, fun hsame => ?_⟩
      · simp [hempty, hdrain, afterPacket, State.isClosed]
      · rw [if_neg hempty] at hguard
        exact absurd hmem (hguard.2 close)
      · simp [visible, hst] at hsame
  | handshake handshake =>
    by_cases hremote : remote = c.remote
    · simp only [State.isHandshake, hremote, ne_eq, not_true_eq_false, and_false, ↓reduceIte]
      cases hh : packet.header with
      | versionNegotiate =>
        refine ⟨c, ?_, fun _ => rfl, ?_⟩
        · simp [processVersionNegotiate, hauth, afterPacket, hst]
        · rintro - ⟨_, ⟨⟩⟩
      | retry srcCid =>
        by_cases hside : c.side = .server
        · refine ⟨{ c with error := some (.transportError ⟨.protocolViolation, "client sent Retry"⟩), close := true,
                           keyDiscard := false, state := .closed (TransportError.toClose ⟨.protocolViolation, "client sent Retry"⟩) },
            ?_, fun hguard => (hguard ⟨srcCid, rfl⟩ hside).elim, fun hsame => ?_⟩
          · simp [processRetry, hside, afterPacket, ConnectionError.toState, State.isClosed, closeCommon]
          · simp [visible, hst] at hsame
        · refine ⟨c, ?_, fun _ => rfl, fun _ _ hserver => absurd hserver hside⟩
          simp [processRetry, hside, hauth, afterPacket, hst]
      | _ => simp [hh, isProtected] at hhdr
    · exact ⟨c, by simp [State.isHandshake, hremote], fun _ => rfl, fun _ _ _ => hremote⟩

theorem Keyed.openingKey (hk : Keyed c) {header : Header} (hhdr : header.isProtected = true)
    (h : c.unprotectHeader header = true) (number : Nat) : (c.openingKey header number).isSome = true := by
  unfold unprotectHeader at h
  unfold KeyedConnection.openingKey
  by_cases h0 : header.is0rtt = true
  · rw [if_pos h0] at h ⊢
    rw [if_pos h]
    rfl
  rw [if_neg h0, hhdr] at h
  rw [if_neg h0]
  have hcry : (c.spaces header.space).crypto.isSome = true := by simpa using h
  by_cases hph : header.keyPhase = c.keyPhase ∨ header.space ≠ .data
  · rw [if_pos hph, isSome_map]
    exact hcry
  rw [if_neg hph]
  have hdata : header.space = .data := by
    by_contra hne
    exact hph (.inr hne)
  split
  · rfl
  rw [isSome_map]
  exact hk.next (hdata ▸ hcry)

/-- A packet that is not authentic is not opened; for want of a key the program stops. -/
theorem decryptPacketBody_of_not_authentic (hun : ¬ c.Authentic packet) (hhdr : packet.header.isProtected = true) :
    c.decryptPacketBody packet = some (.error none) ∨
      (c.decryptPacketBody packet = none ∧ ∃ number, c.openingKey packet.header number = none) := by
  unfold decryptPacketBody
  simp only [hhdr, Bool.not_true, Bool.false_eq_true, ↓reduceIte]
  split
  · exact .inl rfl
  next truncated hnum =>
  cases hkey : c.openingKey packet.header (truncated.expand ((c.spaces packet.header.space).rxPacket + 1)) with
  | none => exact .inr ⟨rfl, _, hkey⟩
  | some result =>
    have hdecrypt : packet.decrypt result.1 (truncated.expand ((c.spaces packet.header.space).rxPacket + 1)) = false := by
      rw [Bool.eq_false_iff]
      exact fun htrue => hun ⟨truncated, result.1, result.2, hnum, hkey, htrue⟩
    left
    simp [hdecrypt, bind]

theorem rejectPacket_none (hlim : ∀ key ∈ (c.spaces c.highestSpace).crypto, c.authenticationFailures < limits.integrityLimit key) :
    c.rejectPacket limits remote none =
      (c.spaces c.highestSpace).crypto.map fun _ => { c with authenticationFailures := c.authenticationFailures + 1 } := by
  cases hkey : (c.spaces c.highestSpace).crypto with
  | none => simp [rejectPacket, hkey]
  | some key =>
    have hle : ¬ limits.integrityLimit key < c.authenticationFailures + 1 := not_lt.mpr (hlim key hkey)
    simp only [rejectPacket, hkey, bind, bind_some, if_neg hle, map_some]

inductive Dropped (c : KeyedConnection) : Option KeyedConnection → Prop
  | ignored : Dropped c (some c)
  | counted : Dropped c (some { c with authenticationFailures := c.authenticationFailures + 1 })
  | crashed : ¬ Keyed c → Dropped c none

theorem handleDecode_dropped (hun : ¬ c.Authentic packet) (hhdr : packet.header.isProtected = true)
    (hlim : ∀ key ∈ (c.spaces c.highestSpace).crypto, c.authenticationFailures < limits.integrityLimit key) :
    Dropped c (c.handleDecode limits (processDecryptedPacket handlers payload) remote packet false) := by
  unfold handleDecode
  split
  · next hread =>
    unfold handlePacket
    split
    · exact .ignored
    simp only [Bool.false_eq_true, ↓reduceIte]
    rcases decryptPacketBody_of_not_authentic hun hhdr with hbody | ⟨hbody, number, hkey⟩
    · have hopen : c.decryptPacket limits packet = some (c, .error none) := by
        unfold decryptPacket
        rw [hbody]
        rfl
      rw [hopen]
      simp only [bind, bind_some, rejectPacket_none hlim]
      cases hcry : (c.spaces c.highestSpace).crypto with
      | none => exact .crashed fun hk => by simpa [hcry] using hk.highest
      | some key => exact .counted
    have hopen : c.decryptPacket limits packet = none := by
      unfold decryptPacket
      rw [hbody]
      rfl
    rw [hopen]
    refine .crashed fun hk => ?_
    have hsome := hk.openingKey hhdr hread number
    rw [hkey] at hsome
    cases hsome
  · exact .ignored

/-- After the first authentic packet, a packet that is not authentic leaves the state, the error and whether a close frame
    is to be sent as they are exactly on the conditions of `Guarded`; it then changes nothing but the count of such packets. -/
theorem unauthenticated_inert (limits : AeadLimits) (handlers : Handlers) (c : KeyedConnection) (remote : SocketAddr)
    (packet : Packet) (payload : Payload) (hauthed : 0 < c.totalAuthedPackets) (hun : ¬ c.Authentic packet)
    (hlimit : ∀ key ∈ (c.spaces c.highestSpace).crypto, c.authenticationFailures < limits.integrityLimit key) :
    ((∀ c', c.handleDecode limits (processDecryptedPacket handlers payload) remote packet false = some c' →
        c'.state = c.state ∧ c'.error = c.error ∧ c'.close = c.close) ↔ Guarded c remote packet.header payload) ∧
    (Guarded c remote packet.header payload →
      ∀ c', c.handleDecode limits (processDecryptedPacket handlers payload) remote packet false = some c' →
        c' = { c with authenticationFailures := c'.authenticationFailures }) ∧
    (Keyed c → ∃ c', c.handleDecode limits (processDecryptedPacket handlers payload) remote packet false = some c') := by
  cases hhdr : packet.header.isProtected with
  | false =>
    obtain ⟨c', hc', hsame, hguard⟩ := @handleDecode_unprotected_effect limits handlers c remote packet payload hauthed hhdr
    rw [hc']
    refine ⟨⟨fun h => hguard ?_, fun hg => ?_⟩, fun hg => ?_, fun _ => ⟨c', rfl⟩⟩
    · obtain ⟨hstate, herror, hclose⟩ := h c' rfl
      rw [visible, hstate, herror, hclose, visible]
    · rintro _ ⟨⟩
      exact hsame hg ▸ ⟨rfl, rfl, rfl⟩
    · rintro _ ⟨⟩
      rw [hsame hg]
  | true =>
    have hg : Guarded c remote packet.header payload := fun hopen => by simp [hhdr] at hopen
    have hdropped := @handleDecode_dropped limits handlers c remote packet payload hun hhdr hlimit
    generalize c.handleDecode limits (processDecryptedPacket handlers payload) remote packet false = result at hdropped
    cases hdropped with
    | ignored | counted =>
      refine ⟨⟨fun _ => hg, fun _ => ?_⟩, fun _ => ?_, fun _ => ⟨_, rfl⟩⟩
      · rintro _ ⟨⟩
        exact ⟨rfl, rfl, rfl⟩
      · rintro _ ⟨⟩
        rfl
    | crashed hk =>
      refine ⟨⟨fun _ => hg, fun _ => ?_⟩, fun _ => ?_, fun hkeyed => absurd hkeyed hk⟩ <;> rintro _ ⟨⟩

def idleHandlers : Handlers where
  processPayload self _ _ _ _ := some (self, .ok ())
  processEarlyPayload self _ _ := some (self, .ok ())
  isHandshaking _ _ := true
  serverParams self := some (self, .ok ())
  clientParams self := some (self, .ok ())

def firstInitial : Packet := ⟨.initial [] [] (.u8 0), some (.initial 0, 0), true⟩

def versionNegotiation : Packet := ⟨.versionNegotiate, none, true⟩

def retryPacket : Packet := ⟨.retry [], none, true⟩

def handled (c : KeyedConnection) (remote : SocketAddr) (packet : Packet) (payload : Payload) : Option Visible :=
  (c.handleDecode Metered.aesLimits (processDecryptedPacket idleHandlers payload) remote packet false).map visible

theorem not_authentic_versionNegotiation (c : KeyedConnection) : ¬ c.Authentic versionNegotiation := by
  rintro ⟨_, _, _, hnum, -, -⟩
  cases hnum

theorem unauthenticated_inert_client : ∃ c : KeyedConnection, 0 < c.totalAuthedPackets ∧ c.state.isHandshake = true ∧
    ∃ c', c.handleDecode Metered.aesLimits (processDecryptedPacket idleHandlers ⟨[], [], false⟩) c.remote
      versionNegotiation false = some c' ∧ c'.state = c.state ∧ c'.error = c.error ∧ c'.close = c.close := by
  have hrun : (Metered.client.conn.step Metered.aesLimits (.receive firstInitial)).map (fun r =>
      (r.1.totalAuthedPackets, r.1.state, (r.1.spaces r.1.highestSpace).crypto, (r.1.spaces .data).crypto,
        r.1.authenticationFailures)) =
      some (1, .handshake ⟨false, [], some []⟩, some (.initial 0), none, 0) := by decide +kernel
  obtain ⟨⟨c, out⟩, -, hfacts⟩ := map_eq_some_iff.mp hrun
  simp only [Prod.mk.injEq] at hfacts
  obtain ⟨hauthed, hstate, hkey, hdata, hfailures⟩ := hfacts
  have hpos := hauthed ▸ Nat.one_pos
  obtain ⟨hinert, -, hreturns⟩ := unauthenticated_inert Metered.aesLimits idleHandlers c c.remote versionNegotiation
    ⟨[], [], false⟩ hpos (not_authentic_versionNegotiation c) fun key _ => by rw [hfailures]; exact Nat.two_pow_pos 52
  obtain ⟨c', hc'⟩ := hreturns ⟨by rw [hkey]; rfl, fun h => by rw [hdata] at h; cases h⟩
  have hguard : Guarded c c.remote versionNegotiation.header ⟨[], [], false⟩ := by
    simp [Guarded, hstate, versionNegotiation]
  exact ⟨c, hpos, by rw [hstate]; rfl, c', hc', hinert.mpr hguard c' hc'⟩

def bye : Close := .application ⟨0, []⟩

/-- A Retry packet closes a server in its handshake. A Version Negotiation packet takes a closed client's close frame
    back, replaces its error, or ends it. -/
theorem unauthenticated_effect :
    (∃ m, Reaches (Metered.step Metered.aesLimits) (fun _ _ => True) Metered.Start m ∧ 0 < m.conn.totalAuthedPackets ∧
      m.conn.state.isHandshake = true ∧ handled m.conn m.conn.remote retryPacket ⟨[], [], false⟩ =
        some ⟨.closed (.connection ⟨.protocolViolation, "client sent Retry"⟩),
          some (.transportError ⟨.protocolViolation, "client sent Retry"⟩), true⟩) ∧
    ∃ m, Reaches (Metered.step Metered.aesLimits) (fun _ _ => True) Metered.Start m ∧ 0 < m.conn.totalAuthedPackets ∧
      visible m.conn = ⟨.closed bye, none, true⟩ ∧
      handled m.conn ⟨true, 2, 443⟩ versionNegotiation ⟨[0], [.padding], false⟩ = some ⟨.closed bye, none, false⟩ ∧
      handled m.conn m.conn.remote versionNegotiation ⟨[], [], false⟩ =
        some ⟨.closed (.connection ⟨.protocolViolation, "packet payload is empty"⟩),
          some (.transportError ⟨.protocolViolation, "packet payload is empty"⟩), true⟩ ∧
      handled m.conn m.conn.remote versionNegotiation ⟨[0x1c, 0, 0, 0], [.close (.connection ⟨.other 0, ""⟩)], false⟩ =
        some ⟨.draining, none, true⟩ := by
  constructor
  · exact Reaches.exists_of_runFrom (.start (.intro .server Metered.plainSetup)) [.receive firstInitial] (by decide +kernel)
  · exact Reaches.exists_of_runFrom (.start Metered.client_start) [.receive firstInitial, .close bye] (by decide +kernel)

end KeyedConnection
end SaorsaTransport
