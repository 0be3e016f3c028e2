import Mathlib.Data.Nat.Bits
import SaorsaTransport.Keys

/-! What each operation does to the keys of a connection. Everything is made of a few actions: a change that the keys do
    not notice, a key update, a packet number taken, keys discarded and keys that become available. -/

namespace SaorsaTransport
open Library Option

namespace KeyedConnection
variable {limits : AeadLimits} {c c' : KeyedConnection}

def RaisedUpdateError (c : KeyedConnection) : Prop :=
  ∃ e, c.error = some (.transportError e) ∧ e.code = .keyUpdateError

def nextNumber (c : KeyedConnection) : Nat := c.packetNumberFilter.peek (c.spaces .data)

theorem setSpace_same (space : SpaceId) (value : KeySpace) : (c.setSpace space value).spaces space = value := by
  simp [setSpace]

variable {space : SpaceId} {endPacket : Option Nat} {remote : SocketAddr} {n draw number : Nat} {out : Option Packet}
    {packet : Packet} {header : Header}

theorem setSpace_other {other : SpaceId} (value : KeySpace) (h : other ≠ space) :
    (c.setSpace space value).spaces other = c.spaces other := by
  simp [setSpace, h]

structure SameKeys (c c' : KeyedConnection) : Prop where
  side : c'.side = c.side
  crypto : (c'.spaces .data).crypto = (c.spaces .data).crypto
  early : ∀ space key, (c'.spaces space).crypto = some key → (c.spaces space).crypto = some key
  sentWithKeys : ∀ space, (c'.spaces space).sentWithKeys = (c.spaces space).sentWithKeys
  nextNumber : c'.nextNumber = c.nextNumber
  highestSpace : c'.highestSpace = c.highestSpace
  zeroRttCrypto : c'.zeroRttCrypto = c.zeroRttCrypto
  keyPhase : c'.keyPhase = c.keyPhase
  keyPhaseSize : c'.keyPhaseSize = c.keyPhaseSize
  prevCrypto : c'.prevCrypto = c.prevCrypto
  nextCrypto : c'.nextCrypto = c.nextCrypto
  session : c'.session = c.session

structure Quiet (c c' : KeyedConnection) : Prop extends SameKeys c c' where
  rxPacket : (c'.spaces .data).rxPacket = (c.spaces .data).rxPacket
  keyDiscard : c'.keyDiscard = true → c.keyDiscard = true
  error : RaisedUpdateError c' → RaisedUpdateError c

theorem SameKeys.refl (c : KeyedConnection) : SameKeys c c :=
  ⟨rfl, rfl, fun _ _ => id, fun _ => rfl, rfl, rfl, rfl, rfl, rfl, rfl, rfl, rfl⟩

theorem SameKeys.trans {d : KeyedConnection} (h : SameKeys c c') (h' : SameKeys c' d) : SameKeys c d where
  side := h'.side.trans h.side
  crypto := h'.crypto.trans h.crypto
  early space key := h.early space key ∘ h'.early space key
  sentWithKeys space := (h'.sentWithKeys space).trans (h.sentWithKeys space)
  nextNumber := h'.nextNumber.trans h.nextNumber
  highestSpace := h'.highestSpace.trans h.highestSpace
  zeroRttCrypto := h'.zeroRttCrypto.trans h.zeroRttCrypto
  keyPhase := h'.keyPhase.trans h.keyPhase
  keyPhaseSize := h'.keyPhaseSize.trans h.keyPhaseSize
  prevCrypto := h'.prevCrypto.trans h.prevCrypto
  nextCrypto := h'.nextCrypto.trans h.nextCrypto
  session := h'.session.trans h.session

theorem SameKeys.setSpace {space : SpaceId} {value : KeySpace}
    (h₁ : value.crypto = (c.spaces space).crypto ∨ (space ≠ .data ∧ value.crypto = none))
    (h₂ : value.sentWithKeys = (c.spaces space).sentWithKeys)
    (h₃ : value.nextPacketNumber = (c.spaces space).nextPacketNumber) : SameKeys c (c.setSpace space value) := by
  have hspcs : ∀ {α : Type} (f : KeySpace → α), f value = f (c.spaces space) →
      ∀ sp, f ((c.setSpace space value).spaces sp) = f (c.spaces sp) := by
    intro α f hf sp
    by_cases hsp : sp = space
    · rw [hsp, setSpace_same, hf]
    · rw [setSpace_other value hsp]
  refine ⟨rfl, ?_, ?_, hspcs KeySpace.sentWithKeys h₂, ?_, rfl, rfl, rfl, rfl, rfl, rfl, rfl⟩
  · rcases h₁ with h₁ | ⟨hne, -⟩
    · exact hspcs KeySpace.crypto h₁ .data
    · rw [setSpace_other value (Ne.symm hne)]
  · intro sp key hkey
    rcases h₁ with h₁ | ⟨-, hnone⟩
    · rwa [hspcs KeySpace.crypto h₁] at hkey
    by_cases hsp : sp = space
    · rw [hsp, setSpace_same, hnone] at hkey
      cases hkey
    · rwa [setSpace_other value hsp] at hkey
  · unfold KeyedConnection.nextNumber PacketNumberFilter.peek
    rw [hspcs KeySpace.nextPacketNumber h₃]
    rfl

namespace Quiet

theorem refl (c : KeyedConnection) : Quiet c c := ⟨.refl c, rfl, id, id⟩

theorem trans {d : KeyedConnection} (h : Quiet c c') (h' : Quiet c' d) : Quiet c d :=
  ⟨h.toSameKeys.trans h'.toSameKeys, h'.rxPacket.trans h.rxPacket, h.keyDiscard ∘ h'.keyDiscard, h.error ∘ h'.error⟩

theorem closeCommon (c : KeyedConnection) : Quiet c c.closeCommon :=
  { refl c with keyDiscard := nofun }

theorem closeInner (c : KeyedConnection) (reason : Close) : Quiet c (c.closeInner reason) := by
  unfold KeyedConnection.closeInner
  split
  · exact refl c
  · exact { refl c with keyDiscard := nofun }

theorem fail {reason : ConnectionError} {state : State} {close : Bool}
    (h : ∀ e, reason = .transportError e → e.code ≠ .keyUpdateError) :
    Quiet c { c with error := some reason, state, close } := by
  refine { refl c with error := ?_ }
  rintro ⟨e, he, hcode⟩
  exact absurd hcode (h e (some.inj he))

theorem kill {reason : ConnectionError} (h : ∀ e, reason = .transportError e → e.code ≠ .keyUpdateError) :
    Quiet c (c.kill reason) :=
  (closeCommon c).trans (fail h)

theorem discardSpace {space : SpaceId} (h : space ≠ .data) : Quiet c (c.discardSpace space) := by
  have hsame : SameKeys c (c.setSpace space { c.spaces space with crypto := none }) :=
    .setSpace (.inr ⟨h, rfl⟩) rfl rfl
  refine ⟨⟨hsame.side, hsame.crypto, hsame.early, hsame.sentWithKeys, hsame.nextNumber, rfl, rfl, rfl, rfl, rfl, rfl,
    rfl⟩, ?_, id, id⟩
  exact congrArg KeySpace.rxPacket (setSpace_other _ (Ne.symm h))

theorem stopInitial (c : KeyedConnection) (side : Side) (space : SpaceId) : Quiet c (c.stopInitial side space) := by
  unfold KeyedConnection.stopInitial
  split
  · exact discardSpace nofun
  · exact refl c

theorem finish (c : KeyedConnection) (wasClosed : Bool) (remote : SocketAddr) :
    Quiet c (let d := if !wasClosed && c.state.isClosed then c.closeCommon else c
      match d.state with
      | .closed _ => { d with close := remote = d.remote }
      | _ => d) := by
  have hstop : Quiet c (if !wasClosed && c.state.isClosed then c.closeCommon else c) := by
    split
    · exact closeCommon c
    · exact refl c
  refine hstop.trans ?_
  dsimp only
  generalize (if !wasClosed && c.state.isClosed then c.closeCommon else c) = d
  split
  · exact { Quiet.refl _ with }
  · exact refl d

end Quiet

/-! ### Updates -/

def updated (limits : AeadLimits) (c : KeyedConnection) (next old : KeyId) (endPacket : Option Nat) (remote : Bool) :
    KeyedConnection :=
  { c.setSpace .data { c.spaces .data with crypto := some next, sentWithKeys := 0 } with
    session := c.session + 1
    keyPhaseSize := limits.confidentialityLimit (.oneRtt c.session) - keyUpdateMargin
    nextCrypto := some (.oneRtt c.session)
    prevCrypto := some ⟨old, endPacket, remote⟩
    keyPhase := !c.keyPhase }

theorem updateKeys_inv {remote : Bool} (h : c.updateKeys limits endPacket remote = some c') :
    ∃ next old, c.nextCrypto = some next ∧ (c.spaces .data).crypto = some old ∧
      c' = c.updated limits next old endPacket remote := by
  obtain ⟨next, hnext, h⟩ := bind_eq_some_iff.mp h
  obtain ⟨old, hold, h⟩ := bind_eq_some_iff.mp h
  exact ⟨next, old, hnext, hold, (some.inj h).symm⟩

structure LocalUpdate (limits : AeadLimits) (c c' : KeyedConnection) : Prop where
  established : c.state.isEstablished = true
  noPrev : c.prevCrypto = none
  keys : ∃ next old, c.nextCrypto = some next ∧ (c.spaces .data).crypto = some old ∧
    c' = c.updated limits next old none false

theorem forceKeyUpdate_inv (h : c.forceKeyUpdate limits = some c') :
    (c' = c ∧ ¬ (c.state.isEstablished = true ∧ c.prevCrypto = none)) ∨ LocalUpdate limits c c' := by
  unfold forceKeyUpdate at h
  split at h
  · next hst =>
    refine .inl ⟨(some.inj h).symm, fun hc => ?_⟩
    rw [hc.1] at hst
    cases hst
  next hst =>
  split at h
  · next hprev =>
    refine .inl ⟨(some.inj h).symm, fun hc => ?_⟩
    rw [hc.2] at hprev
    cases hprev
  next hprev =>
  refine .inr ⟨?_, ?_, updateKeys_inv h⟩
  · simpa using hst
  · simpa using hprev

/-! ### Building a packet -/

inductive Prepared (limits : AeadLimits) (c : KeyedConnection) (space : SpaceId) : KeyedConnection → Bool → Prop
  | keep {c' : KeyedConnection} {proceed : Bool} : Quiet c c' →
      (space = .data → (c.spaces .data).sentWithKeys < c.keyPhaseSize ∨
        ¬ (c.state.isEstablished = true ∧ c.prevCrypto = none)) →
      (space ≠ .data → proceed = true → ∀ key, (c.spaces space).crypto = some key →
        (c.spaces space).sentWithKeys ≤ limits.confidentialityLimit key) → Prepared limits c space c' proceed
  | update {c' : KeyedConnection} : space = .data → c.keyPhaseSize ≤ (c.spaces .data).sentWithKeys →
      LocalUpdate limits c c' → Prepared limits c space c' true

theorem prepareKeys_inv {proceed : Bool} (h : c.prepareKeys limits space = some (c', proceed)) :
    Prepared limits c space c' proceed := by
  unfold prepareKeys at h
  split at h
  · next hdata =>
    subst hdata
    split at h
    · next hsize =>
      obtain ⟨d, hd, h⟩ := map_eq_some_iff.mp h
      obtain ⟨rfl, rfl⟩ := Prod.mk.inj h
      rcases forceKeyUpdate_inv hd with ⟨rfl, hno⟩ | hup
      · exact .keep (.refl d) (fun _ => .inr hno) fun hne => absurd rfl hne
      · exact .update rfl hsize hup
    next hsize =>
    cases h
    exact .keep (.refl c) (fun _ => .inl (not_le.mp hsize)) fun hne => absurd rfl hne
  next hdata =>
  obtain ⟨key, hkey, h⟩ := map_eq_some_iff.mp h
  have hlim : ∀ k, (c.spaces space).crypto = some k → k = key := by
    intro k hk
    rw [hk] at hkey
    exact some.inj hkey
  unfold checkLimit at h
  split at h
  · next hlast =>
    cases h
    refine .keep (.closeInner c _) (fun hd => absurd hd hdata) fun _ _ k hk => ?_
    rw [hlim k hk, ← hlast]
    exact Nat.le_succ _
  split at h
  · cases h
    refine .keep (.kill ?_) (fun hd => absurd hd hdata) fun _ hp => absurd hp Bool.false_ne_true
    intro e he
    obtain rfl := ConnectionError.transportError.inj he
    exact nofun
  next hover =>
  cases h
  refine .keep (.refl c) (fun hd => absurd hd hdata) fun _ _ k hk => ?_
  rw [hlim k hk]
  exact Nat.le_of_not_lt hover

structure Allocated (c c' : KeyedConnection) (space : SpaceId) (n : Nat) : Prop where
  side : c'.side = c.side
  crypto : ∀ sp, (c'.spaces sp).crypto = (c.spaces sp).crypto
  rxPacket : (c'.spaces .data).rxPacket = (c.spaces .data).rxPacket
  sentWithKeys : ∀ sp, sp ≠ space → (c'.spaces sp).sentWithKeys = (c.spaces sp).sentWithKeys
  counted : (c.spaces space).sentWithKeys < (c'.spaces space).sentWithKeys
  number : space = .data → n = c.nextNumber ∧ n < c'.nextNumber
  nextNumber : space ≠ .data → c'.nextNumber = c.nextNumber
  highestSpace : c'.highestSpace = c.highestSpace
  zeroRttCrypto : c'.zeroRttCrypto = c.zeroRttCrypto
  keyPhase : c'.keyPhase = c.keyPhase
  keyPhaseSize : c'.keyPhaseSize = c.keyPhaseSize
  prevCrypto : c'.prevCrypto = c.prevCrypto
  nextCrypto : c'.nextCrypto = c.nextCrypto
  session : c'.session = c.session
  keyDiscard : c'.keyDiscard = c.keyDiscard
  error : c'.error = c.error

theorem getTxNumber_inv {space space' : KeySpace} (h : space.getTxNumber = some (n, space')) :
    n = space.nextPacketNumber ∧ space' = { space with nextPacketNumber := space.nextPacketNumber + 1
                                                       sentWithKeys := space.sentWithKeys + 1 } := by
  unfold KeySpace.getTxNumber at h
  split at h
  · cases h
    exact ⟨rfl, rfl⟩
  · cases h

theorem allocate_inv {filter filter' : PacketNumberFilter} {space space' : KeySpace}
    (h : filter.allocate draw space = some (n, space', filter')) :
    n = filter.peek space ∧ n < filter'.peek space' ∧ ∃ k, 0 < k ∧
      space' = { space with nextPacketNumber := n + 1, sentWithKeys := space.sentWithKeys + k } := by
  have hpeek : ∀ (f : PacketNumberFilter) (sp : KeySpace) {m : Nat}, sp.nextPacketNumber = m + 1 → m < f.peek sp := by
    intro f sp m hm
    unfold PacketNumberFilter.peek
    split <;> omega
  obtain ⟨⟨m, mid⟩, hm, h⟩ := bind_eq_some_iff.mp h
  obtain ⟨rfl, rfl⟩ := getTxNumber_inv hm
  dsimp only at h
  split at h
  · next hskip =>
    cases h
    exact ⟨(if_pos hskip).symm, hpeek _ _ rfl, 1, Nat.one_pos, rfl⟩
  next hskip =>
  obtain ⟨⟨m, last⟩, hm, h⟩ := map_eq_some_iff.mp h
  obtain ⟨rfl, rfl⟩ := getTxNumber_inv hm
  obtain ⟨rfl, rfl, rfl⟩ := h
  exact ⟨(if_neg hskip).symm, hpeek _ _ rfl, 2, Nat.two_pos, rfl⟩

theorem allocateNumber_inv (h : c.allocateNumber space draw = some (n, c')) : Allocated c c' space n := by
  unfold allocateNumber at h
  split at h
  · next hdata =>
    subst hdata
    obtain ⟨⟨m, value, filter⟩, ha, h⟩ := map_eq_some_iff.mp h
    cases h
    obtain ⟨hn, hnext, k, hk, rfl⟩ := allocate_inv ha
    refine ⟨rfl, ?_, ?_, ?_, ?_, fun _ => ⟨hn, ?_⟩, fun hne => absurd rfl hne, rfl, rfl, rfl, rfl, rfl, rfl, rfl, rfl, rfl⟩
    · intro sp
      by_cases hsp : sp = .data <;> simp [setSpace, hsp]
    · simp [setSpace]
    · intro sp hsp
      simp [setSpace, hsp]
    · simpa [setSpace] using hk
    · unfold KeyedConnection.nextNumber
      rw [setSpace_same]
      exact hnext
  next hdata =>
  obtain ⟨⟨m, value⟩, hm, h⟩ := map_eq_some_iff.mp h
  cases h
  obtain ⟨rfl, rfl⟩ := getTxNumber_inv hm
  refine ⟨rfl, ?_, ?_, ?_, ?_, fun hd => absurd hd hdata, fun _ => ?_, rfl, rfl, rfl, rfl, rfl, rfl, rfl, rfl, rfl⟩
  · intro sp
    by_cases hsp : sp = space <;> simp [setSpace, hsp]
  · simp [setSpace, Ne.symm hdata]
  · intro sp hsp
    simp [setSpace, hsp]
  · simp [setSpace]
  · unfold KeyedConnection.nextNumber
    rw [setSpace_other _ (Ne.symm hdata)]
    rfl

inductive Built (limits : AeadLimits) (c c' : KeyedConnection) (space : SpaceId) (packet : Packet) : Prop
  | intro {d : KeyedConnection} {n : Nat} {number : PacketNumber} {key : KeyId} : Prepared limits c space d true →
      Allocated d c' space n → c'.sealingKey space = some key →
      packet = ⟨c'.header space number, some (key, n), true⟩ → Built limits c c' space packet

def Builds (limits : AeadLimits) (c c' : KeyedConnection) (space : SpaceId) (out : Option Packet) : Prop :=
  (out = none ∧ Prepared limits c space c' false) ∨ ∃ packet, out = some packet ∧ Built limits c c' space packet

theorem buildPacket_inv (h : c.buildPacket limits space draw = some (c', out)) : Builds limits c c' space out := by
  obtain ⟨⟨d, proceed⟩, hd, h⟩ := bind_eq_some_iff.mp h
  have hprep := prepareKeys_inv hd
  dsimp only at h
  split at h
  · next hproceed =>
    subst hproceed
    obtain ⟨⟨n, e⟩, hn, h⟩ := bind_eq_some_iff.mp h
    obtain ⟨number, -, h⟩ := bind_eq_some_iff.mp h
    obtain ⟨key, hkey, ⟨⟩⟩ := exists_of_bind h
    exact .inr ⟨_, rfl, .intro hprep (allocateNumber_inv hn) hkey rfl⟩
  next hproceed =>
  cases h
  obtain rfl : proceed = false := by simpa using hproceed
  exact .inl ⟨rfl, hprep⟩

/-! ### Opening a packet -/

structure Opened (c : KeyedConnection) (packet : Packet) (result : DecryptPacketResult) : Prop where
  key : ∃ key, c.openingKey packet.header result.number = some (key, result.incomingKeyUpdate) ∧
    packet.sealedWith = some (key, result.number)
  acked : result.outgoingKeyUpdateAcked = true →
    (∃ prev, c.prevCrypto = some prev ∧ prev.endPacket = none) ∧ packet.header.keyPhase = c.keyPhase

def Refused (c : KeyedConnection) (packet : Packet) : Prop :=
  ∃ key number, c.openingKey packet.header number = some (key, true) ∧ packet.sealedWith = some (key, number) ∧
    (number ≤ (c.spaces packet.header.space).rxPacket ∨ ∃ prev, c.prevCrypto = some prev ∧ prev.updateUnacked = true)

theorem decryptPacketBody_inv {result : Except (Option TransportError) (Option DecryptPacketResult)}
    (h : c.decryptPacketBody packet = some result) : (∀ r, result = .ok (some r) → Opened c packet r) ∧
      ∀ e, result = .error (some e) → e.code = .keyUpdateError → Refused c packet := by
  unfold decryptPacketBody at h
  split at h
  · cases h
    exact ⟨nofun, nofun⟩
  split at h
  · cases h
    exact ⟨nofun, nofun⟩
  next truncated _ =>
  obtain ⟨⟨key, cryptoUpdate⟩, hkey, h⟩ := bind_eq_some_iff.mp h
  dsimp only at h
  generalize truncated.expand ((c.spaces packet.header.space).rxPacket + 1) = number at h hkey
  split at h
  · cases h
    exact ⟨nofun, nofun⟩
  next hopen =>
  have hseal : packet.sealedWith = some (key, number) := by simpa [Packet.decrypt] using hopen
  split at h
  · cases h
    refine ⟨nofun, ?_⟩
    rintro e he hcode
    obtain rfl := some.inj (Except.error.inj he)
    cases hcode
  split at h
  · next hbad =>
    cases h
    refine ⟨nofun, fun _ _ _ => ⟨key, number, ?_, hseal, hbad.2.imp_right fun hunack => ?_⟩⟩
    · rw [hkey, hbad.1]
    · exact (any_eq_true _ _).mp hunack
  cases h
  refine ⟨?_, nofun⟩
  rintro r hr
  obtain rfl := some.inj (Except.ok.inj hr)
  refine ⟨⟨key, hkey, hseal⟩, fun hack => ?_⟩
  obtain ⟨hany, hph⟩ := Bool.and_eq_true_iff.mp hack
  obtain ⟨prev, hprev, hend⟩ := (any_eq_true _ _).mp hany
  exact ⟨⟨prev, hprev, isNone_iff_eq_none.mp hend⟩, beq_iff_eq.mp hph⟩

theorem setKeyDiscardTimer_inv (h : c.setKeyDiscardTimer = some c') : c' = { c with keyDiscard := true } := by
  unfold setKeyDiscardTimer at h
  split at h
  · exact (some.inj h).symm
  obtain ⟨prev, -, h⟩ := bind_eq_some_iff.mp h
  obtain ⟨_, -, h⟩ := bind_eq_some_iff.mp h
  exact (some.inj h).symm

def confirmed (c : KeyedConnection) (prev : PrevCrypto) (number : Nat) : KeyedConnection :=
  { c with prevCrypto := some { prev with endPacket := some number }, keyDiscard := true }

theorem acknowledgeUpdate_inv {r : DecryptPacketResult} (h : c.acknowledgeUpdate r = some c') :
    c' = c ∨ r.outgoingKeyUpdateAcked = true ∧ ∃ prev, c.prevCrypto = some prev ∧ c' = c.confirmed prev r.number := by
  unfold acknowledgeUpdate at h
  split at h
  · next hack =>
    split at h
    · next prev hprev => exact .inr ⟨hack, prev, hprev, setKeyDiscardTimer_inv h⟩
    · exact .inl (some.inj h).symm
  · exact .inl (some.inj h).symm

theorem followUpdate_inv {r : DecryptPacketResult} (h : c.followUpdate limits r = some c') :
    (r.incomingKeyUpdate = false ∧ c' = c) ∨ r.incomingKeyUpdate = true ∧ ∃ next old, c.nextCrypto = some next ∧
      (c.spaces .data).crypto = some old ∧
      c' = { c.updated limits next old (some r.number) true with keyDiscard := true } := by
  unfold followUpdate at h
  split at h
  · next hin =>
    obtain ⟨d, hd, h⟩ := bind_eq_some_iff.mp h
    obtain ⟨next, old, hnext, hold, rfl⟩ := updateKeys_inv hd
    exact .inr ⟨hin, next, old, hnext, hold, setKeyDiscardTimer_inv h⟩
  · next hin => exact .inl ⟨by simpa using hin, (some.inj h).symm⟩

structure Noted (c c' : KeyedConnection) (header : Header) (number : Nat) : Prop extends SameKeys c c' where
  rxPacket : (c'.spaces .data).rxPacket = (c.spaces .data).rxPacket ∨
    (header.space = .data ∧ (c'.spaces .data).rxPacket = number)
  keyDiscard : c'.keyDiscard = true → c.keyDiscard = true ∨ (c.zeroRttCrypto = true ∧ header.isShort = true)
  error : RaisedUpdateError c' → RaisedUpdateError c

theorem Quiet.noted (h : Quiet c c') : Noted c c' header number :=
  ⟨h.toSameKeys, .inl h.rxPacket, fun hk => .inl (h.keyDiscard hk), h.error⟩

theorem Noted.comp {d e : KeyedConnection} (h₁ : Quiet c c')
    (h₂ : Noted c' d header number) (h₃ : Quiet d e) : Noted c e header number where
  toSameKeys := (h₁.toSameKeys.trans h₂.toSameKeys).trans h₃.toSameKeys
  rxPacket := by
    rw [h₃.rxPacket, ← h₁.rxPacket]
    exact h₂.rxPacket
  keyDiscard hk := by
    rcases h₂.keyDiscard (h₃.keyDiscard hk) with h | h
    · exact .inl (h₁.keyDiscard h)
    · exact .inr (h₁.zeroRttCrypto ▸ h)
  error := h₁.error ∘ h₂.error ∘ h₃.error

theorem noted_receivedNumber (header : Header) (number : Nat) :
    Noted c (c.receivedNumber header.space number) header number := by
  unfold receivedNumber
  split
  · refine ⟨.setSpace (.inl rfl) rfl rfl, ?_, fun hk => .inl hk, id⟩
    by_cases hspace : header.space = .data
    · refine .inr ⟨hspace, ?_⟩
      rw [hspace, setSpace_same]
    · exact .inl (congrArg KeySpace.rxPacket (setSpace_other _ (Ne.symm hspace)))
  · exact (Quiet.refl c).noted

theorem onPacketAuthenticated_inv
    (h : c.onPacketAuthenticated header.space (some number) header.isShort = some c') : Noted c c' header number := by
  have hcnt : Quiet c { c with totalAuthedPackets := c.totalAuthedPackets + 1 } :=
    { Quiet.refl _ with }
  obtain ⟨d, hd, rfl⟩ := map_eq_some_iff.mp h
  have hstop := hcnt.trans (.stopInitial _ .server header.space)
  generalize stopInitial _ _ _ = e at hd hstop
  split at hd
  · next htm =>
    obtain rfl := setKeyDiscardTimer_inv hd
    have hnoted : Noted { e with keyDiscard := true } _ header number := noted_receivedNumber header number
    refine ⟨hstop.toSameKeys.trans { hnoted with }, ?_, fun _ => .inr ⟨?_, htm.2.2⟩, hstop.error ∘ hnoted.error⟩
    · rw [← hstop.rxPacket]
      exact hnoted.rxPacket
    · rw [← hstop.zeroRttCrypto]
      exact htm.2.1
  cases hd
  exact .comp hstop (noted_receivedNumber header number) (.refl _)

theorem afterPacket_error {wasClosed : Bool} {e : ConnectionError}
    (h : c.afterPacket wasClosed remote (.error e) = some c') :
    ∃ state, Quiet { c with error := some e, state } c' := by
  obtain ⟨d, hd, rfl⟩ := map_eq_some_iff.mp h
  obtain ⟨state, -, rfl⟩ := map_eq_some_iff.mp hd
  exact ⟨state, .finish _ wasClosed remote⟩

theorem Quiet.afterPacket {wasClosed : Bool} (h : c.afterPacket wasClosed remote (.ok ()) = some c') : Quiet c c' := by
  cases h
  exact .finish c wasClosed remote

theorem Quiet.recordSeen (c : KeyedConnection) (space : SpaceId) (number : Option Nat) :
    Quiet c (c.recordSeen space number).1 := by
  unfold KeyedConnection.recordSeen
  split
  · refine ⟨.setSpace (.inl rfl) rfl rfl, ?_, id, id⟩
    by_cases hspace : space = .data
    · subst hspace
      simp [setSpace]
    · exact congrArg KeySpace.rxPacket (setSpace_other _ (Ne.symm hspace))
  · exact .refl c

inductive Received (limits : AeadLimits) (c : KeyedConnection) (packet : Packet) : KeyedConnection → Prop
  | quiet {c' : KeyedConnection} : Quiet c c' → Received limits c packet c'
  | refused {c' : KeyedConnection} : Refused c packet → SameKeys c c' → (c'.keyDiscard = true → c.keyDiscard = true) →
      Received limits c packet c'
  | opened {d e c' : KeyedConnection} {r : DecryptPacketResult} : Opened c packet r → c.acknowledgeUpdate r = some d →
      d.followUpdate limits r = some e → Noted e c' packet.header r.number → Received limits c packet c'

theorem processPacket_inv {number : Option Nat} (h : processPacket ignorePayload c remote packet number = some c') :
    (number = none → Quiet c c') ∧ ∀ n, number = some n → Noted c c' packet.header n := by
  obtain ⟨d, hd, h⟩ := bind_eq_some_iff.mp h
  have hprocess := h
  have haft : Quiet d c' := .afterPacket hprocess
  split at hd
  · next hopen =>
    obtain ⟨n, rfl⟩ := isSome_iff_exists.mp hopen.2
    refine ⟨nofun, fun m hm => ?_⟩
    cases hm
    exact .comp (.refl c) (onPacketAuthenticated_inv hd) haft
  cases hd
  exact ⟨fun _ => haft, fun _ _ => haft.noted⟩

theorem acceptPacket_inv {number : Option Nat} (h : acceptPacket ignorePayload c remote packet number = some c') :
    (number = none → Quiet c c') ∧ ∀ n, number = some n → Noted c c' packet.header n := by
  have hseen := Quiet.recordSeen c packet.header.space number
  unfold acceptPacket at h
  generalize c.recordSeen packet.header.space number = seen at h hseen
  dsimp only at h hseen
  split at h
  · cases h
    exact ⟨fun _ => hseen, fun _ _ => hseen.noted⟩
  split at h
  · cases h
    exact ⟨fun _ => hseen, fun _ _ => hseen.noted⟩
  split at h
  · cases h
    exact ⟨fun _ => hseen, fun _ _ => hseen.noted⟩
  obtain ⟨hnone, hsome⟩ := processPacket_inv h
  exact ⟨fun hn => hseen.trans (hnone hn), fun n hn => .comp hseen (hsome n hn) (.refl c')⟩

theorem rejectPacket_inv {e : Option TransportError} (h : c.rejectPacket limits remote e = some c') :
    Quiet c c' ∨ ∃ error state, e = some error ∧ error.code = .keyUpdateError ∧
      Quiet { c with error := some (.transportError error), state } c' := by
  cases e with
  | some error =>
    have haft : c.afterPacket c.state.isClosed remote (.error (.transportError error)) = some c' := h
    obtain ⟨state, hq⟩ := afterPacket_error haft
    by_cases hcode : error.code = .keyUpdateError
    · exact .inr ⟨error, state, rfl, hcode, hq⟩
    refine .inl ((Quiet.fail fun e' he' => ?_).trans hq)
    obtain rfl := ConnectionError.transportError.inj he'
    exact hcode
  | none =>
    have hcnt : Quiet c { c with authenticationFailures := c.authenticationFailures + 1 } :=
      { Quiet.refl _ with }
    obtain ⟨key, -, h⟩ := bind_eq_some_iff.mp h
    split at h
    · obtain ⟨state, hq⟩ := afterPacket_error h
      refine .inl ((hcnt.trans (Quiet.fail fun e' he' => ?_)).trans hq)
      obtain rfl := ConnectionError.transportError.inj he'
      exact nofun
    cases h
    exact .inl hcnt

theorem handleDecode_inv
    (h : c.handleDecode limits ignorePayload remote packet false = some c') : Received limits c packet c' := by
  unfold handleDecode at h
  split at h
  · unfold handlePacket at h
    split at h
    · cases h
      exact .quiet (.refl c)
    obtain ⟨⟨d, decrypted⟩, hd, h⟩ := bind_eq_some_iff.mp h
    obtain ⟨result, hbody, hd⟩ := bind_eq_some_iff.mp hd
    obtain ⟨hok, herr⟩ := decryptPacketBody_inv hbody
    dsimp only at h
    rw [if_neg Bool.false_ne_true] at h
    split at hd
    · next e =>
      cases hd
      rcases rejectPacket_inv h with hq | ⟨error, state, rfl, hcode, hq⟩
      · exact .quiet hq
      have hset : SameKeys c { c with error := some (.transportError error), state } :=
        { SameKeys.refl c with }
      exact .refused (herr error rfl hcode) (hset.trans hq.toSameKeys) hq.keyDiscard
    · cases hd
      exact .quiet ((acceptPacket_inv h).1 rfl)
    next r =>
    obtain ⟨e, he, hd⟩ := bind_eq_some_iff.mp hd
    obtain ⟨f, hf, ⟨⟩⟩ := exists_of_bind hd
    exact .opened (hok r rfl) he hf ((acceptPacket_inv h).2 _ rfl)
  cases h
  exact .quiet (.refl c)

/-! ### Well-formed keys -/

structure NoKeys (c : KeyedConnection) : Prop where
  highestSpace : c.highestSpace ≠ .data
  crypto : (c.spaces .data).crypto = none
  nextCrypto : c.nextCrypto = none
  prevCrypto : c.prevCrypto = none
  session : c.session = 1
  keyPhase : c.keyPhase = false
  keyDiscard : c.keyDiscard = false

/-- The 1-RTT keys of generation `g` are in use: those of the next are ready, and the key phase bit tells them apart. -/
structure HasKeys (c : KeyedConnection) (g : Nat) : Prop where
  highestSpace : c.highestSpace = .data
  crypto : (c.spaces .data).crypto = some (.oneRtt g)
  nextCrypto : c.nextCrypto = some (.oneRtt (g + 1))
  prevCrypto : ∀ prev, c.prevCrypto = some prev → ∃ k, g = k + 1 ∧ prev.crypto = .oneRtt k
  session : c.session = g + 2
  keyPhase : c.keyPhase = g.bodd

structure Wf (c : KeyedConnection) : Prop where
  initial : ∀ key, (c.spaces .initial).crypto = some key → ∃ attempt, key = .initial attempt
  handshake : ∀ key, (c.spaces .handshake).crypto = some key → key = .handshake
  data : NoKeys c ∨ ∃ g, HasKeys c g

theorem HasKeys.congr {g : Nat} (h : HasKeys c g) (hs : SameKeys c c') : HasKeys c' g :=
  ⟨hs.highestSpace.trans h.highestSpace, hs.crypto.trans h.crypto, hs.nextCrypto.trans h.nextCrypto,
    fun prev hprev => h.prevCrypto prev (hs.prevCrypto ▸ hprev), hs.session.trans h.session,
    hs.keyPhase.trans h.keyPhase⟩

theorem NoKeys.congr (h : NoKeys c) (hs : SameKeys c c') (hk : c'.keyDiscard = true → c.keyDiscard = true) : NoKeys c' := by
  refine ⟨hs.highestSpace ▸ h.highestSpace, hs.crypto.trans h.crypto, hs.nextCrypto.trans h.nextCrypto,
    hs.prevCrypto.trans h.prevCrypto, hs.session.trans h.session, hs.keyPhase.trans h.keyPhase, ?_⟩
  rw [Bool.eq_false_iff]
  intro htrue
  rw [h.keyDiscard] at hk
  exact Bool.false_ne_true (hk htrue)

theorem Wf.congr (h : Wf c) (hs : SameKeys c c')
    (hk : c'.keyDiscard = true → c.keyDiscard = true ∨ (c.spaces .data).crypto ≠ none) : Wf c' where
  initial key hkey := h.initial key (hs.early _ key hkey)
  handshake key hkey := h.handshake key (hs.early _ key hkey)
  data := by
    rcases h.data with hno | ⟨g, hg⟩
    · exact .inl (hno.congr hs fun htrue => (hk htrue).resolve_right fun hne => hne hno.crypto)
    · exact .inr ⟨g, hg.congr hs⟩

theorem Quiet.wf (hq : Quiet c c') (h : Wf c) : Wf c' := h.congr hq.toSameKeys fun hk => .inl (hq.keyDiscard hk)

theorem Wf.hasKeys (h : Wf c) {key : KeyId} (hkey : (c.spaces .data).crypto = some key) : ∃ g, HasKeys c g := by
  rcases h.data with hno | hg
  · rw [hno.crypto] at hkey
    cases hkey
  · exact hg

variable {next old : KeyId}

theorem updated_data {remote : Bool} : (c.updated limits next old endPacket remote).spaces .data =
      { c.spaces .data with crypto := some next, sentWithKeys := 0 } := by
  simp [updated, setSpace]

theorem HasKeys.updated {g : Nat} (h : HasKeys c g) (hnext : c.nextCrypto = some next)
    (hold : (c.spaces .data).crypto = some old) (endPacket : Option Nat) (remote : Bool) :
    HasKeys (c.updated limits next old endPacket remote) (g + 1) := by
  obtain rfl := some.inj (hnext.symm.trans h.nextCrypto)
  obtain rfl := some.inj (hold.symm.trans h.crypto)
  refine ⟨h.highestSpace, ?_, ?_, ?_, congrArg (· + 1) h.session, ?_⟩
  · rw [updated_data]
  · exact congrArg (fun n => some (KeyId.oneRtt n)) h.session
  · intro prev hprev
    cases hprev
    exact ⟨g, rfl, rfl⟩
  · rw [Nat.bodd_succ, ← h.keyPhase]
    rfl

theorem Wf.updated (h : Wf c) (hnext : c.nextCrypto = some next)
    (hold : (c.spaces .data).crypto = some old) (endPacket : Option Nat) (remote : Bool) :
    Wf (c.updated limits next old endPacket remote) := by
  obtain ⟨g, hg⟩ := h.hasKeys hold
  exact { h with data := .inr ⟨g + 1, hg.updated hnext hold endPacket remote⟩ }

theorem LocalUpdate.wf (hu : LocalUpdate limits c c') (h : Wf c) : Wf c' := by
  obtain ⟨next, old, hnext, hold, rfl⟩ := hu.keys
  exact h.updated hnext hold none false

theorem Prepared.wf {space : SpaceId} {proceed : Bool} (hp : Prepared limits c space c' proceed) (h : Wf c) : Wf c' := by
  cases hp with
  | keep hq _ _ => exact hq.wf h
  | update _ _ hu => exact hu.wf h

theorem Allocated.wf (ha : Allocated c c' space n) (h : Wf c) : Wf c' where
  initial := by
    rw [ha.crypto]
    exact h.initial
  handshake := by
    rw [ha.crypto]
    exact h.handshake
  data := by
    rcases h.data with hno | ⟨g, hg⟩
    · exact .inl ⟨ha.highestSpace ▸ hno.highestSpace, (ha.crypto _).trans hno.crypto, ha.nextCrypto.trans hno.nextCrypto,
        ha.prevCrypto.trans hno.prevCrypto, ha.session.trans hno.session, ha.keyPhase.trans hno.keyPhase,
        ha.keyDiscard.trans hno.keyDiscard⟩
    exact .inr ⟨g, ha.highestSpace.trans hg.highestSpace, (ha.crypto _).trans hg.crypto,
      ha.nextCrypto.trans hg.nextCrypto, ha.prevCrypto ▸ hg.prevCrypto, ha.session.trans hg.session,
      ha.keyPhase.trans hg.keyPhase⟩

theorem Wf.withPrev (h : Wf c) {prev : Option PrevCrypto} {timer early : Bool}
    (hprev : ∀ p, prev = some p → ∃ q, c.prevCrypto = some q ∧ p.crypto = q.crypto)
    (htm : timer = true → (c.spaces .data).crypto ≠ none ∨ c.keyDiscard = true) :
    Wf { c with prevCrypto := prev, keyDiscard := timer, zeroRttCrypto := early } where
  initial := h.initial
  handshake := h.handshake
  data := by
    rcases h.data with hno | ⟨g, hg⟩
    · refine .inl { hno with prevCrypto := ?_, keyDiscard := ?_ }
      · cases hp : prev with
        | none => rfl
        | some p =>
          obtain ⟨q, hq, -⟩ := hprev p hp
          rw [hno.prevCrypto] at hq
          cases hq
      · rw [Bool.eq_false_iff]
        intro htrue
        rcases htm htrue with hne | hk
        · exact hne hno.crypto
        rw [hno.keyDiscard] at hk
        cases hk
    refine .inr ⟨g, hg.highestSpace, hg.crypto, hg.nextCrypto, fun p hp => ?_, hg.session, hg.keyPhase⟩
    obtain ⟨q, hq, hpq⟩ := hprev p hp
    rw [hpq]
    exact hg.prevCrypto q hq

theorem openingKey_short (h : Wf c) {key : KeyId} {next : Bool}
    (hshort : header.isShort = true) (hkey : c.openingKey header number = some (key, next)) :
    (c.spaces .data).crypto ≠ none := by
  intro hnone
  rcases h.data with hno | ⟨g, hg⟩
  · cases header with
    | short phase pn =>
      simp only [openingKey, Header.is0rtt, Header.space, hnone, hno.prevCrypto, hno.nextCrypto] at hkey
      simp at hkey
    | _ => cases hshort
  rw [hg.crypto] at hnone
  cases hnone

theorem Wf.confirmed (h : Wf c) {prev : PrevCrypto} (hprev : c.prevCrypto = some prev) (number : Nat) :
    Wf (c.confirmed prev number) := by
  refine h.withPrev (fun p hp => ?_) fun _ => .inl fun hnone => ?_
  · cases hp
    exact ⟨prev, hprev, rfl⟩
  · rcases h.data with hk | ⟨g, hg⟩
    · cases hk.prevCrypto.symm.trans hprev
    · cases hg.crypto.symm.trans hnone

theorem Wf.arm (h : Wf c) (hc : (c.spaces .data).crypto ≠ none) : Wf { c with keyDiscard := true } :=
  h.withPrev (fun p hp => ⟨p, hp, rfl⟩) fun _ => .inl hc

theorem Received.wf {packet : Packet} (hr : Received limits c packet c') (h : Wf c) : Wf c' := by
  cases hr with
  | quiet hq => exact hq.wf h
  | refused _ hs hk => exact h.congr hs fun htrue => .inl (hk htrue)
  | @opened d e c' r ho hd he hn =>
    obtain ⟨key, hkey, -⟩ := ho.key
    have hwd : Wf d ∧ (d.spaces .data).crypto = (c.spaces .data).crypto := by
      rcases acknowledgeUpdate_inv hd with rfl | ⟨-, prev, hprev, rfl⟩
      · exact ⟨h, rfl⟩
      · exact ⟨h.confirmed hprev r.number, rfl⟩
    have hwe : Wf e ∧ ((c.spaces .data).crypto ≠ none → (e.spaces .data).crypto ≠ none) := by
      rcases followUpdate_inv he with ⟨-, rfl⟩ | ⟨-, next, old, hnext, hold, rfl⟩
      · exact ⟨hwd.1, fun hne => hwd.2 ▸ hne⟩
      have hup : Wf (d.updated limits next old (some r.number) true) := hwd.1.updated hnext hold (some r.number) true
      refine ⟨hup.arm ?_, fun _ => ?_⟩ <;>
        · rw [updated_data]
          exact nofun
    refine hwe.1.congr hn.toSameKeys fun hk => (hn.keyDiscard hk).imp_right fun hs => ?_
    exact hwe.2 (openingKey_short h hs.2 hkey)

/-! ### Steps -/

def answered (c : KeyedConnection) : KeyedConnection := { c with prevCrypto := c.prevCrypto.map PrevCrypto.acked }

inductive Stepped (limits : AeadLimits) (c : KeyedConnection) : KeyEvent → KeyedConnection → Option Packet → Prop
  | quiet {e : KeyEvent} {c' : KeyedConnection} : Quiet c c' → Stepped limits c e c' none
  | update {c' : KeyedConnection} : LocalUpdate limits c c' → Stepped limits c .forceKeyUpdate c' none
  | transmit {d c' : KeyedConnection} {space : SpaceId} {draw : Nat} {out : Option Packet} : Quiet c d →
      d.state = c.state → Builds limits d.answered c' space out → Stepped limits c (.transmit space draw) c' out
  | probe {c' : KeyedConnection} {draw : Nat} {out : Option Packet} : Builds limits c c' .data out →
      Stepped limits c (.probe draw) c' out
  | receive {c' : KeyedConnection} {packet : Packet} : Received limits c packet c' →
      Stepped limits c (.receive packet) c' none
  | discard : c.keyDiscard = true → Stepped limits c .keyDiscard
      { c with zeroRttCrypto := false, prevCrypto := none, keyDiscard := false } none
  | handshakeKeys : c.highestSpace ≠ .data → Stepped limits c .upgradeCrypto (c.upgradeCrypto .handshake .handshake) none
  | dataKeys : c.highestSpace ≠ .data → Stepped limits c .upgradeCrypto (c.upgradeCrypto .data (.oneRtt 0)) none
  | flight {early : Bool} : c.highestSpace ≠ .data → Stepped limits c (.serverFlight early)
      { (c.upgradeCrypto .handshake .handshake).upgradeCrypto .data (.oneRtt 0) with zeroRttCrypto := early } none
  | retry {token : Bytes} {attempt total : Nat} {state : State} : (c.spaces .initial).crypto = some (.initial attempt) →
      Stepped limits c (.retry token) { c.setSpace .initial { KeySpace.new with
        crypto := some (.initial (attempt + 1)), nextPacketNumber := (c.spaces .initial).nextPacketNumber } with
          token, totalAuthedPackets := total, state } none

theorem Quiet.setState (c : KeyedConnection) (state : State) : Quiet c { c with state } :=
  { Quiet.refl _ with }

theorem Quiet.drain {reason : Close} {early : Bool}
    (h : c.step limits (.drain reason early) = some (c', out)) : Quiet c c' ∧ out = none := by
  have hopen : ∀ close, Quiet c { c.closeCommon with error := some reason.toError, close, state := .draining } := by
    intro close
    refine (Quiet.closeCommon c).trans (.fail fun e he => ?_)
    cases reason <;> cases he
  simp only [step] at h
  split at h
  · cases h
    exact ⟨.setState c .draining, rfl⟩
  · cases h
  · cases h
  cases h
  exact ⟨hopen _, rfl⟩

theorem stopInitial_state (c : KeyedConnection) (side : Side) (space : SpaceId) :
    (c.stopInitial side space).state = c.state := by
  unfold stopInitial
  split <;> rfl

theorem step_inv {e : KeyEvent} (h : c.step limits e = some (c', out)) : Stepped limits c e c' out := by
  cases e with
  | forceKeyUpdate =>
    obtain ⟨d, hd, h⟩ := bind_eq_some_iff.mp h
    obtain ⟨rfl, rfl⟩ := Prod.mk.inj (some.inj h)
    rcases forceKeyUpdate_inv hd with ⟨rfl, -⟩ | hu
    · exact .quiet (.refl d)
    · exact .update hu
  | transmit space draw =>
    exact .transmit (.stopInitial c .client space) (stopInitial_state c .client space) (buildPacket_inv h)
  | probe draw => exact .probe (buildPacket_inv h)
  | receive packet =>
    obtain ⟨d, hd, ⟨⟩⟩ := exists_of_bind h
    exact .receive (handleDecode_inv hd)
  | keyDiscard =>
    simp only [step] at h
    split at h
    · next hk =>
      cases h
      exact .discard hk
    · cases h
  | ack space number =>
    simp only [step] at h
    split at h
    · cases h
      refine .quiet ⟨.setSpace (.inl rfl) rfl rfl, ?_, id, id⟩
      by_cases hspace : space = .data
      · rw [hspace, setSpace_same]
      · rw [setSpace_other _ (Ne.symm hspace)]
    · cases h
  | upgradeCrypto =>
    simp only [step] at h
    split at h
    · next hhigh =>
      cases h
      exact .handshakeKeys (hhigh ▸ nofun)
    · next hhigh =>
      cases h
      exact .dataKeys (hhigh ▸ nofun)
    · cases h
  | serverFlight early =>
    simp only [step] at h
    split at h
    · next hhigh =>
      cases h
      exact .flight (hhigh ▸ nofun)
    · cases h
  | establish =>
    simp only [step] at h
    split at h
    · cases h
      split
      · have hdisc : Quiet c (c.discardSpace .handshake) := .discardSpace nofun
        exact .quiet (hdisc.trans (.setState _ _))
      · exact .quiet (.setState _ _)
    · cases h
  | handshakeDone =>
    simp only [step] at h
    split at h
    · cases h
      exact .quiet (.discardSpace nofun)
    · cases h
  | retry token =>
    simp only [step] at h
    split at h
    · obtain ⟨d, hd, heq⟩ := map_eq_some_iff.mp h
      cases heq
      unfold restartInitial at hd
      split at hd
      · next attempt hkey =>
        cases hd
        exact .retry hkey
      · cases hd
    · cases h
  | close reason =>
    cases h
    exact .quiet (.closeInner c reason)
  | drain reason early =>
    obtain ⟨hq, rfl⟩ := Quiet.drain h
    exact .quiet hq
  | timeout =>
    cases h
    exact .quiet (.kill nofun)

/-! ### New keys -/

theorem Wf.noKeys (h : Wf c) (hh : c.highestSpace ≠ .data) : NoKeys c := by
  rcases h.data with hno | ⟨g, hg⟩
  · exact hno
  · exact absurd hg.highestSpace hh

theorem Wf.handshakeKeys (h : Wf c) (hh : c.highestSpace ≠ .data) : Wf (c.upgradeCrypto .handshake .handshake) := by
  have hno := h.noKeys hh
  refine ⟨h.initial, ?_, .inl { hno with highestSpace := nofun }⟩
  intro key hkey
  exact (some.inj hkey).symm

theorem NoKeys.dataKeys (h : NoKeys c) : HasKeys (c.upgradeCrypto .data (.oneRtt 0)) 0 := by
  refine ⟨rfl, rfl, ?_, ?_, congrArg (· + 1) h.session, h.keyPhase⟩
  · exact congrArg (fun n => some (KeyId.oneRtt n)) h.session
  · intro prev hprev
    cases h.prevCrypto.symm.trans hprev

theorem Wf.dataKeys (h : Wf c) (hh : c.highestSpace ≠ .data) : Wf (c.upgradeCrypto .data (.oneRtt 0)) :=
  { h with data := .inr ⟨0, (h.noKeys hh).dataKeys⟩ }

theorem Wf.answered (h : Wf c) : Wf c.answered := by
  refine h.withPrev (fun p hp => ?_) fun hk => .inr hk
  obtain ⟨q, hq, rfl⟩ := map_eq_some_iff.mp hp
  exact ⟨q, hq, rfl⟩

theorem Builds.wf {space : SpaceId} {out : Option Packet} (hb : Builds limits c c' space out) (h : Wf c) : Wf c' := by
  rcases hb with ⟨-, hp⟩ | ⟨packet, -, hb⟩
  · exact hp.wf h
  obtain ⟨hp, ha, -, -⟩ := hb
  exact ha.wf (hp.wf h)

theorem Wf.retry (h : Wf c) {attempt total : Nat} {token : Bytes} {state : State} :
    Wf { c.setSpace .initial { KeySpace.new with
      crypto := some (.initial (attempt + 1)), nextPacketNumber := (c.spaces .initial).nextPacketNumber } with
        token, totalAuthedPackets := total, state } := by
  refine ⟨fun key hkey => ⟨attempt + 1, (some.inj hkey).symm⟩, h.handshake, ?_⟩
  rcases h.data with hno | ⟨g, hg⟩
  · exact .inl { hno with }
  · exact .inr ⟨g, hg.highestSpace, hg.crypto, hg.nextCrypto, hg.prevCrypto, hg.session, hg.keyPhase⟩

theorem Stepped.wf {e : KeyEvent} {out : Option Packet} (hs : Stepped limits c e c' out) (h : Wf c) : Wf c' := by
  cases hs with
  | quiet hq => exact hq.wf h
  | update hu => exact hu.wf h
  | transmit hq _ hb => exact hb.wf (hq.wf h).answered
  | probe hb => exact hb.wf h
  | receive hr => exact hr.wf h
  | discard _ => exact h.withPrev nofun nofun
  | handshakeKeys hh => exact h.handshakeKeys hh
  | dataKeys hh => exact h.dataKeys hh
  | flight hh =>
    have hw : Wf ((c.upgradeCrypto .handshake .handshake).upgradeCrypto .data (.oneRtt 0)) :=
      (h.handshakeKeys hh).dataKeys nofun
    exact hw.withPrev (fun p hp => ⟨p, hp, rfl⟩) fun hk => .inr hk
  | retry _ => exact h.retry

theorem wf_new (side : Side) (setup : Setup) : Wf (new side setup) :=
  ⟨fun _ hkey => ⟨0, (some.inj hkey).symm⟩, nofun, .inl ⟨nofun, rfl, rfl, rfl, rfl, rfl, rfl⟩⟩

end KeyedConnection
end SaorsaTransport
