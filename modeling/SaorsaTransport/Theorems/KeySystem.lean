import SaorsaTransport.Theorems.KeyLimit

/-! The key update protocol between two parties, without ciphers and headers. One phase bit is enough if the
    generations are never more than one apart. -/

namespace SaorsaTransport

namespace KeyUpdate

structure Party where
  generation : Nat
  /-- The previous keys, if they are kept, with the packet that confirmed the update, if one did. -/
  previous : Option (Option Nat)
  /-- An update of the peer was followed, and no packet was sent since. -/
  owing : Bool
  early : Bool
  /-- The timer that discards the previous keys and those for early data may fire. -/
  armed : Bool
  largest : Nat
  nextNumber : Nat
  /-- Generation and number of each packet that was sent. -/
  sent : List (Nat × Nat)

/-- What a party may do, `q` being its peer. -/
inductive Move (q p : Party) : Party → Prop
  | update : p.previous = none → p.early = false → 0 < p.nextNumber →
      Move q p { p with generation := p.generation + 1, previous := some none, owing := false }
  | send {n : Nat} : p.owing = false → p.nextNumber < n →
      Move q p { p with nextNumber := n, sent := p.sent ++ [(p.generation, p.nextNumber)] }
  | answer : Move q p { p with owing := false }
  | receive {x : Nat × Nat} : x ∈ q.sent → x.1 ≤ p.generation → Move q p { p with largest := x.2 }
  | confirm {m : Nat} : (p.generation, m) ∈ q.sent → p.previous = some none →
      Move q p { p with previous := some (some m), armed := true }
  | follow {m : Nat} : (p.generation + 1, m) ∈ q.sent →
      Move q p { p with generation := p.generation + 1, previous := some (some m), owing := true, armed := true }
  | discard : p.armed = true → Move q p { p with previous := none, owing := false, early := false, armed := false }
  | timers {early armed : Bool} : (early = true → p.previous ≠ some none) →
      (armed = true → early = true ∨ ∃ m, p.previous = some (some m)) → Move q p { p with early, armed }

structure Half (p q : Party) : Prop where
  sent_le : ∀ x ∈ p.sent, x.1 ≤ p.generation ∧ x.2 < p.nextNumber
  ordered : ∀ x ∈ p.sent, ∀ y ∈ p.sent, x.1 < y.1 → x.2 < y.2
  lead : p.generation ≤ q.generation + 1
  /-- Once an update is confirmed the peer has made it too. -/
  confirmed : p.previous ≠ some none → p.generation ≤ q.generation
  /-- Packets of a generation that the peer does not have yet are newer than all it has seen. -/
  fresh : ∀ x ∈ p.sent, q.generation < x.1 → q.largest < x.2
  largest : q.largest < p.nextNumber ∨ q.largest = 0
  positive : q.generation < p.generation → 0 < p.nextNumber
  /-- The peer waits for an answer to its update. -/
  owing : p.owing = true → q.generation = p.generation ∧ q.previous = some none ∧ ∀ x ∈ p.sent, x.1 < p.generation
  early : p.early = true → p.previous ≠ some none
  armed : p.armed = true → p.early = true ∨ ∃ m, p.previous = some (some m)

structure Inv (p q : Party) : Prop where
  left : Half p q
  right : Half q p

variable {p p' q : Party}

theorem Inv.symm (h : Inv p q) : Inv q p := ⟨h.right, h.left⟩

theorem Half.settled (h : Half p q) (ha : p.armed = true) : p.previous ≠ some none := by
  rcases h.armed ha with he | ⟨m, hm⟩
  · exact h.early he
  rw [hm]
  exact nofun

theorem Half.not_owing (h : Half q p) (hp : p.previous ≠ some none) : q.owing = false := by
  rw [Bool.eq_false_iff]
  exact fun ho => hp (h.owing ho).2.1

/-- The peer's half when the party keeps its generation and its previous keys, and has seen nothing new. -/
theorem Half.congr (h : Half q p) (hgen : p'.generation = p.generation) (hprev : p'.previous = p.previous)
    (hmax : p'.largest = p.largest) : Half q p' where
  __ := h
  lead := hgen ▸ h.lead
  confirmed := hgen ▸ h.confirmed
  fresh := hgen ▸ hmax ▸ h.fresh
  largest := hmax ▸ h.largest
  positive := hgen ▸ h.positive
  owing := hgen ▸ hprev ▸ h.owing

section
variable (h : Inv p q)
include h

theorem Inv.update (hprev : p.previous = none) (hearly : p.early = false) (hnum : 0 < p.nextNumber) :
    Inv { p with generation := p.generation + 1, previous := some none, owing := false } q := by
  obtain ⟨hp, hq⟩ := h
  have hno := hq.not_owing (hprev ▸ nofun)
  have hunarmed : p.armed = false := by
    rw [Bool.eq_false_iff]
    intro ha
    rcases hp.armed ha with he | ⟨m, hm⟩
    · cases hearly.symm.trans he
    · cases hprev.symm.trans hm
  constructor
  · exact
      { hp with
        sent_le := fun x hx => ⟨(hp.sent_le x hx).1.trans (Nat.le_succ _), (hp.sent_le x hx).2⟩
        lead := Nat.succ_le_succ (hp.confirmed (hprev ▸ nofun))
        confirmed := nofun
        positive := fun _ => hnum
        owing := nofun
        early := fun he => absurd (hearly.symm.trans he) Bool.false_ne_true
        armed := fun ha => absurd (hunarmed.symm.trans ha) Bool.false_ne_true }
  · exact
      { hq with
        lead := hq.lead.trans (Nat.le_succ _)
        confirmed := fun hc => (hq.confirmed hc).trans (Nat.le_succ _)
        fresh := fun x hx hlt => hq.fresh x hx (Nat.lt_of_succ_lt hlt)
        positive := fun hlt => hq.positive (Nat.lt_of_succ_lt hlt)
        owing := fun ho => absurd (hno.symm.trans ho) Bool.false_ne_true }

theorem Inv.send {n : Nat} (howing : p.owing = false) (hn : p.nextNumber < n) :
    Inv { p with nextNumber := n, sent := p.sent ++ [(p.generation, p.nextNumber)] } q := by
  obtain ⟨hp, hq⟩ := h
  have hmem : ∀ x, x ∈ p.sent ++ [(p.generation, p.nextNumber)] → x ∈ p.sent ∨ x = (p.generation, p.nextNumber) := by
    intro x hx
    rwa [List.mem_append, List.mem_singleton] at hx
  refine ⟨⟨fun x hx => ?_, fun x hx y hy hlt => ?_, hp.lead, hp.confirmed, fun x hx hlt => ?_, ?_, fun _ => ?_,
    fun ho => ?_, hp.early, hp.armed⟩, hq.congr rfl rfl rfl⟩
  · rcases hmem x hx with hx | rfl
    · exact ⟨(hp.sent_le x hx).1, (hp.sent_le x hx).2.trans hn⟩
    · exact ⟨le_rfl, hn⟩
  · rcases hmem x hx with hx | rfl <;> rcases hmem y hy with hy | rfl
    · exact hp.ordered x hx y hy hlt
    · exact (hp.sent_le x hx).2
    · exact absurd (hp.sent_le y hy).1 (Nat.not_le_of_lt hlt)
    · exact absurd hlt (lt_irrefl _)
  · rcases hmem x hx with hx | rfl
    · exact hp.fresh x hx hlt
    rcases hp.largest with hlg | hzero
    · exact hlg
    · exact hzero ▸ hp.positive hlt
  · exact hp.largest.imp_left fun hlg => hlg.trans hn
  · exact Nat.zero_lt_of_lt hn
  · exact absurd (howing.symm.trans ho) Bool.false_ne_true

theorem Inv.receive {x : Nat × Nat} (hx : x ∈ q.sent) (hle : x.1 ≤ p.generation) : Inv { p with largest := x.2 } q := by
  obtain ⟨hp, hq⟩ := h
  refine ⟨{ hp with }, { hq with fresh := fun y hy hlt => ?_, largest := ?_ }⟩
  · exact hq.ordered x hx y hy (hle.trans_lt hlt)
  · exact .inl (hq.sent_le x hx).2

theorem Inv.confirm {m : Nat} (hm : (p.generation, m) ∈ q.sent) :
    Inv { p with previous := some (some m), armed := true } q := by
  obtain ⟨hp, hq⟩ := h
  refine ⟨{ hp with confirmed := fun _ => (hq.sent_le _ hm).1, early := fun _ => nofun, armed := fun _ => .inr ⟨m, rfl⟩ },
    { hq with owing := fun ho => ?_ }⟩
  obtain ⟨hgen, -, hless⟩ := hq.owing ho
  exact absurd hgen (hless _ hm).ne

theorem Inv.follow {m : Nat} (hm : (p.generation + 1, m) ∈ q.sent) :
    Inv { p with generation := p.generation + 1, previous := some (some m), owing := true, armed := true } q := by
  obtain ⟨hp, hq⟩ := h
  have hge := (hq.sent_le _ hm).1
  have heq := le_antisymm hq.lead hge
  have hwait : q.previous = some none := by
    by_contra hne
    exact absurd (hq.confirmed hne) (Nat.not_le_of_lt hge)
  constructor
  · exact
      { hp with
        sent_le := fun x hx => ⟨(hp.sent_le x hx).1.trans (Nat.le_succ _), (hp.sent_le x hx).2⟩
        lead := hge.trans (Nat.le_succ _)
        confirmed := fun _ => hge
        positive := fun hlt => absurd hge (Nat.not_le_of_lt hlt)
        owing := fun _ => ⟨heq, hwait, fun x hx => Nat.lt_succ_of_le (hp.sent_le x hx).1⟩
        early := fun _ => nofun
        armed := fun _ => .inr ⟨m, rfl⟩ }
  · exact
      { hq with
        lead := hq.lead.trans (Nat.le_succ _)
        confirmed := fun _ => hq.lead
        fresh := fun x hx hlt => hq.fresh x hx (Nat.lt_of_succ_lt hlt)
        positive := fun hlt => hq.positive (Nat.lt_of_succ_lt hlt)
        owing := fun ho => absurd (hq.owing ho).1.symm (heq ▸ Nat.succ_ne_self _) }

theorem Inv.discard (ha : p.armed = true) :
    Inv { p with previous := none, owing := false, early := false, armed := false } q := by
  obtain ⟨hp, hq⟩ := h
  have hset := hp.settled ha
  have hno := hq.not_owing hset
  exact ⟨{ hp with confirmed := fun _ => hp.confirmed hset, owing := nofun, early := nofun, armed := nofun },
    { hq with owing := fun ho => absurd (hno.symm.trans ho) Bool.false_ne_true }⟩

theorem Inv.move (hm : Move q p p') : Inv p' q := by
  cases hm with
  | update hprev hearly hnum => exact h.update hprev hearly hnum
  | send howing hn => exact h.send howing hn
  | answer =>
    obtain ⟨hp, hq⟩ := h
    exact ⟨{ hp with owing := nofun }, hq.congr rfl rfl rfl⟩
  | receive hx hle => exact h.receive hx hle
  | confirm hm _ => exact h.confirm hm
  | follow hm => exact h.follow hm
  | discard ha => exact h.discard ha
  | timers hearly harmed =>
    obtain ⟨hp, hq⟩ := h
    exact ⟨{ hp with early := hearly, armed := harmed }, hq.congr rfl rfl rfl⟩

theorem Inv.expected {m : Nat} (hm : (p.generation + 1, m) ∈ q.sent) : p.largest < m ∧ p.owing = false := by
  refine ⟨h.right.fresh _ hm (lt_add_one _), ?_⟩
  rw [Bool.eq_false_iff]
  intro ho
  have hge := (h.right.sent_le _ hm).1
  rw [(h.left.owing ho).1] at hge
  exact absurd hge (Nat.not_succ_le_self _)

end

end KeyUpdate

/-! Two connections that exchange packets over a network which loses, duplicates and reorders them. Each step of a
    connection is made of moves of the key update protocol, so the generations of the two sides stay in step. -/

open Library KeyUpdate Option

namespace KeyedConnection
variable {limits : AeadLimits} {c c' : KeyedConnection}

def generation (c : KeyedConnection) : Nat :=
  match (c.spaces .data).crypto with
  | some (.oneRtt g) => g
  | _ => 0

theorem HasKeys.generation {g : Nat} (h : HasKeys c g) : c.generation = g := by
  unfold KeyedConnection.generation
  rw [h.crypto]

theorem NoKeys.generation (h : NoKeys c) : c.generation = 0 := by
  unfold KeyedConnection.generation
  rw [h.crypto]

theorem generation_congr (h : (c'.spaces .data).crypto = (c.spaces .data).crypto) : c'.generation = c.generation := by
  unfold KeyedConnection.generation
  rw [h]

def party (c : KeyedConnection) (sent : List (Nat × Nat)) : Party where
  generation := c.generation
  previous := c.prevCrypto.map (·.endPacket)
  owing := c.prevCrypto.any (·.updateUnacked)
  early := c.zeroRttCrypto
  armed := c.keyDiscard
  largest := (c.spaces .data).rxPacket
  nextNumber := c.nextNumber
  sent := sent

variable {q : Party} {sent : List (Nat × Nat)}

theorem SameKeys.party (h : SameKeys c c') (sent : List (Nat × Nat)) :
    c'.party sent = { c.party sent with armed := c'.keyDiscard, largest := (c'.spaces .data).rxPacket } := by
  unfold KeyedConnection.party
  rw [generation_congr h.crypto, h.prevCrypto, h.zeroRttCrypto, h.nextNumber]

theorem Quiet.sync (hq : Quiet c c') (h : Inv (c.party sent) q) : Inv (c'.party sent) q := by
  rw [hq.party sent, hq.rxPacket]
  exact h.move (.timers h.left.early fun ha => h.left.armed (hq.keyDiscard ha))

def Ready (c : KeyedConnection) : Prop := c.zeroRttCrypto = false ∧ 0 < c.nextNumber

theorem updated_party {g : Nat} (hg : HasKeys c g) {next old : KeyId} (hnext : c.nextCrypto = some next)
    (hold : (c.spaces .data).crypto = some old) (endPacket : Option Nat) (remote : Bool) :
    (c.updated limits next old endPacket remote).party sent =
      { c.party sent with generation := (c.party sent).generation + 1, previous := some endPacket, owing := remote } := by
  have hgen : (c.updated limits next old endPacket remote).generation = c.generation + 1 := by
    rw [(hg.updated hnext hold endPacket remote).generation, hg.generation]
  have hnum : (c.updated limits next old endPacket remote).nextNumber = c.nextNumber := by
    unfold nextNumber PacketNumberFilter.peek
    rw [updated_data]
    rfl
  unfold party
  rw [hgen, hnum, updated_data]
  rfl

theorem LocalUpdate.sync (hu : LocalUpdate limits c c') (hw : Wf c) (hr : Ready c) (h : Inv (c.party sent) q) :
    Inv (c'.party sent) q := by
  obtain ⟨next, old, hnext, hold, rfl⟩ := hu.keys
  obtain ⟨g, hg⟩ := hw.hasKeys hold
  rw [updated_party hg hnext hold]
  have hprev : (c.party sent).previous = none := by
    unfold party
    rw [hu.noPrev]
    rfl
  exact h.move (.update hprev hr.1 hr.2)

theorem answered_sync (h : Inv (c.party sent) q) : Inv (c.answered.party sent) q := by
  have hparty : c.answered.party sent = { c.party sent with owing := false } := by
    unfold party answered
    cases c.prevCrypto with
    | none | some prev => rfl
  rw [hparty]
  exact h.move .answer

def record (packet : Packet) : Option (Nat × Nat) :=
  match packet.sealedWith with
  | some (.oneRtt g, n) => some (g, n)
  | some (.zeroRtt, n) => some (0, n)
  | _ => none

/-- A packet as this program builds it: its header tells the kind of its key. -/
structure Genuine (packet : Packet) : Prop where
  bits : packet.reservedBitsValid = true
  oneRtt : ∀ g n, packet.sealedWith = some (.oneRtt g, n) → ∃ number, packet.header = .short g.bodd number
  zeroRtt : ∀ n, packet.sealedWith = some (.zeroRtt, n) → packet.header.is0rtt = true
  early : ∀ key n, packet.sealedWith = some (key, n) → record packet = none →
    packet.header.space ≠ .data ∧ packet.header.isShort = false

variable {space : SpaceId} {key : KeyId} {n : Nat} {packet : Packet} {r : DecryptPacketResult}

theorem sealingKey_kind (hw : Wf c) (hkey : c.sealingKey space = some key) :
    (space = .data ∧ (∃ g, HasKeys c g ∧ key = .oneRtt g)) ∨
      (space = .data ∧ (c.spaces .data).crypto = none ∧ key = .zeroRtt) ∨
      (space = .handshake ∧ key = .handshake) ∨ (space = .initial ∧ ∃ attempt, key = .initial attempt) := by
  unfold sealingKey at hkey
  split at hkey
  · next k hk =>
    cases hkey
    cases space with
    | initial => exact .inr (.inr (.inr ⟨rfl, hw.initial _ hk⟩))
    | handshake => exact .inr (.inr (.inl ⟨rfl, hw.handshake _ hk⟩))
    | data =>
      obtain ⟨g, hg⟩ := hw.hasKeys hk
      exact .inl ⟨rfl, g, hg, some.inj (hk.symm.trans hg.crypto)⟩
  next hnone =>
  split at hkey
  · next hzero =>
    obtain ⟨rfl, -⟩ := hzero
    exact .inr (.inl ⟨rfl, hnone, (some.inj hkey).symm⟩)
  · cases hkey

theorem genuine_sealed (hw : Wf c) (hkey : c.sealingKey space = some key)
    (number : PacketNumber) (n : Nat) : Genuine ⟨c.header space number, some (key, n), true⟩ := by
  rcases sealingKey_kind hw hkey with ⟨rfl, g, hg, rfl⟩ | ⟨rfl, hnone, rfl⟩ | ⟨rfl, rfl⟩ | ⟨rfl, attempt, rfl⟩
  · refine ⟨rfl, fun k m hk => ?_, by rintro _ ⟨⟩, fun key m hk hr => ?_⟩
    · obtain rfl := KeyId.oneRtt.inj (Prod.mk.inj (some.inj hk)).1
      refine ⟨number, ?_⟩
      simp [header, hg.crypto, hg.keyPhase]
    · cases hr
  · refine ⟨rfl, by rintro _ _ ⟨⟩, fun m _ => ?_, fun key m hk hr => ?_⟩
    · simp [header, hnone, Header.is0rtt]
    · cases hr
  all_goals exact ⟨rfl, by rintro _ _ ⟨⟩, by rintro _ ⟨⟩, fun _ _ _ _ => ⟨by rintro ⟨⟩, rfl⟩⟩

theorem record_sealed (hw : Wf c) (hkey : c.sealingKey space = some key) (header : Header) (n : Nat) :
    record ⟨header, some (key, n), true⟩ = if space = .data then some (c.generation, n) else none := by
  rcases sealingKey_kind hw hkey with ⟨rfl, g, hg, rfl⟩ | ⟨rfl, hnone, rfl⟩ | ⟨rfl, rfl⟩ | ⟨rfl, attempt, rfl⟩
  · rw [if_pos rfl, hg.generation]
    rfl
  · have hgen : c.generation = 0 := by
      unfold generation
      rw [hnone]
    rw [if_pos rfl, hgen]
    rfl
  · rfl
  · rfl

variable {space : SpaceId}

theorem Allocated.generation {n : Nat} (ha : Allocated c c' space n) : c'.generation = c.generation :=
  generation_congr (ha.crypto .data)

theorem Allocated.sync (ha : Allocated c c' space n)
    (howing : space = .data → (c.party sent).owing = false) (h : Inv (c.party sent) q) :
    Inv (c'.party (sent ++ (if space = .data then [(c'.generation, n)] else []))) q := by
  have hparty : ∀ sent', c'.party sent' = { c.party sent' with nextNumber := c'.nextNumber } := by
    intro sent'
    unfold party
    rw [ha.generation, ha.prevCrypto, ha.zeroRttCrypto, ha.keyDiscard, ha.rxPacket]
  rw [hparty]
  by_cases hsp : space = .data
  · obtain ⟨rfl, hlt⟩ := ha.number hsp
    rw [if_pos hsp, ha.generation]
    exact h.move (.send (howing hsp) hlt)
  rw [if_neg hsp, List.append_nil, ha.nextNumber hsp]
  exact h

theorem Built.sync {packet : Packet} (hb : Built limits c c' space packet) (hw : Wf c)
    (hrdy : space = .data → c.keyPhaseSize ≤ (c.spaces .data).sentWithKeys → c.state.isEstablished = true →
      c.prevCrypto = none → Ready c)
    (howing : space = .data → (c.party sent).owing = false) (h : Inv (c.party sent) q) :
    Inv (c'.party (sent ++ (record packet).toList)) q ∧ Genuine packet := by
  obtain @⟨d, n, number, key, hprep, ha, hkey, rfl⟩ := hb
  have hwd := hprep.wf hw
  have hwc := ha.wf hwd
  refine ⟨?_, genuine_sealed hwc hkey number n⟩
  rw [record_sealed hwc hkey]
  have hd : Inv (d.party sent) q ∧ (space = .data → (d.party sent).owing = false) := by
    cases hprep with
    | keep hq _ _ =>
      refine ⟨hq.sync h, fun hsp => ?_⟩
      rw [hq.party sent]
      exact howing hsp
    | update hsp hsize hu =>
      refine ⟨hu.sync hw (hrdy hsp hsize hu.established hu.noPrev) h, fun _ => ?_⟩
      obtain ⟨next, old, hnext, hold, rfl⟩ := hu.keys
      rfl
  have hsync := ha.sync hd.2 hd.1
  by_cases hsp : space = .data
  · rw [if_pos hsp] at hsync ⊢
    exact hsync
  rw [if_neg hsp] at hsync ⊢
  exact hsync

/-- A short packet opens under the key of the current generation if its phase is the current one, and else under that
    of the generation before or after. -/
theorem openingKey_short_inv (hw : Wf c) {phase next : Bool} {number : PacketNumber} {k : Nat}
    (hkey : c.openingKey (.short phase number) n = some (.oneRtt k, next)) :
    (phase = c.keyPhase ∧ next = false ∧ k = c.generation) ∨
      (phase ≠ c.keyPhase ∧ (next = false ∧ k + 1 = c.generation ∨ next = true ∧ k = c.generation + 1)) := by
  unfold openingKey at hkey
  rw [if_neg nofun] at hkey
  by_cases hph : phase = c.keyPhase
  · rw [if_pos (.inl hph)] at hkey
    obtain ⟨key, hcry, heq⟩ := map_eq_some_iff.mp hkey
    cases heq
    obtain ⟨g, hg⟩ := hw.hasKeys hcry
    obtain rfl := KeyId.oneRtt.inj (some.inj (hcry.symm.trans hg.crypto))
    exact .inl ⟨hph, rfl, hg.generation.symm⟩
  rw [if_neg fun hor => hor.elim hph fun hne => hne rfl] at hkey
  refine .inr ⟨hph, ?_⟩
  split at hkey
  · next prev hfil =>
    obtain ⟨hprev, -⟩ := filter_eq_some_iff.mp hfil
    obtain ⟨hcry, rfl⟩ := Prod.mk.inj (some.inj hkey)
    rcases hw.data with hno | ⟨g, hg⟩
    · cases hno.prevCrypto.symm.trans hprev
    obtain ⟨j, rfl, hj⟩ := hg.prevCrypto prev hprev
    obtain rfl := KeyId.oneRtt.inj (hcry.symm.trans hj)
    exact .inl ⟨rfl, hg.generation.symm⟩
  obtain ⟨key, hnext, heq⟩ := map_eq_some_iff.mp hkey
  cases heq
  rcases hw.data with hno | ⟨g, hg⟩
  · cases hno.nextCrypto.symm.trans hnext
  obtain rfl := KeyId.oneRtt.inj (some.inj (hnext.symm.trans hg.nextCrypto))
  exact .inr ⟨rfl, by rw [hg.generation]⟩

inductive Level (c : KeyedConnection) (packet : Packet) (n : Nat) (next : Bool) : Prop
  | early : packet.header.space ≠ .data → packet.header.isShort = false → next = false → Level c packet n next
  | zeroRtt : record packet = some (0, n) → packet.header.isShort = false → next = false → Level c packet n next
  | current : record packet = some (c.generation, n) → packet.header.keyPhase = c.keyPhase → next = false →
      Level c packet n next
  | before {k : Nat} : record packet = some (k, n) → k + 1 = c.generation → packet.header.keyPhase ≠ c.keyPhase →
      next = false → Level c packet n next
  | after : record packet = some (c.generation + 1, n) → packet.header.keyPhase ≠ c.keyPhase → next = true →
      Level c packet n next

theorem level_of_opened (hw : Wf c) (hp : Genuine packet) {next : Bool}
    (hkey : c.openingKey packet.header n = some (key, next)) (hseal : packet.sealedWith = some (key, n)) :
    Level c packet n next := by
  have hearly : record packet = none → Level c packet n next := by
    intro hr
    obtain ⟨hsp, hshort⟩ := hp.early key n hseal hr
    refine .early hsp hshort ?_
    unfold openingKey at hkey
    split at hkey
    · split at hkey
      · exact (Prod.mk.inj (some.inj hkey)).2.symm
      · cases hkey
    rw [if_pos (.inr hsp)] at hkey
    obtain ⟨k, -, heq⟩ := map_eq_some_iff.mp hkey
    exact (Prod.mk.inj heq).2.symm
  cases key with
  | initial attempt | handshake => exact hearly (by simp [record, hseal])
  | zeroRtt =>
    have h0 := hp.zeroRtt n hseal
    refine .zeroRtt (by simp [record, hseal]) ?_ ?_
    · cases hh : packet.header with
      | short phase number => rw [hh] at h0; cases h0
      | _ => rfl
    · unfold openingKey at hkey
      rw [if_pos h0] at hkey
      split at hkey
      · exact (Prod.mk.inj (some.inj hkey)).2.symm
      · cases hkey
  | oneRtt k =>
    obtain ⟨number, hhdr⟩ := hp.oneRtt k n hseal
    have hr : record packet = some (k, n) := by simp [record, hseal]
    rw [hhdr] at hkey
    rcases openingKey_short_inv hw hkey with ⟨hph, rfl, rfl⟩ | ⟨hph, ⟨rfl, hk⟩ | ⟨rfl, rfl⟩⟩
    · exact .current hr (hhdr ▸ hph) rfl
    · exact .before hr hk (hhdr ▸ hph) rfl
    · exact .after hr (hhdr ▸ hph) rfl

structure Incoming (q : Party) (packet : Packet) : Prop where
  genuine : Genuine packet
  sent : ∀ x, record packet = some x → x ∈ q.sent

/-- A long packet does not arrive while an update in an even generation waits to be confirmed. -/
def Unmistaken (c : KeyedConnection) (packet : Packet) : Prop :=
  packet.header.isShort = false → ¬ (c.keyPhase = false ∧ ∃ prev ∈ c.prevCrypto, prev.endPacket = none)

theorem not_refused (hw : Wf c) (hi : Incoming q packet) (h : Inv (c.party sent) q) : ¬ Refused c packet := by
  rintro ⟨key, n, hkey, hseal, hbad⟩
  cases level_of_opened hw hi.genuine hkey hseal with
  | after hr hph _ =>
    obtain ⟨hlg, howing⟩ := h.expected (hi.sent _ hr)
    rcases hbad with hle | ⟨prev, hprev, hunack⟩
    · have hsp : packet.header.space = .data := by
        by_contra hne
        unfold openingKey at hkey
        split at hkey
        · split at hkey <;> cases hkey
        rw [if_pos (.inr hne)] at hkey
        obtain ⟨k, -, heq⟩ := map_eq_some_iff.mp hkey
        cases heq
      rw [hsp] at hle
      exact absurd hle (not_le_of_gt hlg)
    have hany : (c.party sent).owing = true := by
      unfold party
      rw [hprev]
      exact hunack
    rw [howing] at hany
    cases hany
  | early _ _ hn | zeroRtt _ _ hn | current _ _ hn | before _ _ _ hn => cases hn

theorem keyPhase_of_long {header : Header} (h : header.isShort = false) : header.keyPhase = false := by
  cases header with
  | short phase number => cases h
  | _ => rfl

theorem acknowledge_sync {d : KeyedConnection} (ho : Opened c packet r)
    (hlevel : Level c packet r.number r.incomingKeyUpdate) (hi : Incoming q packet) (hu : Unmistaken c packet)
    (hd : c.acknowledgeUpdate r = some d) (h : Inv (c.party sent) q) :
    Inv (d.party sent) q ∧ d.generation = c.generation := by
  rcases acknowledgeUpdate_inv hd with rfl | ⟨hack, prev, hprev, rfl⟩
  · exact ⟨h, rfl⟩
  obtain ⟨⟨prev', hprev', hnone⟩, hph⟩ := ho.acked hack
  obtain rfl := some.inj (hprev.symm.trans hprev')
  have hlong : packet.header.isShort = false → False := fun hl =>
    hu hl ⟨hph.symm.trans (keyPhase_of_long hl), prev, hprev, hnone⟩
  have hr : record packet = some (c.generation, r.number) := by
    cases hlevel with
    | early _ hl _ | zeroRtt _ hl _ => exact (hlong hl).elim
    | current hr _ _ => exact hr
    | before _ _ hne _ | after _ hne _ => exact absurd hph hne
  have hparty : (c.confirmed prev r.number).party sent =
      { c.party sent with previous := some (some r.number), armed := true } := by
    unfold party confirmed
    rw [hprev]
    rfl
  have hprevious : (c.party sent).previous = some none := by
    unfold party
    rw [hprev]
    exact congrArg some hnone
  refine ⟨?_, rfl⟩
  rw [hparty]
  exact h.move (.confirm (hi.sent _ hr) hprevious)

theorem follow_sync {d : KeyedConnection} (hw : Wf c)
    (hr : r.incomingKeyUpdate = true → record packet = some (c.generation + 1, r.number)) (hi : Incoming q packet)
    (hd : c.followUpdate limits r = some d) (h : Inv (c.party sent) q) :
    Inv (d.party sent) q ∧ d.generation = c.generation + r.incomingKeyUpdate.toNat := by
  rcases followUpdate_inv hd with ⟨hin, rfl⟩ | ⟨hin, next, old, hnext, hold, rfl⟩
  · rw [hin]
    exact ⟨h, rfl⟩
  obtain ⟨g, hg⟩ := hw.hasKeys hold
  have hup : (c.updated limits next old (some r.number) true).party sent = _ := updated_party hg hnext hold _ _
  have hparty : ({ c.updated limits next old (some r.number) true with keyDiscard := true } : KeyedConnection).party sent =
      { (c.updated limits next old (some r.number) true).party sent with armed := true } := rfl
  rw [hparty, hup, hin]
  refine ⟨h.move (.follow (hi.sent _ (hr hin))), ?_⟩
  exact congrArg Party.generation hup

theorem Noted.sync {header : Header} (hn : Noted c c' header n)
    (hrecord : header.space = .data → ∃ k, (k, n) ∈ q.sent ∧ k ≤ c.generation) (h : Inv (c.party sent) q) :
    Inv (c'.party sent) q := by
  have harm : c'.keyDiscard = true → c.zeroRttCrypto = true ∨ ∃ m, (c.party sent).previous = some (some m) := by
    intro hk
    rcases hn.keyDiscard hk with hk | ⟨hzero, -⟩
    · exact h.left.armed hk
    · exact .inl hzero
  have htimers := h.move (.timers h.left.early harm)
  rw [hn.party sent]
  rcases hn.rxPacket with hrx | ⟨hsp, hrx⟩
  · rw [hrx]
    exact htimers
  obtain ⟨k, hsent, hle⟩ := hrecord hsp
  rw [hrx]
  exact htimers.move (.receive hsent hle)

theorem Received.sync {packet : Packet} (hr : Received limits c packet c') (hw : Wf c) (hi : Incoming q packet)
    (hu : Unmistaken c packet) (h : Inv (c.party sent) q) :
    Inv (c'.party sent) q ∧ (RaisedUpdateError c' → RaisedUpdateError c) := by
  cases hr with
  | quiet hq => exact ⟨hq.sync h, hq.error⟩
  | refused href _ _ => exact absurd href (not_refused hw hi h)
  | @opened d e c' r ho hd he hn =>
    obtain ⟨key, hkey, hseal⟩ := ho.key
    have hlevel := level_of_opened hw hi.genuine hkey hseal
    obtain ⟨hsd, hgd⟩ := acknowledge_sync ho hlevel hi hu hd h
    have hwd : Wf d := by
      rcases acknowledgeUpdate_inv hd with rfl | ⟨-, prev, hprev, rfl⟩
      · exact hw
      · exact hw.confirmed hprev r.number
    have hnext : r.incomingKeyUpdate = true → record packet = some (d.generation + 1, r.number) := by
      intro hin
      cases hlevel with
      | after hr _ _ => exact hgd ▸ hr
      | early _ _ hn | zeroRtt _ _ hn | current _ _ hn | before _ _ _ hn => cases hn.symm.trans hin
    obtain ⟨hse, hge⟩ := follow_sync hwd hnext hi he hsd
    refine ⟨hn.sync (fun hsp => ?_) hse, fun hraised => ?_⟩
    · rw [hge, hgd]
      cases hlevel with
      | early hne _ _ => exact absurd hsp hne
      | zeroRtt hr _ _ => exact ⟨0, hi.sent _ hr, zero_le⟩
      | current hr _ _ => exact ⟨_, hi.sent _ hr, le_self_add⟩
      | @before k hr hk _ _ => exact ⟨k, hi.sent _ hr, by omega⟩
      | after hr _ hin => exact ⟨_, hi.sent _ hr, by rw [hin]; exact le_rfl⟩
    · have he' : e.error = c.error := by
        rcases acknowledgeUpdate_inv hd with rfl | ⟨-, prev, -, rfl⟩ <;>
          rcases followUpdate_inv he with ⟨-, rfl⟩ | ⟨-, next, old, -, -, rfl⟩ <;> rfl
      obtain ⟨error, herr, hcode⟩ := hn.error hraised
      exact ⟨error, he' ▸ herr, hcode⟩

theorem raised_congr (h : c'.error = c.error) : RaisedUpdateError c' → RaisedUpdateError c :=
  fun ⟨e, he, hcode⟩ => ⟨e, h ▸ he, hcode⟩

def Updatable (c : KeyedConnection) : Prop := c.state.isEstablished = true ∧ c.prevCrypto = none

/-- The conditions on a step: keys are updated only when no keys for early data are left and a packet was sent before,
    no packet is built outside of the loop while an update of the peer is not answered, and a long packet does not
    arrive while an update in an even generation waits to be confirmed. -/
def Synchronous (c : KeyedConnection) : KeyEvent → Prop
  | .forceKeyUpdate => Updatable c → Ready c
  | .transmit .data _ => c.keyPhaseSize ≤ (c.spaces .data).sentWithKeys → Updatable c → Ready c
  | .probe _ => (c.keyPhaseSize ≤ (c.spaces .data).sentWithKeys → Updatable c → Ready c) ∧
      ∀ prev ∈ c.prevCrypto, prev.updateUnacked = false
  | .receive packet => Unmistaken c packet
  | _ => True

theorem Builds.sync {out : Option Packet} (hb : Builds limits c c' space out) (hw : Wf c)
    (hrdy : space = .data → c.keyPhaseSize ≤ (c.spaces .data).sentWithKeys → c.state.isEstablished = true →
      c.prevCrypto = none → Ready c)
    (howing : space = .data → (c.party sent).owing = false) (h : Inv (c.party sent) q) :
    Inv (c'.party (sent ++ (out.bind record).toList)) q ∧ (∀ packet, out = some packet → Genuine packet) ∧
      (RaisedUpdateError c' → RaisedUpdateError c) := by
  rcases hb with ⟨rfl, hp⟩ | ⟨packet, rfl, hb⟩
  · cases hp with
    | keep hq _ _ =>
      have hnil : sent ++ ((none : Option Packet).bind record).toList = sent := List.append_nil sent
      rw [hnil]
      exact ⟨hq.sync h, nofun, hq.error⟩
  obtain ⟨hsync, hgenuine⟩ := hb.sync hw hrdy howing h
  refine ⟨hsync, fun packet' hpkt => some.inj hpkt ▸ hgenuine, ?_⟩
  obtain @⟨d, n, number, key, hprep, ha, -, -⟩ := hb
  rintro ⟨error, herr, hcode⟩
  rw [ha.error] at herr
  cases hprep with
  | keep hq _ _ => exact hq.error ⟨error, herr, hcode⟩
  | update _ _ hu =>
    obtain ⟨next, old, -, -, rfl⟩ := hu.keys
    exact ⟨error, herr, hcode⟩

theorem NoKeys.sync (hno : NoKeys c) (early : Bool) (h : Inv (c.party sent) q) : Inv { c.party sent with early } q := by
  refine h.move (.timers (fun _ => ?_) fun ha => ?_)
  · unfold party
    rw [hno.prevCrypto]
    exact nofun
  · cases hno.keyDiscard.symm.trans ha

theorem upgradeCrypto_party (c : KeyedConnection) (space : SpaceId) (key : KeyId) :
    (c.upgradeCrypto space key).party sent = { c.party sent with
      generation := (c.upgradeCrypto space key).generation, early := (c.upgradeCrypto space key).zeroRttCrypto } := by
  have hsp : ∀ other, (c.upgradeCrypto space key).spaces other =
      { c.spaces other with crypto := ((c.upgradeCrypto space key).spaces other).crypto } := by
    intro other
    unfold upgradeCrypto setSpace
    by_cases ho : other = space
    · subst ho
      simp only [Function.update_self]
      split <;> rfl
    simp only [Function.update_of_ne ho]
    split <;> rfl
  have hkept : ∀ d : KeyedConnection, c.upgradeCrypto space key = d → d.prevCrypto = c.prevCrypto ∧
      d.keyDiscard = c.keyDiscard ∧ d.packetNumberFilter = c.packetNumberFilter := by
    rintro _ rfl
    unfold upgradeCrypto
    split <;> exact ⟨rfl, rfl, rfl⟩
  obtain ⟨hprev, hdisc, hfil⟩ := hkept _ rfl
  unfold party nextNumber
  rw [hprev, hdisc, hfil, hsp]
  rfl

theorem NoKeys.dataKeys_party (hno : NoKeys c) : (c.upgradeCrypto .data (.oneRtt 0)).party sent =
    { c.party sent with early := (c.upgradeCrypto .data (.oneRtt 0)).zeroRttCrypto } := by
  rw [upgradeCrypto_party, hno.dataKeys.generation, ← hno.generation]
  rfl

theorem upgradeCrypto_error (c : KeyedConnection) (space : SpaceId) (key : KeyId) :
    (c.upgradeCrypto space key).error = c.error := by
  unfold upgradeCrypto
  split <;> rfl

theorem upgradeCrypto_handshake (c : KeyedConnection) :
    ((c.upgradeCrypto .handshake .handshake).spaces .data).crypto = (c.spaces .data).crypto := rfl

theorem early_party (c : KeyedConnection) (early : Bool) :
    ({ c with zeroRttCrypto := early } : KeyedConnection).party sent = { c.party sent with early } := rfl

theorem Stepped.sync {e : KeyEvent} {out : Option Packet} (hs : Stepped limits c e c' out) (hw : Wf c)
    (hcond : Synchronous c e) (hin : ∀ packet, e = .receive packet → Incoming q packet) (h : Inv (c.party sent) q) :
    Inv (c'.party (sent ++ (out.bind record).toList)) q ∧ (∀ packet, out = some packet → Genuine packet) ∧
      (RaisedUpdateError c' → RaisedUpdateError c) := by
  have hnil : sent ++ ((none : Option Packet).bind record).toList = sent := List.append_nil sent
  cases hs with
  | quiet hq =>
    rw [hnil]
    exact ⟨hq.sync h, nofun, hq.error⟩
  | update hu =>
    rw [hnil]
    refine ⟨hu.sync hw (hcond ⟨hu.established, hu.noPrev⟩) h, nofun, ?_⟩
    obtain ⟨next, old, -, -, rfl⟩ := hu.keys
    exact id
  | @transmit d c' space draw out hq hst hb =>
    have hd := answered_sync (hq.sync h)
    have hrdy : space = .data → d.answered.keyPhaseSize ≤ (d.answered.spaces .data).sentWithKeys →
        d.answered.state.isEstablished = true → d.answered.prevCrypto = none → Ready d.answered := by
      rintro rfl hsize hest hprev
      have hc := hcond
      have hrdy := hc (hq.keyPhaseSize ▸ hq.sentWithKeys .data ▸ hsize)
        ⟨hst ▸ hest, hq.prevCrypto ▸ map_eq_none_iff.mp hprev⟩
      exact ⟨hq.zeroRttCrypto.trans hrdy.1, hq.nextNumber.symm ▸ hrdy.2⟩
    have howing : (d.answered.party sent).owing = false := by
      unfold party answered
      cases d.prevCrypto <;> rfl
    obtain ⟨hsync, hgenuine, herr⟩ := hb.sync (hq.wf hw).answered hrdy (fun _ => howing) hd
    exact ⟨hsync, hgenuine, hq.error ∘ herr⟩
  | probe hb =>
    refine hb.sync hw (fun _ hsize hest hprev => hcond.1 hsize ⟨hest, hprev⟩) (fun _ => ?_) h
    unfold party
    cases hprev : c.prevCrypto with
    | none => rfl
    | some prev => exact hcond.2 prev hprev
  | receive hr =>
    rw [hnil]
    obtain ⟨hsync, herr⟩ := hr.sync hw (hin _ rfl) hcond h
    exact ⟨hsync, nofun, herr⟩
  | discard ha =>
    rw [hnil]
    exact ⟨h.move (.discard ha), nofun, id⟩
  | handshakeKeys hh =>
    rw [hnil]
    refine ⟨?_, nofun, raised_congr (upgradeCrypto_error _ _ _)⟩
    rw [upgradeCrypto_party, generation_congr (upgradeCrypto_handshake c)]
    exact (hw.noKeys hh).sync _ h
  | dataKeys hh =>
    rw [hnil]
    refine ⟨?_, nofun, raised_congr (upgradeCrypto_error _ _ _)⟩
    rw [(hw.noKeys hh).dataKeys_party]
    exact (hw.noKeys hh).sync _ h
  | @flight early hh =>
    rw [hnil]
    have herr := upgradeCrypto_error c .handshake .handshake
    refine ⟨?_, nofun, raised_congr ((upgradeCrypto_error _ .data (.oneRtt 0)).trans herr)⟩
    have hno := (hw.handshakeKeys hh).noKeys nofun
    rw [early_party, hno.dataKeys_party, upgradeCrypto_party, generation_congr (upgradeCrypto_handshake c)]
    exact (hw.noKeys hh).sync early h
  | retry _ =>
    rw [hnil]
    exact ⟨h, nofun, id⟩

end KeyedConnection

open Function Metered List

/-- Two connections and the packets they sent. A packet may arrive at any time, any number of times or never. -/
structure KeySystem where
  ends : Side → KeyedConnection
  net : List (Side × Packet)
  /-- For each 1-RTT packet that was accepted, the key it was sealed with and the key it was opened with. -/
  accepted : List (KeyId × KeyId)

namespace KeySystem
open KeyedConnection

inductive Event where
  | act (side : Side) (e : KeyEvent)
  | deliver (side : Side) (i : Nat)
  deriving DecidableEq

def acceptance (c : KeyedConnection) (packet : Packet) : Option (KeyId × KeyId) :=
  match packet.header.isShort, c.decryptPacketBody packet with
  | true, some (.ok (some r)) => do
    let (sealedKey, _) ← packet.sealedWith
    let (key, _) ← c.openingKey packet.header r.number
    some (sealedKey, key)
  | _, _ => none

def advance (limits : AeadLimits) (s : KeySystem) (side : Side) (e : KeyEvent) (accepted : Option (KeyId × KeyId)) :
    Option KeySystem :=
  ((s.ends side).step limits e).map fun (c, out) =>
    ⟨update s.ends side c, s.net ++ (out.map fun packet => (side, packet)).toList, s.accepted ++ accepted.toList⟩

def step (limits : AeadLimits) (s : KeySystem) : Event → Option KeySystem
  | .act _ (.receive _) => none
  | .act side e => s.advance limits side e none
  | .deliver side i =>
    match s.net[i]? with
    | some (src, packet) =>
      if src = side.peer then s.advance limits side (.receive packet) (acceptance (s.ends side) packet) else none
    | none => none

inductive Start : KeySystem → Prop
  | intro (setup : Side → Setup) : Start ⟨fun side => .new side (setup side), [], []⟩

def Synchronous (s : KeySystem) : Event → Prop
  | .act side e => (s.ends side).Synchronous e
  | .deliver side i => ∀ x ∈ s.net[i]?, (s.ends side).Synchronous (.receive x.2)

def sentBy (net : List (Side × Packet)) (side : Side) : List (Nat × Nat) :=
  net.filterMap fun x => if x.1 = side then record x.2 else none

structure Synced (s : KeySystem) : Prop where
  wf : ∀ side, Wf (s.ends side)
  sync : ∀ side, Inv ((s.ends side).party (sentBy s.net side))
    ((s.ends side.peer).party (sentBy s.net side.peer))
  genuine : ∀ x ∈ s.net, Genuine x.2
  accepted : ∀ a ∈ s.accepted, a.1 = a.2
  error : ∀ side, ¬ RaisedUpdateError (s.ends side)

variable {limits : AeadLimits} {s t : KeySystem}

theorem sentBy_append (net : List (Side × Packet)) (side : Side) (out : Option Packet) :
    sentBy (net ++ (out.map fun packet => (side, packet)).toList) side = sentBy net side ++ (out.bind record).toList := by
  unfold sentBy
  rw [filterMap_append]
  cases out with
  | none => rfl
  | some packet =>
    cases hr : record packet <;> simp [hr]

theorem sentBy_append_peer (net : List (Side × Packet)) (side : Side) (out : Option Packet) :
    sentBy (net ++ (out.map fun packet => (side, packet)).toList) side.peer = sentBy net side.peer := by
  unfold sentBy
  rw [filterMap_append]
  cases out with
  | none => simp
  | some packet => simp [(Side.peer_ne side).symm]

theorem acceptance_eq {c : KeyedConnection} {packet : Packet} {a : KeyId × KeyId} (h : acceptance c packet = some a) :
    a.1 = a.2 := by
  unfold acceptance at h
  split at h
  · next r _ hbody =>
    obtain ⟨key, hkey, hseal⟩ := ((decryptPacketBody_inv hbody).1 r rfl).key
    obtain ⟨x, hx, h⟩ := bind_eq_some_iff.mp h
    obtain ⟨y, hy, rfl⟩ := exists_of_bind h
    obtain rfl := some.inj (hseal.symm.trans hx)
    obtain rfl := some.inj (hkey.symm.trans hy)
    rfl
  · cases h

theorem Synced.advance (h : Synced s) {side : Side} {e : KeyEvent} {accepted : Option (KeyId × KeyId)}
    (hcond : (s.ends side).Synchronous e) (hin : ∀ packet, e = .receive packet → (side.peer, packet) ∈ s.net)
    (hacc : ∀ a, accepted = some a → a.1 = a.2) (ht : s.advance limits side e accepted = some t) : Synced t := by
  obtain ⟨⟨c, out⟩, hstep, rfl⟩ := map_eq_some_iff.mp ht
  have hs := step_inv hstep
  have hinc : ∀ packet, e = .receive packet →
      KeyedConnection.Incoming ((s.ends side.peer).party (sentBy s.net side.peer)) packet := by
    intro packet hpkt
    have hmem := hin packet hpkt
    refine ⟨h.genuine _ hmem, fun x hx => mem_filterMap.mpr ⟨_, hmem, ?_⟩⟩
    rw [if_pos rfl]
    exact hx
  obtain ⟨hsync, hgenuine, herr⟩ := hs.sync (h.wf side) hcond hinc (h.sync side)
  rw [← sentBy_append, ← sentBy_append_peer s.net side out] at hsync
  refine ⟨?_, ?_, fun x hx => ?_, fun a ha => ?_, ?_⟩
  · exact (forall_update_iff _ fun _ d => Wf d).mpr ⟨hs.wf (h.wf side), fun a _ => h.wf a⟩
  · intro a
    have hself : update s.ends side c side = c := update_self _ _ _
    have hpeer : update s.ends side c side.peer = s.ends side.peer :=
      update_of_ne (Side.peer_ne side) _ _
    dsimp only
    by_cases ha : a = side
    · subst ha
      rw [hself, hpeer]
      exact hsync
    obtain rfl := Side.eq_peer ha
    rw [Side.peer_peer, hself, hpeer]
    exact hsync.symm
  · rcases mem_append.mp hx with hx | hx
    · exact h.genuine x hx
    obtain ⟨packet, hout, rfl⟩ := map_eq_some_iff.mp (mem_toList.mp hx)
    exact hgenuine packet hout
  · rcases mem_append.mp ha with ha | ha
    · exact h.accepted a ha
    · exact hacc a (mem_toList.mp ha)
  · exact (forall_update_iff _ fun _ d => ¬ RaisedUpdateError d).mpr
      ⟨fun hr => h.error side (herr hr), fun a _ => h.error a⟩

theorem Synced.step (h : Synced s) {e : Event} (hcond : Synchronous s e) (ht : s.step limits e = some t) : Synced t := by
  cases e with
  | act side e =>
    have hact : s.advance limits side e none = some t := by
      cases e with
      | receive packet => cases ht
      | _ => exact ht
    have hne : ∀ packet, e ≠ .receive packet := by
      rintro packet rfl
      cases ht
    refine h.advance hcond (fun packet hp => absurd hp (hne packet)) (fun a ha => ?_) hact
    cases ha
  | deliver side i =>
    simp only [KeySystem.step] at ht
    split at ht
    · next src packet hnet =>
      split at ht
      · next hsrc =>
        subst hsrc
        refine h.advance (hcond _ hnet) (fun packet' hp => ?_) (fun a ha => acceptance_eq ha) ht
        obtain rfl := KeyEvent.receive.inj hp
        exact mem_of_getElem? hnet
      · cases ht
    · cases ht

theorem synced_start (h : Start s) : Synced s := by
  obtain ⟨setup⟩ := h
  refine ⟨fun side => wf_new _ _, fun side => ?_, nofun, nofun, fun side => ?_⟩
  · have hhalf : ∀ a b : Side, Half ((KeyedConnection.new a (setup a)).party [])
        ((KeyedConnection.new b (setup b)).party []) := fun a b =>
      ⟨nofun, nofun, zero_le, fun _ => le_rfl, nofun, .inr rfl, fun hlt => absurd hlt (lt_irrefl _),
        nofun, fun _ => nofun, nofun⟩
    exact ⟨hhalf _ _, hhalf _ _⟩
  · rintro ⟨e, he, -⟩
    cases he

/-- In every run the key generations of the two sides are at most one apart, every accepted 1-RTT packet is opened with
    the key that sealed it, and no key update is refused; on the conditions of `Synchronous`. -/
theorem key_update_synchronised (limits : AeadLimits) {s : KeySystem} (h : Reaches (step limits) Synchronous Start s) :
    (∀ side, (s.ends side).generation ≤ (s.ends side.peer).generation + 1) ∧ (∀ a ∈ s.accepted, a.1 = a.2) ∧
      ∀ side, ¬ RaisedUpdateError (s.ends side) := by
  have hs : Synced s := h.invariant (fun _ => synced_start) fun _ _ _ hi hc hstep => hi.step hc hstep
  exact ⟨fun side => (hs.sync side).left.lead, hs.accepted, hs.error⟩

instance (c : KeyedConnection) : Decidable (Updatable c) := inferInstanceAs (Decidable (_ ∧ _))

instance (c : KeyedConnection) : Decidable (Ready c) := inferInstanceAs (Decidable (_ ∧ _))

instance (c : KeyedConnection) (packet : Packet) : Decidable (Unmistaken c packet) := inferInstanceAs (Decidable (_ → ¬ (_ ∧ _)))

instance (c : KeyedConnection) : DecidablePred c.Synchronous := fun e => by
  delta KeyedConnection.Synchronous
  induction e using KeyEvent.casesOn <;> first | infer_instance |
    (rename_i space _; induction space using SpaceId.casesOn <;> infer_instance)

instance (s : KeySystem) : DecidablePred s.Synchronous := fun e => by
  unfold Synchronous
  split <;> infer_instance

def initial (early : Bool) : KeySystem :=
  ⟨fun side => .new side { plainSetup with early }, [], []⟩

theorem initial_start (early : Bool) : Start (initial early) :=
  .intro fun _ => { plainSetup with early }

/-- The handshake, with packets 0 to 4; the Handshake packet 3 of the server is still on its way. -/
def handshake (early : Bool) : List Event :=
  [.act .client (.transmit .initial 0), .deliver .server 0, .act .server (.serverFlight early),
    .act .server (.transmit .initial 0), .act .server (.transmit .handshake 0), .act .server (.transmit .handshake 0),
    .deliver .client 1, .act .client .upgradeCrypto, .deliver .client 2, .act .client .upgradeCrypto,
    .act .client .establish, .act .client (.transmit .handshake 0), .deliver .server 4, .act .server .establish]

/-- The client updates its keys with packet 6, the server answers with packet 7, and the client drops the old keys. -/
def update : List Event :=
  [.act .client (.transmit .data 0), .deliver .server 5, .act .client .forceKeyUpdate, .act .client (.transmit .data 0),
    .deliver .server 6, .act .server (.transmit .data 0), .deliver .client 7, .act .client .keyDiscard]

def generations (s : KeySystem) : Nat × Nat := ((s.ends .client).generation, (s.ends .server).generation)

theorem key_update_synchronised_update : ∃ s, Reaches (step aesLimits) Synchronous Start s ∧
    generations s = (1, 1) ∧ s.accepted.length = 3 ∧ (∀ a ∈ s.accepted, a.1 = a.2) ∧
      ∀ side, ¬ RaisedUpdateError (s.ends side) := by
  obtain ⟨s, hr, hgen, hlength⟩ : ∃ s, Reaches (step aesLimits) Synchronous Start s ∧ generations s = (1, 1) ∧
      s.accepted.length = 3 :=
    Reaches.exists_of_runFrom (.start (initial_start false)) (handshake false ++ update) (by decide +kernel)
  exact ⟨s, hr, hgen, hlength, (key_update_synchronised aesLimits hr).2⟩

/-- The timer that is to drop the keys for early data drops the keys before the server's own update, and the server
    updates once more. -/
def earlyDiscard : List Event :=
  [.act .client (.transmit .data 0), .deliver .server 5, .act .server .forceKeyUpdate, .act .server .keyDiscard,
    .act .server .forceKeyUpdate]

def updateAtOnce : List Event :=
  [.act .client .forceKeyUpdate, .act .client (.transmit .data 0), .deliver .server 5]

/-- The server answers the update with an MTU probe only, and the client updates once more. -/
def answeredByProbe : List Event :=
  [.act .client (.transmit .data 0), .deliver .server 5, .act .client .forceKeyUpdate, .act .client (.transmit .data 0),
    .deliver .server 6, .act .server (.probe 0), .deliver .client 7, .act .client .keyDiscard,
    .act .client .forceKeyUpdate, .act .client (.transmit .data 0), .deliver .server 8]

/-- A late Handshake packet passes for the answer to the second update. -/
def lateHandshake : List Event :=
  update ++ [.act .client .forceKeyUpdate, .deliver .client 3, .act .client .keyDiscard, .act .client .forceKeyUpdate]

/-- Without the conditions the generations get two apart, in two ways, and a server refuses the update of an honest
    client, in two ways. -/
theorem key_update_desynchronised : (∃ s, Reaches (step aesLimits) (fun _ _ => True) Start s ∧ generations s = (0, 2)) ∧
    (∃ s, Reaches (step aesLimits) (fun _ _ => True) Start s ∧ generations s = (3, 1)) ∧
    (∃ s, Reaches (step aesLimits) (fun _ _ => True) Start s ∧ generations s = (1, 0) ∧
      (s.ends .server).error = some (.transportError ⟨.keyUpdateError, ""⟩)) ∧
    ∃ s, Reaches (step aesLimits) (fun _ _ => True) Start s ∧ generations s = (2, 1) ∧
      (s.ends .server).error = some (.transportError ⟨.keyUpdateError, ""⟩) := by
  refine ⟨?_, ?_, ?_, ?_⟩
  · exact Reaches.exists_of_runFrom (.start (initial_start true)) (handshake true ++ earlyDiscard) (by decide +kernel)
  · exact Reaches.exists_of_runFrom (.start (initial_start false)) (handshake false ++ lateHandshake) (by decide +kernel)
  · exact Reaches.exists_of_runFrom (.start (initial_start false)) (handshake false ++ updateAtOnce) (by decide +kernel)
  · exact Reaches.exists_of_runFrom (.start (initial_start false)) (handshake false ++ answeredByProbe) (by decide +kernel)

end KeySystem
end SaorsaTransport
