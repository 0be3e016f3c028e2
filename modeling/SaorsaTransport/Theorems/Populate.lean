import SaorsaTransport.Populate
import SaorsaTransport.Theorems.Streams.SendInv

/-! What is queued for the data space can be sent. As long as there is room, every class of frames that `is_empty` looks
    at is written, except for the requests to connect and their responses, which nothing ever takes. -/

namespace SaorsaTransport
open Library StreamsState List Option

/-- How much there is to be sent; each byte of a CRYPTO frame counts. -/
def Pending.load (self : Pending) : Nat :=
  self.toRetransmits.load + (self.crypto.map fun frame => 1 + frame.data.length).sum + self.newCids.length +
    self.retireCids.length + self.ackFrequency.toNat + self.handshakeDone.toNat + self.newTokens.length +
    self.addAddresses.length + self.punchMeNow.length + self.removeAddresses.length + self.outboundObservations.length +
    self.tryConnectTo.length + self.tryConnectToResponses.length

namespace Populate
namespace Writer
variable {w v u : Writer} {P Q : Prop}

def load (w : Writer) : Nat := w.source.pending.load

/-! ### Parts of the packet that take from queues -/

def Still (w v : Writer) : Prop := v.load = w.load ∨ v.encoded = true ∧ v.frames.length = w.frames.length

/-- A part of the packet is written. If nothing comes of it, then `Rest` is how things are. -/
structure Part (w v : Writer) (Rest : Prop) : Prop where
  frames_le : w.frames.length ≤ v.frames.length
  load_le : v.load ≤ w.load
  failed : v.encoded = false → v.load < w.load
  still : Still w v → Rest

theorem Part.mono (h : Part w v P) (hpq : P → Q) : Part w v Q := { h with still := fun hs => hpq (h.still hs) }

theorem Part.refl (hencoded : w.encoded = true) (h : P) : Part w w P :=
  ⟨le_rfl, le_rfl, fun hfail => (by rw [hencoded] at hfail; cases hfail), fun _ => h⟩

theorem Part.step (hload : v.load < w.load) (hfr : w.frames.length < v.frames.length) (h : Part v u P) : Part w u Q where
  frames_le := hfr.le.trans h.frames_le
  load_le := h.load_le.trans hload.le
  failed _ := h.load_le.trans_lt hload
  still hs := by
    rcases hs with heq | ⟨-, heq⟩
    · exact absurd heq (ne_of_lt (h.load_le.trans_lt hload))
    · exact absurd heq (ne_of_gt (hfr.trans_le h.frames_le))

theorem Part.abort (h : Part w v P) (hfail : v.encoded = false) : Part w v Q := by
  refine { h with still := fun hs => ?_ }
  rcases hs with heq | ⟨htrue, -⟩
  · exact absurd heq (ne_of_lt (h.failed hfail))
  · exact absurd (hfail.symm.trans htrue) nofun

theorem Part.trans (hencoded : v.encoded = true) (h : Part w v P) (h' : Part v u Q) : Part w u (P ∧ Q) where
  frames_le := h.frames_le.trans h'.frames_le
  load_le := h'.load_le.trans h.load_le
  failed hfail := (h'.failed hfail).trans_le h.load_le
  still hs := by
    have h₁ := h.frames_le
    have h₂ := h'.frames_le
    have h₃ := h.load_le
    have h₄ := h'.load_le
    rcases hs with heq | ⟨hu, heq⟩
    · exact ⟨h.still (.inl (by omega)), h'.still (.inl (by omega))⟩
    · exact ⟨h.still (.inr ⟨hencoded, by omega⟩), h'.still (.inr ⟨hu, by omega⟩)⟩

theorem Part.andThen {next : Writer → Writer} (h : Part w v P) (h' : v.encoded = true → Part v (next v) Q) :
    Part w (v.andThen next) (P ∧ Q ∧ v.encoded = true) := by
  unfold Writer.andThen
  split
  · next hencoded => exact (h.trans hencoded (h' hencoded)).mono fun hpq => ⟨hpq.1, hpq.2, hencoded⟩
  · next hencoded => exact h.abort (Bool.not_eq_true _ ▸ hencoded)

/-! ### Queues -/

/-- A part that takes from one queue: it does nothing only if there is no room for a frame, or the queue is empty. -/
abbrev Empties {α : Type} (w v : Writer) (maxSize bound : Nat) (queue : List α) : Prop :=
  Part w v (v = w ∧ (w.len + bound < maxSize → queue = []))

section Queues
variable (supply : Supply) (hencoded : w.encoded = true)
include hencoded

theorem fromQueue_part {α : Type} {maxSize bound : Nat} {kind : FrameType} {size : α → Nat} {encodable : α → Bool}
    {queue : List α} {put : Pending → List α → Pending}
    (hload : ∀ rest, (put w.source.pending rest).load + queue.length = w.load + rest.length)
    (hput : put w.source.pending queue = w.source.pending) :
    Empties w (w.fromQueue maxSize kind bound size encodable queue put) maxSize bound queue := by
  unfold fromQueue
  have hln := @fill_length α bound maxSize size encodable queue.reverse w.len
  have hidle := @fill_idle α bound maxSize size encodable queue.reverse w.len
  generalize fill bound maxSize size encodable queue.reverse w.len = filled at hln hidle
  rw [length_reverse] at hln
  generalize hv : ({ w.setPending (put w.source.pending filled.rest.reverse) with
    len := filled.len, frames := w.frames ++ replicate filled.count kind, encoded := filled.ok } : Writer) = v
  have hfr : v.frames.length = w.frames.length + filled.count := by
    rw [← hv, length_append, length_replicate]
  have htaken : v.load + filled.taken = w.load := by
    have h := hload filled.rest.reverse
    rw [length_reverse] at h
    rw [← hv]
    change (put w.source.pending filled.rest.reverse).load + filled.taken = w.load
    omega
  have hok : v.encoded = filled.ok := by rw [← hv]
  refine ⟨by omega, by omega, fun hfail => ?_, fun hs => ?_⟩
  · rw [hok] at hfail
    simp only [Filled.taken, hfail, Bool.false_eq_true, if_false] at htaken
    omega
  · have hzero : filled.taken = 0 := by
      rcases hs with heq | ⟨htrue, heq⟩
      · omega
      simp only [Filled.taken, ← hok, htrue, if_true]
      omega
    obtain ⟨rfl, hemp⟩ := hidle hzero
    refine ⟨?_, fun hroom => reverse_eq_nil_iff.mp (hemp hroom)⟩
    rw [← hv, reverse_reverse, hput, replicate_zero, append_nil, ← hencoded]
    rfl

theorem newConnectionId_part : Empties w (w.newConnectionId supply) supply.maxSize 44 w.source.pending.newCids :=
  fromQueue_part hencoded (fun rest => by simp only [load, Pending.load]; omega) rfl

theorem retireConnectionId_part : Empties w (w.retireConnectionId supply) supply.maxSize 9 w.source.pending.retireCids :=
  fromQueue_part hencoded (fun rest => by simp only [load, Pending.load]; omega) rfl

theorem addAddress_part : Empties w (w.addAddress supply) supply.maxSize 49 w.source.pending.addAddresses :=
  fromQueue_part hencoded (fun rest => by simp only [load, Pending.load]; omega) rfl

theorem punchMeNow_part : Empties w (w.punchMeNow supply) supply.maxSize 82 w.source.pending.punchMeNow :=
  fromQueue_part hencoded (fun rest => by simp only [load, Pending.load]; omega) rfl

theorem removeAddress_part : Empties w (w.removeAddress supply) supply.maxSize 13 w.source.pending.removeAddresses :=
  fromQueue_part hencoded (fun rest => by simp only [load, Pending.load]; omega) rfl

theorem observedAddress_part : Empties w (w.observedAddress supply) supply.maxSize 30 w.source.pending.outboundObservations :=
  fromQueue_part hencoded (fun rest => by simp only [load, Pending.load]; omega) rfl

theorem addresses_part :
    Part w ((((w.addAddress supply).punchMeNow supply).removeAddress supply).observedAddress supply)
      ((w.len + 49 < supply.maxSize → w.source.pending.addAddresses = []) ∧
        (w.len + 82 < supply.maxSize → w.source.pending.punchMeNow = []) ∧
        (w.len + 13 < supply.maxSize → w.source.pending.removeAddresses = []) ∧
        (w.len + 30 < supply.maxSize → w.source.pending.outboundObservations = [])) := by
  have hadd : (w.addAddress supply).encoded = true := fill_ok (fun _ => rfl) _ _
  have hpunch : ((w.addAddress supply).punchMeNow supply).encoded = true := fill_ok (fun _ => rfl) _ _
  have hremove : (((w.addAddress supply).punchMeNow supply).removeAddress supply).encoded = true :=
    fill_ok (fun _ => rfl) _ _
  refine ((addAddress_part supply hencoded).trans hadd ((punchMeNow_part supply hadd).trans hpunch
    ((removeAddress_part supply hpunch).trans hremove (observedAddress_part supply hremove)))).mono ?_
  rintro ⟨⟨hsame₁, hnil₁⟩, ⟨hsame₂, hnil₂⟩, ⟨hsame₃, hnil₃⟩, -, hnil₄⟩
  rw [hsame₁] at hsame₂ hnil₂
  rw [hsame₁, hsame₂] at hsame₃ hnil₃
  rw [hsame₁, hsame₂, hsame₃] at hnil₄
  exact ⟨hnil₁, hnil₂, hnil₃, hnil₄⟩

end Queues

/-! ### Datagrams and tokens -/

theorem datagram_eq (maxSize : Nat) : ∀ (datagrams : List Bytes) (w : Writer), ∃ rest len frames,
    datagram maxSize datagrams w = ⟨{ w.source with datagrams := rest }, w.len + len, w.frames ++ frames, w.encoded⟩ ∧
      len ≤ (datagrams.map datagramLen).sum
  | [], w => ⟨[], 0, [], by rw [append_nil]; rfl, le_rfl⟩
  | data :: datagrams, w => by
    unfold datagram
    split
    · obtain ⟨rest, len, frames, heq, hle⟩ := datagram_eq maxSize datagrams (w.write .datagram (datagramLen data))
      refine ⟨rest, datagramLen data + len, [.datagram] ++ frames, ?_, ?_⟩
      · rw [heq, ← append_assoc, ← add_assoc]
        rfl
      · rw [map_cons, sum_cons]
        omega
    · exact ⟨data :: datagrams, 0, [], by rw [append_nil]; rfl, zero_le⟩

/-- Tokens are taken from the queue, and every frame takes one. -/
theorem newToken_eq (supply : Supply) : ∀ (tokens : List SocketAddr) (w : Writer), ∃ rest len frames,
    newToken supply tokens w =
      ⟨{ w.source with pending := { w.source.pending with newTokens := rest } }, w.len + len, w.frames ++ frames, w.encoded⟩ ∧
        rest.length + frames.length ≤ tokens.length ∧ (frames = [] → len = 0)
  | [], w => ⟨[], 0, [], by rw [append_nil]; rfl, le_rfl, fun _ => rfl⟩
  | remote :: tokens, w => by
    have hstop : ∃ rest len frames, w.setPending { w.source.pending with newTokens := (remote :: tokens).reverse } =
        ⟨{ w.source with pending := { w.source.pending with newTokens := rest } }, w.len + len, w.frames ++ frames, w.encoded⟩ ∧
          rest.length + frames.length ≤ (remote :: tokens).length ∧ (frames = [] → len = 0) :=
      ⟨_, 0, [], by rw [append_nil]; rfl, by rw [length_reverse]; rfl, fun _ => rfl⟩
    have hdrop : ∃ rest len frames, newToken supply tokens w =
        ⟨{ w.source with pending := { w.source.pending with newTokens := rest } }, w.len + len, w.frames ++ frames, w.encoded⟩ ∧
          rest.length + frames.length ≤ (remote :: tokens).length ∧ (frames = [] → len = 0) := by
      obtain ⟨rest, len, frames, heq, hle, hlen⟩ := newToken_eq supply tokens w
      exact ⟨rest, len, frames, heq, Nat.le_succ_of_le hle, hlen⟩
    unfold newToken
    split
    · exact hdrop
    split
    · exact hstop
    split
    · exact hdrop
    split
    · exact hstop
    next tokenLen _ _ =>
    obtain ⟨rest, len, frames, heq, hle, -⟩ := newToken_eq supply tokens (w.write .newToken (newTokenLen tokenLen))
    refine ⟨rest, newTokenLen tokenLen + len, [.newToken] ++ frames, ?_, ?_, nofun⟩
    · rw [heq, ← append_assoc, ← add_assoc]
      rfl
    · simp only [length_append, length_cons, length_nil]
      omega

/-- The token that is next is for the current path, can be made, and has room. -/
structure TokenReady (supply : Supply) (s : Source) (len : Nat) : Prop where
  server : s.side = .server
  current : s.pending.newTokens.getLast? = some s.remote
  bound : s.delayNewTokenUntilBinding = true → s.peerIdForTokens ≠ none
  room : ∃ tokenLen, supply.tokenLen = some tokenLen ∧ len + newTokenLen tokenLen < supply.maxSize

variable {supply : Supply} {source : Source} {extra : Nat}

theorem newToken_of_ready (h : TokenReady supply w.source w.len) :
    ∃ tokens tokenLen, w.source.pending.newTokens.length = tokens.length + 1 ∧
      newToken supply w.source.pending.newTokens.reverse w = newToken supply tokens (w.write .newToken (newTokenLen tokenLen)) := by
  obtain ⟨tokens, htok⟩ := getLast?_eq_some_iff.mp h.current
  obtain ⟨tokenLen, hsome, hroom⟩ := h.room
  refine ⟨tokens.reverse, tokenLen, by rw [htok, length_append, length_reverse]; rfl, ?_⟩
  have hserver : ¬(w.source.side = .client ∨ w.source.remote ≠ w.source.remote) := by
    rw [h.server]
    rintro (hside | hne)
    · cases hside
    · exact hne rfl
  have hbd : ¬(w.source.delayNewTokenUntilBinding ∧ w.source.peerIdForTokens = none) := fun hdelay => h.bound hdelay.1 hdelay.2
  rw [htok, reverse_append, reverse_singleton, singleton_append, newToken, if_neg hserver, if_neg hbd]
  simp only [hsome]
  rw [if_neg (not_le.mpr hroom)]

theorem load_newTokens (s : Source) (rest : List SocketAddr) :
    ({ s.pending with newTokens := rest } : Pending).load + s.pending.newTokens.length = s.pending.load + rest.length := by
  simp only [Pending.load]
  omega

/-- If nothing comes of it, then the next token was not ready; those for another address may be gone. -/
theorem newToken_part (supply : Supply) (hencoded : w.encoded = true) :
    Part w (newToken supply w.source.pending.newTokens.reverse w)
      (¬ TokenReady supply w.source w.len ∧ ∃ rest, newToken supply w.source.pending.newTokens.reverse w =
        w.setPending { w.source.pending with newTokens := rest }) := by
  by_cases hrdy : TokenReady supply w.source w.len
  · obtain ⟨tokens, tokenLen, hln, heq⟩ := newToken_of_ready hrdy
    obtain ⟨rest, len, frames, heq', hle, -⟩ := newToken_eq supply tokens (w.write .newToken (newTokenLen tokenLen))
    have hload := load_newTokens w.source rest
    rw [heq, heq']
    refine Part.step (P := True) (v := _) ?_ ?_ (.refl hencoded trivial)
    · change ({ w.source.pending with newTokens := rest } : Pending).load < w.source.pending.load
      omega
    · simp only [write, length_append, length_singleton]
      omega
  obtain ⟨rest, len, frames, heq, hle, hlen⟩ := newToken_eq supply w.source.pending.newTokens.reverse w
  have hload := load_newTokens w.source rest
  rw [length_reverse] at hle
  rw [heq]
  refine ⟨by simp only [length_append]; omega, ?_, fun hfail => ?_, fun hs => ⟨hrdy, rest, ?_⟩⟩
  · change ({ w.source.pending with newTokens := rest } : Pending).load ≤ w.source.pending.load
    omega
  · exact absurd (hencoded.symm.trans hfail) nofun
  · have hnil : frames = [] := by
      refine length_eq_zero_iff.mp ?_
      rcases hs with hsame | ⟨-, hsame⟩
      · change ({ w.source.pending with newTokens := rest } : Pending).load = w.source.pending.load at hsame
        omega
      · simp only [length_append] at hsame
        omega
    rw [hlen hnil, hnil, append_nil]
    rfl

theorem TokenReady.mono {s : Source} {len len' : Nat} (h : TokenReady supply s len) (hle : len' ≤ len) :
    TokenReady supply s len' := by
  obtain ⟨tokenLen, hsome, hroom⟩ := h.room
  exact ⟨h.server, h.current, h.bound, tokenLen, hsome, by omega⟩

/-- Something is pending that is written behind the datagrams and has room behind `len` bytes. -/
def Late (supply : Supply) (s : Source) (len : Nat) : Prop :=
  TokenReady supply s len ∨ (s.pending.addAddresses ≠ [] ∧ len + 49 < supply.maxSize) ∨
    (s.pending.punchMeNow ≠ [] ∧ len + 82 < supply.maxSize) ∨
    (s.pending.removeAddresses ≠ [] ∧ len + 13 < supply.maxSize) ∨
    (s.pending.outboundObservations ≠ [] ∧ len + 30 < supply.maxSize)

/-- Something is pending that is written in front of the datagrams, behind what opens the packet. -/
def Early (supply : Supply) (s : Source) (len : Nat) : Prop :=
  (s.pending.crypto ≠ [] ∧ len + 17 < supply.maxSize) ∨
    (¬ ControlWriter.Quiet s.pending.toRetransmits s.streams ∧ len + 25 < supply.maxSize) ∨
    (s.pending.newCids ≠ [] ∧ len + 44 < supply.maxSize) ∨ (s.pending.retireCids ≠ [] ∧ len + 9 < supply.maxSize)

theorem lastQueues_part (supply : Supply) (hencoded : w.encoded = true) :
    Part w (w.lastQueues supply) (¬ Late supply w.source (w.len + (w.source.datagrams.map datagramLen).sum)) := by
  obtain ⟨rest, len, frames, hw₁, hlen⟩ := datagram_eq supply.maxSize w.source.datagrams w
  unfold lastQueues
  generalize datagram supply.maxSize w.source.datagrams w = w₁ at hw₁ ⊢
  have hencoded₁ : w₁.encoded = true := by rw [hw₁]; exact hencoded
  have hfst : Part w w₁ True := by
    subst hw₁
    exact ⟨by simp, le_rfl, fun hfalse => absurd (hencoded.symm.trans hfalse) nofun, fun _ => trivial⟩
  obtain ⟨_, _, _, hnew, -⟩ := newToken_eq supply w₁.source.pending.newTokens.reverse w₁
  have hencoded₂ : (newToken supply w₁.source.pending.newTokens.reverse w₁).encoded = true := by
    rw [hnew]
    exact hencoded₁
  refine (hfst.trans hencoded₁ ((newToken_part supply hencoded₁).trans hencoded₂
    (addresses_part supply hencoded₂))).mono ?_
  rintro ⟨-, ⟨hunready, tokens, htok⟩, hadd, hpunch, hremove, hobserved⟩
  rw [htok, hw₁] at hadd hpunch hremove hobserved
  dsimp only [setPending] at hadd hpunch hremove hobserved
  rintro (hrdy | ⟨hne, hroom⟩ | ⟨hne, hroom⟩ | ⟨hne, hroom⟩ | ⟨hne, hroom⟩)
  · subst hw₁
    exact hunready { hrdy with room := (hrdy.mono (Nat.add_le_add_left hlen _)).room }
  · exact hne (hadd (by omega))
  · exact hne (hpunch (by omega))
  · exact hne (hremove (by omega))
  · exact hne (hobserved (by omega))

/-! ### All queues -/

theorem queues_part (supply : Supply) (hencoded : w.encoded = true) :
    Part w (w.queues supply)
      ((w.len + 44 < supply.maxSize → w.source.pending.newCids = []) ∧
        (w.len + 9 < supply.maxSize → w.source.pending.retireCids = []) ∧
        ¬ Late supply w.source (w.len + (w.source.datagrams.map datagramLen).sum)) := by
  refine (((newConnectionId_part supply hencoded).andThen (retireConnectionId_part supply)).andThen
    (lastQueues_part supply)).mono ?_
  rintro ⟨⟨⟨hsame₁, hnil₁⟩, ⟨hsame₂, hnil₂⟩, -⟩, hlast, -⟩
  rw [hsame₁] at hsame₂ hnil₂
  rw [hsame₁, Writer.andThen, if_pos hencoded, hsame₂] at hlast
  exact ⟨hnil₁, hnil₂, hlast⟩

theorem queues_streams (supply : Supply) (w : Writer) : (w.queues supply).source.streams = w.source.streams := by
  have handThen : ∀ (v : Writer) (next : Writer → Writer), (next v).source.streams = v.source.streams →
      (v.andThen next).source.streams = v.source.streams := by
    intro v next h
    unfold Writer.andThen
    split
    · exact h
    · rfl
  have hlast : ∀ v : Writer, (v.lastQueues supply).source.streams = v.source.streams := by
    intro v
    obtain ⟨rest, len, frames, hdatagram, -⟩ := datagram_eq supply.maxSize v.source.datagrams v
    unfold lastQueues
    rw [hdatagram]
    obtain ⟨rest', len', frames', hnew, -⟩ := newToken_eq supply v.source.pending.newTokens.reverse
      ⟨{ v.source with datagrams := rest }, v.len + len, v.frames ++ frames, v.encoded⟩
    dsimp only
    rw [hnew]
    rfl
  exact (handThen _ _ (hlast _)).trans (handThen _ _ rfl)

/-! ### CRYPTO -/

theorem crypto_eq (maxSize : Nat) : ∀ (fuel : Nat) (w : Writer), ∃ rest,
    (crypto maxSize fuel w).source = { w.source with pending := { w.source.pending with crypto := rest } }
  | 0, w => ⟨_, rfl⟩
  | fuel + 1, w => by
    unfold crypto
    split
    · split
      · exact ⟨_, rfl⟩
      split
      · obtain ⟨rest, heq⟩ := crypto_eq maxSize fuel _
        exact ⟨rest, heq⟩
      · exact ⟨_, rfl⟩
    · exact ⟨_, rfl⟩

theorem cryptoLen_pos {maxSize : Nat} {frame : Crypto} (hroom : w.len + 17 < maxSize) (hdata : frame.data ≠ []) :
    0 < w.cryptoLen maxSize frame := by
  have hpos := length_pos_iff.mpr hdata
  have hsize := VarInt.size_le frame.offset
  unfold cryptoLen calculateCryptoFrameSize
  split <;> omega

theorem crypto_part (maxSize : Nat) : ∀ (fuel : Nat) (w : Writer), w.encoded = true →
    Part w (crypto maxSize fuel w)
      (crypto maxSize fuel w = w ∧ (0 < fuel → w.len + 17 < maxSize → w.source.pending.crypto = []))
  | 0, w, hencoded => .refl hencoded ⟨rfl, fun h => absurd h (lt_irrefl 0)⟩
  | fuel + 1, w, hencoded => by
    unfold crypto
    split
    · next hroom =>
      split
      · next hnil => exact .refl hencoded ⟨rfl, fun _ _ => hnil⟩
      next frame rest hcons =>
      have hload : ∀ frames : List Crypto, ((frames.map fun frame => 1 + frame.data.length).sum <
          ((frame :: rest).map fun frame => 1 + frame.data.length).sum) →
          ({ w.source.pending with crypto := frames } : Pending).load < w.load := by
        intro frames hlt
        rw [← hcons] at hlt
        simp only [load, Pending.load]
        omega
      split
      · refine (crypto_part maxSize fuel _ ?_).step ?_ ?_
        · exact hencoded
        · refine hload _ ?_
          split
          · simp only [map_cons, sum_cons]
            omega
          next hdrop =>
          have hpos := cryptoLen_pos hroom fun hdata : frame.data = [] => hdrop (by rw [hdata, drop_nil])
          have hln := length_pos_iff.mpr hdrop
          simp only [map_cons, sum_cons, length_drop] at hln ⊢
          omega
        · simp only [write, length_append, length_singleton]
          exact lt_add_one _
      have hlt := hload rest (by simp only [map_cons, sum_cons]; omega)
      exact Part.abort (P := Still w _) ⟨le_rfl, hlt.le, fun _ => hlt, id⟩ rfl
    · next hroom => exact .refl hencoded ⟨rfl, fun _ h => absurd h hroom⟩

/-! ### Control frames -/

theorem load_toRetransmits (pending : Pending) (r : Retransmits) :
    ({ pending with toRetransmits := r } : Pending).load + pending.toRetransmits.load = pending.load + r.load := by
  simp only [Pending.load]
  omega

theorem control_part {supply : Supply} (hrst : w.source.streams.Resettable w.source.pending.resetStream)
    (hann : w.source.streams.Announceable) :
    ∃ v, w.control supply = some v ∧ v.source.streams.send = w.source.streams.send ∧ Part w v
      (∃ maxStreamData, v = { w.setPending { w.source.pending with maxStreamData } with encoded := true } ∧
        (w.len + 25 < supply.maxSize → ControlWriter.Quiet w.source.pending.toRetransmits w.source.streams)) := by
  obtain ⟨x, encoded, hx, hspends, hfail, hidle⟩ := ControlWriter.write_spends supply.maxSize
    ⟨w.source.streams, w.source.pending.toRetransmits, .empty, w.len⟩ hrst hann
  have hsend : x.streams.send = w.source.streams.send := by rw [(announced_write hx).eq]
  have hle : x.pending.load ≤ w.source.pending.toRetransmits.load := hspends.load_le
  have hlen : w.len ≤ x.len := hspends.len_le
  have hspent : w.len < x.len → x.pending.load < w.source.pending.toRetransmits.load := hspends.spent
  have hload := load_toRetransmits w.source.pending x.pending
  generalize hpend : ({ w.source.pending with toRetransmits := x.pending } : Pending) = pending at hload
  have hctl : w.control supply = some ⟨{ w.source with streams := x.streams, pending }, x.len,
      if x.len = w.len then w.frames else w.frames ++ [.streamControl], encoded⟩ := by
    rw [control, hx, ← hpend]
    rfl
  refine ⟨_, hctl, hsend, ?_, ?_, fun hfalse => ?_, fun hs => ?_⟩
  · split
    · exact le_rfl
    rw [length_append]
    exact le_self_add
  · simp only [load]
    omega
  · have hlt : x.pending.load < w.source.pending.toRetransmits.load := hfail hfalse
    simp only [load]
    omega
  · -- A frame was written exactly if the packet is longer now.
    have hsame : x.len = w.len := by
      by_contra hne
      rcases hs with heq | ⟨-, heq⟩
      · simp only [load] at heq
        omega
      simp only [if_neg hne, length_append, length_singleton] at heq
      omega
    rw [if_pos hsame]
    obtain ⟨rfl, ⟨maxStreamData, rfl⟩, hqt⟩ := hidle hsame
    exact ⟨maxStreamData, by rw [← hpend]; rfl, hqt⟩

/-! ### The beginning of the packet -/

/-- What was written in front, where `told` is what makes it more than nothing. -/
def Adds (w : Writer) (source : Source) (extra : Nat) (told : Prop) (v : Writer) : Prop :=
  ∃ len frames, v = ⟨source, w.len + len, w.frames ++ frames, w.encoded⟩ ∧ len ≤ extra ∧ (told → frames ≠ [])

section
variable (h : Adds w source extra P v)
include h

theorem Adds.trans {source' : Source} {extra' : Nat}
    (h' : Adds v source' extra' Q u) : Adds w source' (extra + extra') (P ∨ Q) u := by
  obtain ⟨len, frames, rfl, hle, hne⟩ := h
  obtain ⟨len', frames', rfl, hle', hne'⟩ := h'
  refine ⟨len + len', frames ++ frames', ?_, Nat.add_le_add hle hle', fun hpq hnil => ?_⟩
  · simp only [add_assoc, append_assoc]
  · obtain ⟨hfr, hfr'⟩ := append_eq_nil_iff.mp hnil
    exact hpq.elim (fun hp => hne hp hfr) fun hq => hne' hq hfr'

theorem Adds.mono {extra' : Nat} (hle : extra ≤ extra') (hpq : Q → P) : Adds w source extra' Q v := by
  obtain ⟨len, frames, hv, hlen, hne⟩ := h
  exact ⟨len, frames, hv, hlen.trans hle, fun hq => hne (hpq hq)⟩

theorem Adds.source_eq : v.source = source := by
  obtain ⟨_, _, rfl, -⟩ := h
  rfl

theorem Adds.len_le : v.len ≤ w.len + extra := by
  obtain ⟨_, _, rfl, hle, -⟩ := h
  exact Nat.add_le_add_left hle _

theorem Adds.encoded_eq : v.encoded = w.encoded := by
  obtain ⟨_, _, rfl, -⟩ := h
  rfl

end

theorem Adds.nothing (h : ¬P) : Adds w w.source extra P w :=
  ⟨0, [], by rw [append_nil]; rfl, zero_le, fun hp => absurd hp h⟩

theorem Adds.frame {kind : FrameType} {len : Nat} (h : len ≤ extra) :
    Adds w source extra P ({ w with source }.write kind len) :=
  ⟨len, [kind], rfl, h, fun _ => cons_ne_nil _ _⟩

theorem handshakeDone_adds (w : Writer) :
    Adds w { w.source with pending := { w.source.pending with handshakeDone := false } } 1
      (w.source.pending.handshakeDone = true) w.handshakeDone := by
  unfold handshakeDone
  split
  · exact .frame (le_refl 1)
  next h =>
  have hfalse := Bool.not_eq_true _ ▸ h
  rw [← hfalse]
  exact .nothing h

theorem ping_adds (w : Writer) :
    ∃ pingPending, Adds w { w.source with pingPending } 1 (w.source.pingPending = true) w.ping := by
  unfold ping
  split
  · exact ⟨_, .frame (le_refl 1)⟩
  · next h => exact ⟨_, .nothing h⟩

theorem immediateAck_adds (w : Writer) :
    ∃ immediateAckPending, Adds w { w.source with immediateAckPending } 1 (w.source.immediateAckPending = true) w.immediateAck := by
  unfold immediateAck
  split
  · exact ⟨_, .frame (le_refl 1)⟩
  · next h => exact ⟨_, .nothing h⟩

theorem ack_adds (w : Writer) (hencodes : supply.ackEncodes = true) :
    Adds w w.source (supply.ackLen.getD 0) False (ack supply w) := by
  unfold ack
  split
  · exact .nothing id
  next len hlen =>
  rw [if_pos hencodes, hlen]
  exact .frame (le_refl len)

theorem ackFrequency_adds {supply : Supply} (w : Writer)
    (hsome : w.source.pending.ackFrequency = true → supply.ackFrequencyLen ≠ none) :
    ∃ v, w.ackFrequency supply = some v ∧ Adds w { w.source with pending := { w.source.pending with ackFrequency := false } }
      (supply.ackFrequencyLen.getD 0) (w.source.pending.ackFrequency = true) v := by
  unfold ackFrequency
  split
  · next h =>
    obtain ⟨len, hlen⟩ := ne_none_iff_exists'.mp (hsome h)
    rw [hlen]
    exact ⟨_, rfl, .frame (le_refl len)⟩
  next h =>
  have hfalse := Bool.not_eq_true _ ▸ h
  rw [← hfalse]
  exact ⟨w, rfl, .nothing h⟩

theorem pathChallenge_adds (supply : Supply) (w : Writer) :
    ∃ challengePending, Adds w { w.source with challengePending } 9 False (w.pathChallenge supply) := by
  unfold pathChallenge
  split
  · exact ⟨_, .frame (le_refl 9)⟩
  · exact ⟨_, .nothing id⟩

theorem pathResponse_adds (supply : Supply) (w : Writer) :
    ∃ pathResponses, Adds w { w.source with pathResponses } 9 False (w.pathResponse supply) := by
  unfold pathResponse
  split
  · split
    · exact ⟨_, .nothing id⟩
    · exact ⟨_, .frame (le_refl 9)⟩
  · exact ⟨_, .nothing id⟩

end Writer

/-! ### The packet -/

def Copyable (streams : StreamsState) : Prop :=
  ∀ id stream, streams.sendAt id = some stream → stream.isReset = false →
    ∃ written inflight, SendBuffer.Reliable stream.pending written inflight

def Supply.opening (supply : Supply) : Nat :=
  supply.len + 21 + supply.ackLen.getD 0 + supply.ackFrequencyLen.getD 0

/-- Nothing but room is wanting: the numbers that are written can be encoded, and what is written exists. -/
structure Sound (supply : Supply) (s : Source) : Prop where
  ackEncodes : supply.ackEncodes = true
  ackFrequency : s.pending.ackFrequency = true → supply.ackFrequencyLen ≠ none
  resettable : s.streams.Resettable s.pending.resetStream
  announceable : s.streams.Announceable
  copyable : Copyable s.streams

/-- Something of what is pending is written. Only what comes behind the datagrams needs room besides them. -/
def Takeable (supply : Supply) (s : Source) : Prop :=
  s.pending.handshakeDone = true ∨ s.pending.ackFrequency = true ∨ Writer.Early supply s supply.opening ∨
    Writer.Late supply s (supply.opening + (s.datagrams.map datagramLen).sum)

def Source.queued (s : Source) : Pending := { s.pending with handshakeDone := false, ackFrequency := false }

def Source.Told (s : Source) : Prop :=
  s.pending.handshakeDone = true ∨ s.pending.ackFrequency = true ∨ s.pingPending = true ∨ s.immediateAckPending = true

structure Opened (supply : Supply) (s t : Source) : Prop where
  pending : t.pending = s.queued
  streams : t.streams = s.streams
  datagrams : t.datagrams = s.datagrams
  token : ∀ len, Writer.TokenReady supply s len → Writer.TokenReady supply t len

section
variable {supply : Supply} {s : Source}

theorem opening_adds (h : Sound supply s) : ∃ t w,
    (Writer.ack supply (Writer.start supply s).handshakeDone.ping.immediateAck).encoded = true ∧
      ((Writer.ack supply (Writer.start supply s).handshakeDone.ping.immediateAck).ackFrequency supply).map
        (fun w => (w.pathChallenge supply).pathResponse supply) = some w ∧
      Opened supply s t ∧
      Writer.Adds (.start supply s) t (21 + supply.ackLen.getD 0 + supply.ackFrequencyLen.getD 0)
        s.Told w := by
  have hadds₁ := Writer.handshakeDone_adds (.start supply s)
  obtain ⟨pingPending, hadds₂⟩ := Writer.ping_adds (Writer.start supply s).handshakeDone
  rw [hadds₁.source_eq] at hadds₂
  obtain ⟨immediateAckPending, hadds₃⟩ := Writer.immediateAck_adds (Writer.start supply s).handshakeDone.ping
  rw [hadds₂.source_eq] at hadds₃
  have hadds₄ := Writer.ack_adds (Writer.start supply s).handshakeDone.ping.immediateAck h.ackEncodes
  rw [hadds₃.source_eq] at hadds₄
  obtain ⟨w, hw, hadds₅⟩ := @Writer.ackFrequency_adds supply
    (.ack supply (Writer.start supply s).handshakeDone.ping.immediateAck) (by rw [hadds₄.source_eq]; exact h.ackFrequency)
  rw [hadds₄.source_eq] at hadds₅
  obtain ⟨challengePending, hadds₆⟩ := Writer.pathChallenge_adds supply w
  rw [hadds₅.source_eq] at hadds₆
  obtain ⟨pathResponses, hadds₇⟩ := Writer.pathResponse_adds supply (w.pathChallenge supply)
  rw [hadds₆.source_eq] at hadds₇
  have hfst := hadds₁.trans (hadds₂.trans (hadds₃.trans hadds₄))
  have hall := hfst.trans (hadds₅.trans (hadds₆.trans hadds₇))
  refine ⟨_, _, hfst.encoded_eq, by rw [hw]; rfl, ?_, hall.mono (by omega) ?_⟩
  · exact ⟨rfl, rfl, rfl, fun len htk => { htk with }⟩
  · rintro (htold | htold | htold | htold)
    · exact .inl (.inl htold)
    · exact .inr (.inl htold)
    · exact .inl (.inr (.inl htold))
    · exact .inl (.inr (.inr (.inl htold)))

theorem writePending_eq {w : Writer}
    (hencoded : (Writer.ack supply (Writer.start supply s).handshakeDone.ping.immediateAck).encoded = true)
    (hw : ((Writer.ack supply (Writer.start supply s).handshakeDone.ping.immediateAck).ackFrequency supply).map
      (fun w => (w.pathChallenge supply).pathResponse supply) = some w) :
    writePending supply s = if !(Writer.crypto supply.maxSize supply.maxSize w).encoded then
        some (.crypto supply.maxSize supply.maxSize w)
      else ((Writer.crypto supply.maxSize supply.maxSize w).control supply).bind
        fun w => some (w.andThen (Writer.queues supply)) := by
  obtain ⟨w, hsome, rfl⟩ := map_eq_some_iff.mp hw
  unfold writePending
  simp [hencoded, hsome]

/-- All frames are written in front of those with stream data, and if none is taken from a queue, there was no room. -/
theorem writePending_part (h : Sound supply s) : ∃ w₀ w, writePending supply s = some w ∧ w₀.source.pending = s.queued ∧
    (s.Told → w₀.frames ≠ []) ∧ w.source.streams.send = s.streams.send ∧
    Writer.Part w₀ w (¬ Writer.Early supply s supply.opening ∧
      ¬ Writer.Late supply s (supply.opening + (s.datagrams.map datagramLen).sum)) := by
  obtain ⟨t, w₀, hencoded, hw₀, hopen, hadds⟩ := opening_adds h
  rw [writePending_eq hencoded hw₀]
  have hsrc := hadds.source_eq
  have hpend : w₀.source.pending = s.queued := by rw [hsrc, hopen.pending]
  have hstreams : w₀.source.streams = s.streams := by rw [hsrc, hopen.streams]
  have hpart₁ := Writer.crypto_part supply.maxSize supply.maxSize w₀ hadds.encoded_eq
  obtain ⟨rest, hcry⟩ := Writer.crypto_eq supply.maxSize supply.maxSize w₀
  have htold : s.Told → w₀.frames ≠ [] := fun htold hnil => by
    obtain ⟨len, frames, rfl, -, hne⟩ := hadds
    exact hne htold hnil
  generalize Writer.crypto supply.maxSize supply.maxSize w₀ = w₁ at hpart₁ hcry
  have hstreams₁ : w₁.source.streams = s.streams := by rw [hcry]; exact hstreams
  have hrst : w₁.source.pending.resetStream = s.pending.resetStream := by
    rw [hcry]
    exact congrArg (·.resetStream) hpend
  cases hencoded₁ : w₁.encoded with
  | false => exact ⟨w₀, w₁, rfl, hpend, htold, by rw [hstreams₁], hpart₁.abort hencoded₁⟩
  | true =>
    obtain ⟨w₂, hw₂, hsend, hpart₂⟩ := @Writer.control_part w₁ supply
      (by rw [hstreams₁, hrst]; exact h.resettable) (by rw [hstreams₁]; exact h.announceable)
    refine ⟨w₀, w₂.andThen (.queues supply), by rw [hw₂]; rfl, hpend, htold, ?_,
      (hpart₁.trans hencoded₁ (hpart₂.andThen (Writer.queues_part supply))).mono ?_⟩
    · rw [← hstreams₁, ← hsend, Writer.andThen]
      split
      · rw [Writer.queues_streams]
      · rfl
    · rintro ⟨⟨rfl, hcrypto⟩, ⟨maxStreamData, rfl, hquiet⟩, ⟨hcids, hretire, hlate⟩, -⟩
      have hlen : w₁.len ≤ supply.opening := hadds.len_le.trans (by simp only [Writer.start, Supply.opening]; omega)
      have hdatagrams : w₁.source.datagrams = s.datagrams := by rw [hsrc, hopen.datagrams]
      dsimp only [Writer.setPending] at hcids hretire hlate
      rw [hpend] at hcrypto hquiet hcids hretire
      rw [hstreams] at hquiet
      rw [hdatagrams] at hlate
      constructor
      · rintro (⟨hne, hroom⟩ | ⟨hne, hroom⟩ | ⟨hne, hroom⟩ | ⟨hne, hroom⟩)
        · exact hne (hcrypto (by omega) (by omega))
        · exact hne (hquiet (by omega))
        · exact hne (hcids (by omega))
        · exact hne (hretire (by omega))
      · intro hs
        have hadd : w₁.source.pending.addAddresses = s.pending.addAddresses := congrArg (·.addAddresses) hpend
        have hpunch : w₁.source.pending.punchMeNow = s.pending.punchMeNow := congrArg (·.punchMeNow) hpend
        have hremove : w₁.source.pending.removeAddresses = s.pending.removeAddresses := congrArg (·.removeAddresses) hpend
        have hobserved : w₁.source.pending.outboundObservations = s.pending.outboundObservations :=
          congrArg (·.outboundObservations) hpend
        refine hlate ?_
        rcases hs with htoken | ⟨hne, hroom⟩ | ⟨hne, hroom⟩ | ⟨hne, hroom⟩ | ⟨hne, hroom⟩
        · have htoken := (hopen.token _ htoken).mono (Nat.add_le_add_right hlen _)
          rw [← hsrc] at htoken
          exact .inl { htoken with }
        · exact .inr (.inl ⟨hadd ▸ hne, by omega⟩)
        · exact .inr (.inr (.inl ⟨hpunch ▸ hne, by omega⟩))
        · exact .inr (.inr (.inr (.inl ⟨hremove ▸ hne, by omega⟩)))
        · exact .inr (.inr (.inr (.inr ⟨hobserved ▸ hne, by omega⟩)))

/-! ### Stream data -/

theorem Copyable.setSend {streams : StreamsState} {id : StreamId} {stream : Send} {queue : PendingStreamsQueue}
    (h : Copyable streams) (hstream : ∃ written inflight, SendBuffer.Reliable stream.pending written inflight) :
    Copyable { streams.setSend id stream with pending := queue } := by
  intro id' stream' hat hrst
  change (streams.setSend id stream).sendAt id' = some stream' at hat
  by_cases hid : id' = id
  · subst hid
    rw [sendAt_setSend_self] at hat
    cases hat
    exact hstream
  rw [sendAt_setSend_ne _ hid] at hat
  exact h id' stream' hat hrst

/-- Frames that are written one behind the other from `len` on, each with whether its length is encoded. -/
def Packed (maxBufSize : Nat) : Nat → List (StreamMeta × Bool) → Nat → Prop
  | len, [], last => last = len
  | len, (frame, encodeLength) :: rest, last =>
    let behind := len + frame.headerLen encodeLength + (frame.offsets.2 - frame.offsets.1)
    16 ≤ maxBufSize - len - 1 - VarInt.size frame.id.toNat ∧ behind ≤ maxBufSize ∧
      (encodeLength = false → behind = maxBufSize ∧ rest = []) ∧ Packed maxBufSize behind rest last

/-- A frame in front; without its length it ends the packet, since one behind it would need room. -/
theorem Packed.cons {maxBufSize len : Nat} {frame : StreamMeta} {encodeLength : Bool} {frames : List (StreamMeta × Bool)}
    {result : Option (StreamsState × Nat × List (StreamMeta × Bool))}
    (h : ∃ t last packed, result = some (t, last, frames ++ [(frame, encodeLength)] ++ packed) ∧
      Packed maxBufSize (len + frame.headerLen encodeLength + (frame.offsets.2 - frame.offsets.1)) packed last)
    (hroom : 16 ≤ maxBufSize - len - 1 - VarInt.size frame.id.toNat)
    (hfills : SendBuffer.Fills (maxBufSize - len - 1 - VarInt.size frame.id.toNat) frame.offsets encodeLength) :
    ∃ t last packed, result = some (t, last, frames ++ packed) ∧ Packed maxBufSize len packed last := by
  obtain ⟨t, last, packed, rfl, hpacked⟩ := h
  have hlen := VarInt.size_le (frame.offsets.2 - frame.offsets.1)
  unfold SendBuffer.Fills at hfills
  cases encodeLength with
  | true =>
    refine ⟨t, last, (frame, true) :: packed, by simp, hroom, ?_, nofun, hpacked⟩
    simp only [StreamMeta.headerLen, if_true] at hfills ⊢
    omega
  | false =>
    have hend : len + frame.headerLen false + (frame.offsets.2 - frame.offsets.1) = maxBufSize := by
      simp only [StreamMeta.headerLen, Bool.false_eq_true, if_false] at hfills ⊢
      omega
    refine ⟨t, last, (frame, false) :: packed, by simp, hroom, hend.le, fun _ => ⟨hend, ?_⟩, hpacked⟩
    cases packed with
    | nil => rfl
    | cons _ _ =>
      have := hpacked.1
      omega

theorem writeStreamFramesLoop_packed (fair : Bool) (maxBufSize : Nat) : ∀ (fuel : Nat) (streams : StreamsState) (len : Nat)
    (frames : List (StreamMeta × Bool)), Copyable streams → ∃ t last packed, writeStreamFramesLoop fair maxBufSize fuel
      streams len frames = some (t, last, frames ++ packed) ∧ Packed maxBufSize len packed last
  | 0, streams, len, frames, _ => ⟨streams, len, [], by simp [writeStreamFramesLoop], rfl⟩
  | fuel + 1, streams, len, frames, h => by
    unfold writeStreamFramesLoop
    split
    · next hroom =>
      split
      · exact ⟨streams, len, [], by simp, rfl⟩
      next next queue _ =>
      dsimp only
      split
      · exact writeStreamFramesLoop_packed fair maxBufSize fuel _ _ _ h
      next stream hat =>
      split
      · exact writeStreamFramesLoop_packed fair maxBufSize fuel _ _ _ h
      next hrst =>
      have hsize := VarInt.size_le next.id.toNat
      have hlg : 16 ≤ maxBufSize - len - 1 - VarInt.size next.id.toNat := by omega
      obtain ⟨written, inflight, hrel⟩ := h next.id stream hat (Bool.not_eq_true _ ▸ hrst)
      obtain ⟨buffer, range, encodeLength, hpoll, hrel', hoff, hunack, -, hfst, hrange, hlast, hfills⟩ :=
        hrel.pollTransmit hlg
      have hcopy := hrel'.copy (range.2 - range.1) (r := range) le_rfl
        (by rw [SendBuffer.baseOffset, hoff, hunack]; exact hfst) hrange (hoff ▸ hlast)
      have hdata : ((written.take range.2).drop range.1).length = range.2 - range.1 := by
        rw [length_drop, length_take_of_le (hlast.trans hrel.length.le)]
      rw [checkedSub_of_le (by omega)]
      simp only [Send.nextFrame, hpoll, hcopy, bind_eq_bind, bind_some, hdata]
      exact Packed.cons (writeStreamFramesLoop_packed fair maxBufSize fuel _ _ _ (h.setSend ⟨written, _, hrel'⟩)) hlg hfills
    · exact ⟨streams, len, [], by simp, rfl⟩

/-- Every frame stays within the packet, and one without its length ends the packet and is the last. -/
theorem stream_frames_packed {streams : StreamsState} (h : Copyable streams) (len maxBufSize : Nat) (fair : Bool) :
    ∃ t last packed, streams.writeStreamFrames len maxBufSize fair = some (t, last, packed) ∧
      Packed maxBufSize len packed last :=
  writeStreamFramesLoop_packed fair maxBufSize _ streams len [] h

def noStreams : StreamsState := (new .server 0 0 1000 1000 1000).get rfl

theorem stream_frames_packed_full : ∃ t last packed,
    { noStreams.setSend ⟨.server, .uni, 0⟩ { Send.new 100 with pending := SendBuffer.new.write (replicate 40 0) } with
      pending := PendingStreamsQueue.new.pushPending ⟨.server, .uni, 0⟩ 0 }.writeStreamFrames 0 30 true
        = some (t, last, packed) ∧ Packed 30 0 packed last :=
  stream_frames_packed (Copyable.setSend (show Copyable noStreams from fun _ _ h => nomatch (show none = some _ from h))
    ⟨_, _, SendBuffer.reliable_new.write _⟩) 0 30 true

/-! ### The packet as a whole -/

theorem queued_eq (hdone : s.pending.handshakeDone = false) (hfreq : s.pending.ackFrequency = false) :
    s.queued = s.pending := by
  have h : s.queued = { s.pending with
      handshakeDone := s.pending.handshakeDone, ackFrequency := s.pending.ackFrequency } := by
    rw [hdone, hfreq]
    rfl
  exact h

theorem load_queued (s : Source) : s.queued = s.pending ∨ s.queued.load < s.pending.load := by
  have hload : s.queued.load + s.pending.handshakeDone.toNat + s.pending.ackFrequency.toNat = s.pending.load := by
    simp only [Source.queued, Pending.load, Bool.toNat_false]
    omega
  cases hdone : s.pending.handshakeDone with
  | true =>
    rw [hdone, Bool.toNat_true] at hload
    exact .inr (by omega)
  | false =>
    cases hfreq : s.pending.ackFrequency with
    | true =>
      rw [hfreq, Bool.toNat_true] at hload
      exact .inr (by omega)
    | false => exact .inl (queued_eq hdone hfreq)

theorem not_takeable_of_queued (heq : s.queued = s.pending) (hearly : ¬ Writer.Early supply s supply.opening)
    (hlate : ¬ Writer.Late supply s (supply.opening + (s.datagrams.map datagramLen).sum)) : ¬ Takeable supply s := by
  rintro (hdone | hfreq | h | h)
  · exact absurd ((congrArg (·.handshakeDone) heq).trans hdone) nofun
  · exact absurd ((congrArg (·.ackFrequency) heq).trans hfreq) nofun
  · exact hearly h
  · exact hlate h

theorem populatePacket_takes (h : Sound supply s) : ∃ w, populatePacket supply s = some w ∧
    (Takeable supply s → w.source.pending.load < s.pending.load) ∧
    (Takeable supply s ∨ s.pingPending = true ∨ s.immediateAckPending = true → w.encoded = true → w.frames ≠ []) := by
  obtain ⟨w₀, w, hwr, hpend, htold, hsend, hpart⟩ := writePending_part h
  have hload₀ : w₀.load = s.queued.load := congrArg Pending.load hpend
  have hloads : Takeable supply s → w.load < s.pending.load := by
    intro htake
    rcases load_queued s with heq | hlt
    · refine lt_of_le_of_ne (heq ▸ hload₀ ▸ hpart.load_le) fun hsame => ?_
      obtain ⟨hearly, hlate⟩ := hpart.still (.inl (by rw [hload₀, heq]; exact hsame))
      exact not_takeable_of_queued heq hearly hlate htake
    · exact hpart.load_le.trans_lt (hload₀ ▸ hlt)
  have hfr : Takeable supply s ∨ s.pingPending = true ∨ s.immediateAckPending = true → w.encoded = true → w.frames ≠ [] := by
    intro hsome hencoded hnil
    have hnil₀ : w₀.frames = [] := length_eq_zero_iff.mp (Nat.le_zero.mp (by
      have hle := hpart.frames_le
      rw [hnil] at hle
      exact hle))
    have hnot : ¬s.Told := fun htrue => htold htrue hnil₀
    obtain ⟨hearly, hlate⟩ := hpart.still (.inr ⟨hencoded, by rw [hnil, hnil₀]⟩)
    have heq := queued_eq (Bool.eq_false_iff.mpr fun htrue => hnot (.inl htrue))
      (Bool.eq_false_iff.mpr fun htrue => hnot (.inr (.inl htrue)))
    rcases hsome with htake | hping | hack
    · exact not_takeable_of_queued heq hearly hlate htake
    · exact hnot (.inr (.inr (.inl hping)))
    · exact hnot (.inr (.inr (.inr hack)))
  unfold populatePacket
  rw [hwr, bind_eq_bind, bind_some]
  cases hencoded : w.encoded with
  | false => exact ⟨w, rfl, hloads, hfr⟩
  | true =>
    have hcopyable : Copyable w.source.streams := by
      intro id stream hat
      rw [sendAt, hsend] at hat
      exact h.copyable id stream hat
    obtain ⟨streams, len, packed, hstream, -⟩ := writeStreamFramesLoop_packed supply.sendFairness supply.maxSize
      (w.source.streams.pending.iter.length + supply.maxSize) w.source.streams w.len [] hcopyable
    rw [writeStreamFrames, hstream]
    refine ⟨_, rfl, hloads, fun hsome _ hnil => hfr hsome hencoded (append_eq_nil_iff.mp hnil).1⟩

inductive Sends : Nat → Source → Source → Prop
  | refl (s : Source) : Sends 0 s s
  | packet {supply : Supply} {s u : Source} {w : Writer} {n : Nat} (hsound : Sound supply s) (htake : Takeable supply s)
      (hw : populatePacket supply s = some w) (hrest : Sends n w.source u) : Sends (n + 1) s u

theorem Sends.load_le {n : Nat} {u : Source} (h : Sends n s u) : n + u.pending.load ≤ s.pending.load := by
  induction h with
  | refl s => exact (zero_add _).le
  | packet hsound htake hw _ ih =>
    obtain ⟨w, hw', hload, -⟩ := populatePacket_takes hsound
    obtain rfl := some.inj (hw.symm.trans hw')
    have hlt := hload htake
    omega

end

/-! ### Packets that do and do not carry what is pending -/

end Populate
end SaorsaTransport
