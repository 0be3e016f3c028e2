import Mathlib.Data.Fintype.BigOperators
import Mathlib.Data.Fintype.Pigeonhole
import SaorsaTransport.BleCache

/-! What the file of the session cache tells of the keys. -/

namespace SaorsaTransport.Ble
open Constrained (chunks)
open List

@[simp] theorem length_toLeBytes (n size : Nat) : (toLeBytes size n).length = size := by
  induction size generalizing n with
  | zero => rfl
  | succ size ih => rw [toLeBytes, length_cons, ih]

theorem chunks_eq {size fuel : Nat} {data : Bytes} (h : 0 < data.length) :
    chunks size (fuel + 1) data = data.take size :: chunks size fuel (data.drop size) := by
  cases data with
  | nil => cases h
  | cons _ _ => rfl

/-- Only the last eight bytes of the key stay out of the file. -/
theorem sessionKeyHash_fromCached (encode : Bytes → Bytes) (hash : Bytes → UInt64) (now : Nat) (cached : CachedSession) :
    (fromCached encode hash now cached).sessionKeyHash
      = toLeBytes 8 (hash cached.sessionKey).toNat ++ cached.sessionKey.take 24 := by
  obtain ⟨_, key, _, _, _, hkey⟩ := cached
  have hhash := length_toLeBytes (hash key).toNat 8
  simp only [fromCached]
  generalize toLeBytes 8 (hash key).toNat = h at *
  rw [chunks_eq (by simp [hkey]), chunks_eq (by simp [hkey]), chunks_eq (by simp [hkey]), chunks_eq (by simp [hkey])]
  have hend : chunks 8 28 (drop 8 (drop 8 (drop 8 (drop 8 key)))) = [] := by
    rw [drop_eq_nil_of_le (by simp [hkey]), chunks]
  have htake : take 24 key = take 8 key ++ take 8 (drop 8 key) ++ take 8 (drop 16 key) := by
    simp [← take_add]
  rw [hend, htake]
  simp [hkey, copyAt, hhash, take_append, drop_append, take_of_length_le, drop_eq_nil_of_le]

section
variable {encode : Bytes → Bytes} {hash : Bytes → UInt64} {s t : CachedSession} (hdevice : s.deviceId = t.deviceId)
  (hid : s.sessionId = t.sessionId) (helapsed : s.elapsed = t.elapsed) (hhash : hash s.sessionKey = hash t.sessionKey)
  (now : Nat)
include hdevice hid helapsed hhash

theorem toBytes_eq_iff :
    (fromCached encode hash now s).toBytes = (fromCached encode hash now t).toBytes ↔ s.sessionKey.take 24 = t.sessionKey.take 24 := by
  rw [PersistedSession.toBytes, PersistedSession.toBytes, sessionKeyHash_fromCached, sessionKeyHash_fromCached, hhash]
  simp [fromCached, hdevice, hid, helapsed]

/-- The file depends on a key through its hash exactly as far as its first 24 bytes do. -/
theorem file_eq_iff_take_eq (before after : List PersistedSession) :
    SessionCacheFile.toBytes ⟨1, before ++ fromCached encode hash now s :: after⟩
        = SessionCacheFile.toBytes ⟨1, before ++ fromCached encode hash now t :: after⟩
      ↔ s.sessionKey.take 24 = t.sessionKey.take 24 := by
  rw [← @toBytes_eq_iff encode hash s t hdevice hid helapsed hhash now]
  simp [SessionCacheFile.toBytes]

end

/-- A key that starts with these nine bytes. -/
def session (bytes : Fin 9 → Fin 256) : CachedSession :=
  ⟨replicate 6 0, ofFn (UInt8.ofFin ∘ bytes) ++ replicate 23 0, 0, 0, by simp, by simp⟩

theorem file_eq_iff_take_eq_last : SessionCacheFile.toBytes ⟨1, [fromCached id (fun _ => 0) 0 (session fun _ => 0)]⟩
    = SessionCacheFile.toBytes ⟨1, [fromCached id (fun _ => 0) 0
        { session fun _ => 0 with sessionKey := replicate 31 0 ++ [1], sessionKey_length := rfl }]⟩ :=
  (file_eq_iff_take_eq (s := session fun _ => 0) rfl rfl rfl rfl 0 [] []).mpr rfl

theorem exists_collision (hash : Bytes → UInt64) : ∃ a b, hash (session a).sessionKey = hash (session b).sessionKey ∧
    ∀ encode now, SessionCacheFile.toBytes ⟨1, [fromCached encode hash now (session a)]⟩
      ≠ SessionCacheFile.toBytes ⟨1, [fromCached encode hash now (session b)]⟩ := by
  obtain ⟨a, b, hne, hhash⟩ := Fintype.exists_ne_map_eq_of_card_lt
    (fun bytes => (hash (session bytes).sessionKey).toFin) (by simp [UInt64.size])
  have hhash := UInt64.toFin_inj.mp hhash
  refine ⟨a, b, hhash, fun encode now h => hne ?_⟩
  have h : (fromCached encode hash now (session a)).toBytes = (fromCached encode hash now (session b)).toBytes := by
    simpa [SessionCacheFile.toBytes] using h
  have h := (toBytes_eq_iff (s := session a) (t := session b) rfl rfl rfl hhash now).mp h
  have h : ofFn (UInt8.ofFin ∘ a) = ofFn (UInt8.ofFin ∘ b) := by simpa [session, take_append] using h
  exact funext fun i => congrArg UInt8.toFin (congrFun (ofFn_injective h) i)

/-- There are more first nine bytes than hashes: whatever the hash, it is the same for two keys that start differently. -/
theorem key_bytes_on_disk : ∃ a b : (Bytes → UInt64) → Fin 9 → Fin 256, ∀ hash,
    hash (session (a hash)).sessionKey = hash (session (b hash)).sessionKey ∧
    ∀ encode now, SessionCacheFile.toBytes ⟨1, [fromCached encode hash now (session (a hash))]⟩
      ≠ SessionCacheFile.toBytes ⟨1, [fromCached encode hash now (session (b hash))]⟩ := by
  choose a b h using exists_collision
  exact ⟨a, b, h⟩

end SaorsaTransport.Ble
