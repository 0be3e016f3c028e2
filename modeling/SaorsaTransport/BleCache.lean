import SaorsaTransport.Constrained.Engine

/-! The session cache of the BLE transport as it is written to disk, after `src/transport/ble.rs`. -/

namespace SaorsaTransport.Ble
open Constrained (chunks)

/-- A session in memory. `elapsed` is the number of seconds since it was established. -/
structure CachedSession where
  deviceId : Bytes
  sessionKey : Bytes
  sessionId : Nat
  elapsed : Nat
  deviceId_length : deviceId.length = 6
  sessionKey_length : sessionKey.length = 32

structure PersistedSession where
  deviceId : Bytes
  sessionKeyHash : Bytes
  sessionId : Nat
  establishedUnix : Nat

/-- `to_le_bytes` of an integer of this many bytes. -/
def toLeBytes : (size n : Nat) → Bytes
  | 0, _ => []
  | size + 1, n => .ofNat n :: toLeBytes size (n / 256)

/-- `bytes[start..start + slice.len()].copy_from_slice(slice)`. -/
def copyAt (bytes : Bytes) (start : Nat) (slice : Bytes) : Bytes :=
  bytes.take start ++ slice ++ bytes.drop (start + slice.length)

/-- The first eight bytes are the hash, whatever function computes it; the loop goes over the key itself. The encoding is
    `hex::encode`, of which nothing is used. -/
def fromCached (encode : Bytes → Bytes) (hash : Bytes → UInt64) (now : Nat) (cached : CachedSession) : PersistedSession where
  deviceId := encode cached.deviceId
  sessionKeyHash := (chunks 8 32 cached.sessionKey).zipIdx.foldl
    (fun filled (chunk, i) => if 8 + i * 8 + chunk.length ≤ 32 then copyAt filled (8 + i * 8) chunk else filled)
    (copyAt (.replicate 32 0) 0 (toLeBytes 8 (hash cached.sessionKey).toNat))
  sessionId := cached.sessionId
  establishedUnix := now - cached.elapsed

def PersistedSession.toBytes (session : PersistedSession) : Bytes :=
  let len := min session.deviceId.length 12
  .ofNat len :: session.deviceId.take len ++ .replicate (12 - len) 0 ++ session.sessionKeyHash
    ++ toLeBytes 2 session.sessionId ++ toLeBytes 8 session.establishedUnix

structure SessionCacheFile where
  version : Nat := 1
  sessions : List PersistedSession

def SessionCacheFile.toBytes (self : SessionCacheFile) : Bytes :=
  toLeBytes 4 self.version ++ toLeBytes 4 self.sessions.length ++ self.sessions.flatMap PersistedSession.toBytes

end SaorsaTransport.Ble
