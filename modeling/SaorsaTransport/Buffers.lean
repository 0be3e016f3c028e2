import SaorsaTransport.Basic
import SaorsaTransport.RangeSet
import SaorsaTransport.Library.Queues

/-! The buffer of outgoing stream data of `src/connection/send_buffer.rs`, and the loop of
    `write_stream_frames` that copies a range of it into a frame. -/

namespace SaorsaTransport
open Library

structure SendBuffer where
  /-- Data queued by the application but not yet acknowledged. May or may not have been sent. -/
  unackedSegments : List Bytes
  unackedLen : Nat
  offset : Nat
  unsent : Nat
  acks : RangeSet
  retransmits : RangeSet

namespace SendBuffer

def new : SendBuffer := ⟨[], 0, 0, 0, RangeSet.new, RangeSet.new⟩

def write (self : SendBuffer) (data : Bytes) : SendBuffer :=
  { self with unackedLen := self.unackedLen + data.length
              offset := self.offset + data.length
              unackedSegments := self.unackedSegments ++ [data] }

/-- The first offset that is still tracked: `offset.saturating_sub(unacked_len)`. -/
def baseOffset (self : SendBuffer) : Nat := self.offset - self.unackedLen

/-- The inner loop of `ack`: drop the first `toAdvance` bytes of the segments. Running out of segments is
    the panic of `expect("Expected buffered data")`. -/
def advanceSegments : List Bytes → Nat → Option (List Bytes)
  | [], toAdvance => if toAdvance = 0 then some [] else none
  | front :: rest, toAdvance =>
    if toAdvance = 0 then some (front :: rest)
    else if front.length ≤ toAdvance then advanceSegments rest (toAdvance - front.length)
    else some (front.drop toAdvance :: rest)

/-- The outer loop of `ack`. Each round takes a range off `acks`, so their number bounds the rounds. -/
def ackLoop : Nat → SendBuffer → Option SendBuffer
  | 0, self => some self
  | fuel + 1, self =>
    if self.acks.min = some self.baseOffset then do
      let (first, acks) ← self.acks.popMin
      let toAdvance ← checkedSub first.2 first.1
      let unackedLen ← checkedSub self.unackedLen toAdvance
      let unackedSegments ← advanceSegments self.unackedSegments toAdvance
      ackLoop fuel { self with acks, unackedLen, unackedSegments }
    else some self

def ack (self : SendBuffer) (range : Nat × Nat) : Option SendBuffer :=
  -- Clamp the range to data which is still tracked
  let range := (max self.baseOffset range.1, max self.baseOffset range.2)
  let acks := (self.acks.insert range).1
  ackLoop acks.len { self with acks }

/-- How many of the bytes from `start` to `last` fit into `maxLen`, next to their offset and length.
    Returns the end of the range to send, and whether its length is encoded. -/
def fit (start last maxLen : Nat) : Option (Nat × Bool) := do
  -- Offset 0 requires no space
  let maxLen ← checkedSub maxLen (if start ≠ 0 then VarInt.size start else 0)
  let len ← checkedSub last start
  -- The additions saturate in the source, which `last` being a 64-bit number hides
  if len < maxLen then do
    let maxLen ← checkedSub maxLen 8
    some (min last (maxLen + start), true)
  else some (min last (maxLen + start), false)

def pollTransmit (self : SendBuffer) (maxLen : Nat) : Option (SendBuffer × (Nat × Nat) × Bool) :=
  match self.retransmits.popMin with
  | some (range, retransmits) => do
    let (end_, encodeLength) ← fit range.1 range.2 maxLen
    let retransmits := if end_ ≠ range.2 then (retransmits.insert (end_, range.2)).1 else retransmits
    some ({ self with retransmits }, (range.1, end_), encodeLength)
  | none => do
    let (end_, encodeLength) ← fit self.unsent self.offset maxLen
    some ({ self with unsent := end_ }, (self.unsent, end_), encodeLength)

/-- The search of `get` through the segments, the first of which starts at `segmentOffset`. -/
def getFrom (offsets : Nat × Nat) : Nat → List Bytes → Option Bytes
  | _, [] => some []
  | segmentOffset, segment :: rest =>
    if segmentOffset ≤ offsets.1 ∧ offsets.1 < segmentOffset + segment.length then do
      let start := offsets.1 - segmentOffset
      let end_ := min (← checkedSub offsets.2 segmentOffset) segment.length
      if start ≤ end_ then some ((segment.take end_).drop start) else none
    else getFrom offsets (segmentOffset + segment.length) rest

/-- Returns data which is associated with a range: a subset of it, if the data is stored in
    noncontiguous fashion. -/
def get (self : SendBuffer) (offsets : Nat × Nat) : Option Bytes :=
  getFrom offsets self.baseOffset self.unackedSegments

/-- The loop of `write_stream_frames` that iterates `get` until the range is fully copied into the frame.
    It does not end while `get` returns nothing; a result needs at most one round for each byte. -/
def copy : Nat → SendBuffer → Nat × Nat → Option Bytes
  | fuel, self, offsets =>
    if offsets.1 = offsets.2 then some []
    else match fuel with
      | 0 => none
      | fuel + 1 => do
        let data ← self.get offsets
        let rest ← copy fuel self (offsets.1 + data.length, offsets.2)
        some (data ++ rest)

def retransmit (self : SendBuffer) (range : Nat × Nat) : SendBuffer :=
  { self with retransmits := (self.retransmits.insert range).1 }

def retransmitAllFor0rtt (self : SendBuffer) : SendBuffer := { self with unsent := 0 }

def isFullyAcked (self : SendBuffer) : Bool := self.unackedLen == 0

def hasUnsentData (self : SendBuffer) : Bool := self.unsent != self.offset || !self.retransmits.isEmpty

def unacked (self : SendBuffer) : Option Nat :=
  checkedSub self.unackedLen (self.acks.iter.map fun x => x.2 - x.1).sum

end SendBuffer

/-! The reassembly buffer of `src/connection/assembler.rs`. A function that can panic returns an `Option`. Offsets are
    naturals; the frames that carry them keep them far below the 64 bits of the source. -/

structure Chunk where
  offset : Nat
  bytes : Bytes
  deriving DecidableEq

structure Buffer where
  offset : Nat
  bytes : Bytes
  /-- Size of the allocation behind `bytes`, if `defragmented = false`. -/
  allocationSize : Nat
  defragmented : Bool
  deriving DecidableEq

namespace Buffer

def new (offset : Nat) (bytes : Bytes) (allocationSize : Nat) : Buffer := ⟨offset, bytes, allocationSize, false⟩

def newDefragmented (offset : Nat) (bytes : Bytes) : Buffer := ⟨offset, bytes, bytes.length, true⟩

/-- Discards data before `offset` and flags `self` as defragmented if it has good utilization. -/
def tryMarkDefragment (self : Buffer) (offset : Nat) : Buffer :=
  let duplicate := offset - self.offset
  let start := max self.offset offset
  if self.bytes.length ≤ duplicate then ⟨start, [], 0, true⟩
  else
    let bytes := self.bytes.drop duplicate
    let defragmented := self.defragmented || decide (self.allocationSize ≤ bytes.length * 6 / 5)
    ⟨start, bytes, if defragmented then bytes.length else self.allocationSize, defragmented⟩

/-- Invert ordering based on offset (max-heap, min offset first), prioritize longer chunks at the same
    offset. -/
def cmp (self other : Buffer) : Ordering :=
  (compare self.offset other.offset).swap.then (compare self.bytes.length other.bytes.length)

/-- `self` is not below `other`, so the heap may give it out before. -/
def Ge (self other : Buffer) : Prop := self.cmp other ≠ .lt

instance : DecidableRel Ge := fun _ _ => inferInstanceAs (Decidable (_ ≠ _))

theorem ge_iff {a b : Buffer} : Ge a b ↔ a.offset < b.offset ∨ a.offset = b.offset ∧ b.bytes.length ≤ a.bytes.length := by
  unfold Ge cmp
  rcases lt_trichotomy a.offset b.offset with h | h | h
  · rw [Nat.compare_eq_lt.mpr h]
    simp [h]
  · rw [Nat.compare_eq_eq.mpr h, h]
    simp [Ordering.swap, Ordering.then, Nat.compare_eq_lt]
  · rw [Nat.compare_eq_gt.mpr h]
    exact ⟨fun hne => absurd rfl hne, fun h' => by omega⟩

instance : Std.Total Ge := ⟨fun a b => by
  simp only [ge_iff]
  omega⟩

instance : IsTrans Buffer Ge := ⟨fun a b c => by
  simp only [ge_iff]
  omega⟩

end Buffer

/-- `BinaryHeap<Buffer>`. -/
abbrev Buffers := MaxHeap Buffer Buffer.Ge

/-- Whether the assembler still reads in order, or the offsets received from the peer once it does not. -/
inductive Assembler.State where
  | ordered
  | unordered (recvd : RangeSet)

structure Assembler where
  state : Assembler.State
  data : Buffers
  /-- Total number of buffered bytes, including duplicates in ordered mode. -/
  buffered : Nat
  allocated : Nat
  bytesRead : Nat
  end_ : Nat

inductive IllegalOrderedRead where
  | illegalOrderedRead
  deriving DecidableEq

namespace Assembler

def new : Assembler := ⟨.ordered, MaxHeap.empty, 0, 0, 0, 0⟩

def State.isOrdered : State → Bool
  | .ordered => true
  | .unordered _ => false

/-- The first loop of `defragment`: cut off of each chunk, in reading order, what the chunks before it
    already hold. -/
def markAll : Nat → List Buffer → List Buffer
  | _, [] => []
  | offset, chunk :: rest =>
    let chunk := chunk.tryMarkDefragment offset
    chunk :: markAll (chunk.offset + chunk.bytes.length) rest

/-- The buffer that collects fragmented chunks, once it is flushed at `offset`. -/
def flush (data : Buffers) (offset : Nat) (buffer : Bytes) : Buffers :=
  if buffer.isEmpty then data else data.push (Buffer.newDefragmented offset buffer)

/-- The second loop of `defragment`: defragmented chunks are kept, adjacent fragmented ones are copied
    into one buffer. -/
def mergeAll : List Buffer → Buffers → Nat → Bytes → Buffers
  | [], data, offset, buffer => flush data offset buffer
  | chunk :: rest, data, offset, buffer =>
    if chunk.defragmented then
      -- bytes might be empty after `tryMarkDefragment`
      mergeAll rest (if chunk.bytes.isEmpty then data else data.push chunk) offset buffer
    else if chunk.offset ≠ offset + buffer.length then
      mergeAll rest (flush data offset buffer) chunk.offset chunk.bytes
    else mergeAll rest data offset (buffer ++ chunk.bytes)

/-- Copy fragmented chunk data to new chunks backed by a single buffer. -/
def defragment (self : Assembler) : Assembler :=
  let buffers := markAll 0 self.data.intoSortedVec.reverse
  let buffered := (buffers.map (·.bytes.length)).sum
  { self with data := mergeAll buffers MaxHeap.empty 0 [], buffered := buffered, allocated := buffered }

def ensureOrdering (self : Assembler) (ordered : Bool) : Except IllegalOrderedRead Assembler :=
  if ordered && !self.state.isOrdered then .error .illegalOrderedRead
  else if !ordered && self.state.isOrdered then
    -- Enter unordered mode; get rid of possible duplicates
    let self := if self.data.isEmpty then self else self.defragment
    let recvd := (RangeSet.new.insert (0, self.bytesRead)).1
    let recvd := self.data.toList.foldl
      (fun recvd chunk => (recvd.insert (chunk.offset, chunk.offset + chunk.bytes.length)).1) recvd
    .ok { self with state := .unordered recvd }
  else .ok self

/-- The end of `read`: hand out at most `maxLength` bytes of the top chunk. -/
def takeTop (self : Assembler) (chunk : Buffer) (maxLength : Nat) : Option (Assembler × Option Chunk) :=
  if maxLength < chunk.bytes.length then do
    let buffered ← checkedSub self.buffered maxLength
    let rest := { chunk with offset := chunk.offset + maxLength, bytes := chunk.bytes.drop maxLength }
    some ({ self with bytesRead := self.bytesRead + maxLength, buffered := buffered, data := self.data.replaceTop rest },
      some ⟨chunk.offset, chunk.bytes.take maxLength⟩)
  else do
    let buffered ← checkedSub self.buffered chunk.bytes.length
    let allocated ← checkedSub self.allocated chunk.allocationSize
    some ({ self with bytesRead := self.bytesRead + chunk.bytes.length, buffered := buffered,
                      allocated := allocated, data := self.data.pop },
      some ⟨chunk.offset, chunk.bytes⟩)

/-- The loop of `read`. Each round without a result pops a chunk, so the number of chunks bounds them. -/
def readLoop : Nat → Assembler → Nat → Bool → Option (Assembler × Option Chunk)
  | 0, self, _, _ => some (self, none)
  | fuel + 1, self, maxLength, ordered =>
    match self.data.peek with
    | none => some (self, none)
    | some chunk =>
      if ordered then
        -- Next chunk is after current read index
        if self.bytesRead < chunk.offset then some (self, none)
        else if chunk.offset + chunk.bytes.length ≤ self.bytesRead then do
          -- Next chunk is useless as the read index is beyond its end
          let buffered ← checkedSub self.buffered chunk.bytes.length
          let allocated ← checkedSub self.allocated chunk.allocationSize
          readLoop fuel { self with data := self.data.pop, buffered := buffered, allocated := allocated }
            maxLength ordered
        else do
          -- The part before the read index is not useful
          let start := self.bytesRead - chunk.offset
          let buffered ← checkedSub self.buffered start
          takeTop { self with buffered := buffered }
            { chunk with offset := chunk.offset + start, bytes := chunk.bytes.drop start } maxLength
      else takeTop self chunk maxLength

def read (self : Assembler) (maxLength : Nat) (ordered : Bool) : Option (Assembler × Option Chunk) :=
  readLoop self.data.len self maxLength ordered

def pushBuffer (self : Assembler) (buffer : Buffer) : Assembler :=
  { self with buffered := self.buffered + buffer.bytes.length, allocated := self.allocated + buffer.allocationSize,
              data := self.data.push buffer }

/-- The loop of `insert` that discards duplicate data: the parts between the duplicates are stored. -/
def discard (allocationSize : Nat) : List (Nat × Nat) → Assembler → Nat → Bytes → Option (Assembler × Nat × Bytes)
  | [], self, offset, bytes => some (self, offset, bytes)
  | duplicate :: rest, self, offset, bytes => do
    let (self, offset, bytes) ←
      if offset < duplicate.1 then do
        let (front, bytes) ← Bytes.splitTo bytes (duplicate.1 - offset)
        some (self.pushBuffer (Buffer.new offset front allocationSize), duplicate.1, bytes)
      else some (self, offset, bytes)
    let bytes ← Bytes.advance bytes (← checkedSub duplicate.2 offset)
    discard allocationSize rest self duplicate.2 bytes

/-- The end of `insert`: store what is left of the bytes, and defragment if too much is allocated for it.
    Where `allocation_size` was below the length of its bytes, the estimate may fall short and the
    subtraction wraps. -/
def store (self : Assembler) (offset : Nat) (bytes : Bytes) (allocationSize : Nat) : Option Assembler :=
  if bytes.isEmpty then some self
  else do
    let self := self.pushBuffer (Buffer.new offset bytes allocationSize)
    let buffered := min self.buffered (← checkedSub self.end_ self.bytesRead)
    let overAllocation := wrappingSub self.allocated buffered
    let threshold := max 32768 (buffered * 3 / 2)
    some (if threshold < overAllocation then self.defragment else self)

def insert (self : Assembler) (offset : Nat) (bytes : Bytes) (allocationSize : Nat) : Option Assembler :=
  let self := { self with end_ := max self.end_ (offset + bytes.length) }
  match self.state with
  | .unordered recvd => do
    let (duplicates, recvd) := recvd.replaceAll (offset, offset + bytes.length)
    let (self, offset, bytes) ← discard allocationSize duplicates { self with state := .unordered recvd } offset bytes
    self.store offset bytes allocationSize
  | .ordered =>
    if offset < self.bytesRead then
      if offset + bytes.length ≤ self.bytesRead then some self
      else
        let diff := self.bytesRead - offset
        self.store (offset + diff) (bytes.drop diff) allocationSize
    else self.store offset bytes allocationSize

def clear (self : Assembler) : Assembler := { self with data := MaxHeap.empty, buffered := 0, allocated := 0 }

def reinit (_self : Assembler) : Assembler := new

end Assembler
end SaorsaTransport
