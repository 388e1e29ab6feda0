import Microtel.Lib.Loop
import Microtel.Leaf.Types

/-!
The leaf state and the record buffer of `leaf/src/leaf_core.c`: buffer access,
attribute packing, ids, compaction, allocation, handles and chunk lists.

The buffer is `[ span table -> ...free... <- chunks | Resource + scope ]`. All
32-bit offset and size arithmetic goes through a `Word32`; sizes that the
source computes in 64 bits from argument lengths are exact.
-/

namespace Microtel.Leaf

open ByteMemory Loop

/-- The configuration a leaf keeps for its whole life. -/
structure LeafParams where
  timeMode : TimeMode
  hasClock : Bool
  bootId : UInt32
  maxAttrs : UInt16
  maxEvents : UInt16
  maxEventAttrs : UInt16

/-- The variables that do not describe the record buffer. -/
structure LeafVars where
  deviceKey : UInt64
  idCounter : UInt64
  synced : Bool
  syncUnix : UInt64
  syncLeaf : UInt64
  counters : Counters

/-- `leaf_state`, with the record buffer it points at. `high` is no field of
the source: it is the highest end of any buffer write since initialisation. -/
structure LeafState extends LeafParams, LeafVars where
  magic : UInt32
  mem : Mem
  bufSize : UInt32
  persistOff : UInt32
  dataLow : UInt32
  resourceOff : UInt32
  resourceCount : UInt32
  scopeNameOff : UInt32
  scopeNameLen : UInt32
  scopeVersionOff : UInt32
  scopeVersionLen : UInt32
  slotCount : UInt16
  nextGen : UInt16
  endedHead : UInt16
  endedTail : UInt16
  endedCount : UInt32
  high : Nat

def leafMagic : UInt32 := 0x4c454146

def checkLeaf (st : LeafState) : Status :=
  if st.magic ≠ leafMagic then .errState else .ok

/-! ### Buffer access -/

def slotOff (slot : UInt16) : Nat := slot.toNat * sizeofSpanRec

/-- `memcpy` into the record buffer. -/
def LeafState.poke (st : LeafState) (off : Nat) (bs : Bytes) : LeafState :=
  { st with mem := st.mem.write off bs, high := max st.high (off + bs.length) }

def getSlot (st : LeafState) (slot : UInt16) : SpanRec :=
  st.mem.get SpanRec.layout (slotOff slot)

def putSlot (st : LeafState) (slot : UInt16) (r : SpanRec) : LeafState :=
  st.poke (slotOff slot) (SpanRec.layout.enc r)

def getChunk (st : LeafState) (off : UInt32) : ChunkHdr :=
  st.mem.get ChunkHdr.layout off.toNat

def putChunk (st : LeafState) (off : UInt32) (hdr : ChunkHdr) : LeafState :=
  st.poke off.toNat (ChunkHdr.layout.enc hdr)

def chunkPayload (off : UInt32) : Nat := off.toNat + sizeofChunkHdr

def tableEnd (st : LeafState) : Nat := slotOff st.slotCount

/-- `for (slot = 0; slot < st->slot_count; ++slot)`. -/
def slots (st : LeafState) : List UInt16 :=
  (List.range st.slotCount.toNat).map UInt16.ofNat

/-! ### Attributes: validation and packing -/

def kvValid (kv : Kv) : Bool :=
  if kv.key.isNull || kv.key.len = 0 then false
  else match kv.value with
    | .unknown => false
    | .string s => !s.isNull || s.len = 0
    | _ => true

def kvsValid (kvs : List Kv) : Bool := kvs.all kvValid

/-- The bytes of a string value; empty for the other types. -/
def kvStr (kv : Kv) : Bytes :=
  match kv.value with
  | .string s => s.data
  | _ => []

def kvStrLen (kv : Kv) : Nat :=
  match kv.value with
  | .string s => s.len
  | _ => 0

def kvSize (kv : Kv) : Nat := sizeofKvHdr + kv.key.len + kvStrLen kv

def kvScalar (kv : Kv) : UInt64 :=
  match kv.value with
  | .bool b => if b ≠ 0 then 1 else 0
  | .int64 i => i.toUInt64
  | .double bits => bits
  | _ => 0

def kvType (kv : Kv) : UInt32 :=
  match kv.value with
  | .bool _ => 0
  | .int64 _ => 1
  | .double _ => 2
  | .string _ => 3
  | .unknown => 4

section

variable (w : Word32)

def kvHdrOf (kv : Kv) : KvHdr where
  scalar := kvScalar kv
  keyLen := w.cast kv.key.len
  strLen := w.cast (kvStrLen kv)
  type := kvType kv

/-- Writes a packed attribute at `dst` (header, key, string, one after the
other) and returns the bytes written. -/
def packKv (st : LeafState) (dst : Nat) (kv : Kv) : LeafState × UInt32 :=
  (st.poke dst (KvHdr.layout.enc (kvHdrOf w kv) ++ kv.key.data ++ kvStr kv),
    w.cast (kvSize kv))

/-- Reads a packed attribute at `src`; returns it with its size. -/
def unpackKv (m : Mem) (src : Nat) : Attr × UInt32 :=
  let hdr := m.get KvHdr.layout src
  let key := m.read (src + sizeofKvHdr) hdr.keyLen.toNat
  let value :=
    if hdr.type = 0 then AttrValue.bool (hdr.scalar != 0)
    else if hdr.type = 1 then AttrValue.int64 hdr.scalar.toInt64
    else if hdr.type = 2 then AttrValue.double hdr.scalar
    else AttrValue.string (m.read (src + sizeofKvHdr + hdr.keyLen.toNat) hdr.strLen.toNat)
  (⟨key, value⟩, w.add (w.add (w.cast sizeofKvHdr) hdr.keyLen) hdr.strLen)

end

def ascii (s : String) : Bytes := s.toList.map fun c => UInt8.ofNat c.toNat

def reservedPrefix : Bytes := ascii "microtel.leaf."

def hasReservedPrefix (kv : Kv) : Bool := reservedPrefix.isPrefixOf kv.key.data

/-! ### Ids -/

def fnvOffset : UInt64 := 0xcbf29ce484222325
def fnvPrime : UInt64 := 0x100000001b3

def fnv1a (h : UInt64) (data : Bytes) : UInt64 :=
  data.foldl (fun h b => (h ^^^ b.toUInt64) * fnvPrime) h

def splitmix64 (x : UInt64) : UInt64 :=
  let z := x + 0x9e3779b97f4a7c15
  let z := (z ^^^ (z >>> 30)) * 0xbf58476d1ce4e5b9
  let z := (z ^^^ (z >>> 27)) * 0x94d049bb133111eb
  z ^^^ (z >>> 31)

def storeLe (v n : Nat) : Bytes := Layout.leBytes n v

def storeBe64 (v : UInt64) : SpanId :=
  Vector.ofFn fun i => (v >>> (8 * (7 - i.val)).toUInt64).toUInt8

/-- FNV-1a over each attribute's key, type and value bytes, then `boot_id`,
finished with a splitmix64 mix. -/
def deviceKey (resource : List Kv) (bootId : UInt32) : UInt64 :=
  let h := resource.foldl (fun h kv =>
    let h := fnv1a h kv.key.data
    let h := fnv1a h [(kvType kv).toUInt8]
    match kv.value with
    | .string s => fnv1a h s.data
    | .bool _ => fnv1a h ((storeLe (kvScalar kv).toNat 8).take 1)
    | _ => fnv1a h (storeLe (kvScalar kv).toNat 8)) fnvOffset
  splitmix64 (fnv1a h (storeLe bootId.toNat 4))

/-- `splitmix64(device_key + counter++) ^ random`, for one `random_bytes`
answer. -/
def nextIdWord (v : LeafVars) (random : UInt64) : UInt64 × LeafVars :=
  (splitmix64 (v.deviceKey + v.idCounter) ^^^ random, { v with idCounter := v.idCounter + 1 })

/-- Draws two words until they are not both zero. `none` when the answers run
out first: the call has not returned. -/
def newTraceId (v : LeafVars) : List UInt64 → Option (TraceId × LeafVars × List UInt64)
  | r :: r' :: rest =>
      let (hi, v) := nextIdWord v r
      let (lo, v) := nextIdWord v r'
      if hi = 0 ∧ lo = 0 then newTraceId v rest
      else some (storeBe64 hi ++ storeBe64 lo, v, rest)
  | _ => none

def newSpanId (v : LeafVars) : List UInt64 → Option (SpanId × LeafVars × List UInt64)
  | r :: rest =>
      let (word, v) := nextIdWord v r
      if word = 0 then newSpanId v rest else some (storeBe64 word, v, rest)
  | [] => none

def allZero (id : Bytes) : Bool := id.all (· = 0)

def readClock (p : LeafParams) (env : Callbacks) : UInt64 :=
  if p.hasClock then env.now else 0

/-! ### Compaction -/

def chunkLive (st : LeafState) (hdr : ChunkHdr) : Bool :=
  if hdr.kind = .dead ∨ st.slotCount ≤ hdr.owner then false
  else (getSlot st hdr.owner).state ≠ .free

/-- The variables of the second loop of `compact_plan`. -/
structure PlanState where
  st : LeafState
  off : UInt32
  below : UInt32
  pos : UInt32

section

variable (w : Word32)

/-- First loop of `compact_plan`: the bytes in live chunks. -/
def planLive (st : LeafState) : UInt32 :=
  (whileLoop (fun (off, _) => decide (off < st.persistOff))
    (fun (off, live) =>
      let hdr := getChunk st off
      (w.add off hdr.size, w.add live (if chunkLive st hdr then hdr.size else 0)))
    st.bufSize.toNat (st.dataLow, 0)).2

/-- One round of the second loop: a live chunk is forwarded to `pos`, a dead
one nowhere. -/
def planStep (s : PlanState) : PlanState :=
  let hdr := getChunk s.st s.off
  let live := chunkLive s.st hdr
  { st := putChunk s.st s.off
      { hdr with below := s.below, fwd := if live then s.pos else none32 }
    off := w.add s.off hdr.size
    below := s.off
    pos := if live then w.add s.pos hdr.size else s.pos }

/-- Pass 1: forwarding offsets that pack live chunks against the Resource, and
`below` links for the move. Returns the state, `new_low` and the topmost
chunk. -/
def compactPlan (st : LeafState) : LeafState × UInt32 × UInt32 :=
  let newLow := w.sub st.persistOff (planLive w st)
  let s := whileLoop (fun s => decide (s.off < st.persistOff)) (planStep w)
    st.bufSize.toNat ⟨st, st.dataLow, none32, newLow⟩
  (s.st, newLow, s.below)

def forward (st : LeafState) (off : UInt32) : UInt32 :=
  if off = none32 then none32 else (getChunk st off).fwd

def fixSlot (st : LeafState) (slot : UInt16) : LeafState :=
  let r := getSlot st slot
  if r.state ≠ .free then
    putSlot st slot { r with head := forward st r.head, tail := forward st r.tail }
  else st

def fixStep (s : LeafState × UInt32) : LeafState × UInt32 :=
  let hdr := getChunk s.1 s.2
  (if hdr.fwd ≠ none32 then putChunk s.1 s.2 { hdr with next := forward s.1 hdr.next } else s.1,
    w.add s.2 hdr.size)

/-- Pass 2: every reference becomes its forwarding offset. -/
def compactFix (st : LeafState) : LeafState :=
  let st := (slots st).foldl fixSlot st
  (whileLoop (fun s => decide (s.2 < st.persistOff)) (fixStep w) st.bufSize.toNat
    (st, st.dataLow)).1

def moveStep (s : LeafState × UInt32) : LeafState × UInt32 :=
  let hdr := getChunk s.1 s.2
  (if hdr.fwd ≠ none32 ∧ hdr.fwd ≠ s.2 then
      s.1.poke hdr.fwd.toNat (s.1.mem.read s.2.toNat hdr.size.toNat)
    else s.1,
    hdr.below)

/-- Pass 3: slide live chunks up, topmost first. -/
def compactMove (st : LeafState) (top : UInt32) : LeafState :=
  (whileLoop (fun s => decide (s.2 ≠ none32)) moveStep st.bufSize.toNat (st, top)).1

def compact (st : LeafState) : LeafState :=
  let (st, newLow, top) := compactPlan w st
  let st := compactFix w st
  let st := compactMove st top
  { st with dataLow := newLow }

/-! ### Allocation -/

def fitsBelow (st : LeafState) (size : Nat) : Bool :=
  tableEnd st + size ≤ st.dataLow.toNat

/-- Makes `size` bytes fit below the chunks, compacting once if they do not. -/
def makeRoom (st : LeafState) (size : Nat) : LeafState × Bool :=
  if fitsBelow st size then (st, true)
  else
    let st := compact w st
    (st, fitsBelow st size)

/-- Allocates an unlinked chunk; `none32` when there is no room. -/
def allocChunk (st : LeafState) (owner : UInt16) (kind : ChunkKind) (payload : Nat) :
    LeafState × UInt32 :=
  let size := sizeofChunkHdr + payload
  let (st, fits) := makeRoom w st size
  if fits then
    let low := w.sub st.dataLow (w.cast size)
    let hdr : ChunkHdr :=
      { next := none32, size := w.cast size, used := w.cast payload, fwd := 0, below := 0,
        owner, kind }
    (putChunk { st with dataLow := low } low hdr, low)
  else (st, none32)

def linkChunk (st : LeafState) (slot : UInt16) (off : UInt32) : LeafState :=
  let r := getSlot st slot
  if r.head = none32 then
    putSlot st slot { r with head := off, tail := off }
  else
    let st := putChunk st r.tail { getChunk st r.tail with next := off }
    putSlot st slot { r with tail := off }

def killChunk (st : LeafState) (off : UInt32) : LeafState :=
  putChunk st off { getChunk st off with kind := .dead }

def allocString (st : LeafState) (owner : UInt16) (kind : ChunkKind) (s : Slice UInt8) :
    LeafState × UInt32 :=
  let (st, off) := allocChunk w st owner kind s.len
  if off ≠ none32 ∧ 0 < s.len then (st.poke (chunkPayload off) s.data, off) else (st, off)

end

/-! ### Handles and lists -/

/-- `((uint32_t)gen << 16) | slot`. -/
def mkHandle (gen slot : UInt16) : Handle := (gen.toUInt32 <<< 16) ||| slot.toUInt32

/-- Resolves a handle to an open or ended span. -/
def resolve (st : LeafState) (handle : Handle) : Option UInt16 :=
  let index := (handle &&& 0xffff).toUInt16
  let gen := (handle >>> 16).toUInt16
  if st.slotCount ≤ index ∨ gen = 0 then none
  else
    let r := getSlot st index
    if r.state = .free ∨ r.gen ≠ gen then none else some index

def resolveOpen (st : LeafState) (handle : Handle) : Option UInt16 :=
  match resolve st handle with
  | some slot => if (getSlot st slot).state = .opened then some slot else none
  | none => none

section

variable (w : Word32)

/-- Whether chunk `off` is of `kind` and, when `key` is given, an attribute
with that key. -/
def chunkMatches (st : LeafState) (off : UInt32) (kind : ChunkKind) (key : Option Bytes) : Bool :=
  if (getChunk st off).kind ≠ kind then false
  else match key with
    | none => true
    | some key => (unpackKv w st.mem (chunkPayload off)).1.key = key

/-- The first matching chunk of the slot's list and the chunk before it. -/
def findChunk (st : LeafState) (slot : UInt16) (kind : ChunkKind) (key : Option Bytes) :
    UInt32 × UInt32 :=
  whileLoop (fun (off, _) => decide (off ≠ none32) && !chunkMatches w st off kind key)
    (fun (off, _) => ((getChunk st off).next, off)) st.bufSize.toNat
    ((getSlot st slot).head, none32)

/-- Makes `succ` the successor of `prev`, or the head of the list. -/
def setSuccessor (st : LeafState) (r : SpanRec) (prev succ : UInt32) : LeafState × SpanRec :=
  if prev = none32 then (st, { r with head := succ })
  else (putChunk st prev { getChunk st prev with next := succ }, r)

/-- Puts chunk `repl` where `old` is in the slot's list, and kills `old`. -/
def spliceChunk (st : LeafState) (slot : UInt16) (prev old repl : UInt32) : LeafState :=
  let r := getSlot st slot
  let st := putChunk st repl { getChunk st repl with next := (getChunk st old).next }
  let (st, r) := setSuccessor st r prev repl
  let r := if r.tail = old then { r with tail := repl } else r
  killChunk (putSlot st slot r) old

/-- Removes chunk `off` from the slot's list, and kills it. -/
def unlinkChunk (st : LeafState) (slot : UInt16) (prev off : UInt32) : LeafState :=
  let r := getSlot st slot
  let (st, r) := setSuccessor st r prev (getChunk st off).next
  let r := if r.tail = off then { r with tail := prev } else r
  killChunk (putSlot st slot r) off

def nextGeneration (gen : UInt16) : UInt16 := if gen = none16 then 1 else gen + 1

/-- A free slot, growing the table if needed; `none16` if there is no room. -/
def acquireSlot (st : LeafState) : LeafState × UInt16 :=
  match (slots st).find? fun slot => (getSlot st slot).state = .free with
  | some slot => (st, slot)
  | none =>
      if st.slotCount = none16 then (st, none16)
      else
        let (st, fits) := makeRoom w st sizeofSpanRec
        if fits then
          (putSlot { st with slotCount := st.slotCount + 1 } st.slotCount SpanRec.zero,
            st.slotCount)
        else (st, none16)

/-- Drops trailing free slots so the table gives their space back. -/
def trimSlots (st : LeafState) : LeafState :=
  whileLoop
    (fun st => decide (0 < st.slotCount ∧ (getSlot st (st.slotCount - 1)).state = .free))
    (fun st => { st with slotCount := st.slotCount - 1 }) st.slotCount.toNat st

end

end Microtel.Leaf
