import Microtel.Lib.ByteMemory
import Microtel.Lib.Word32

/-!
The data model of the leaf library (`leaf/include/microtel/leaf.h` and the
record types of `leaf/src/leaf_core.c`): call arguments, results, and the
records kept in the caller's buffer with their byte layout. Record sizes are
those of an ABI with 8-byte alignment of `uint64_t`.
-/

namespace Microtel.Leaf

open ByteMemory

abbrev Bytes := List UInt8
abbrev TraceId := Vector UInt8 16
abbrev SpanId := Vector UInt8 8

/-- `microtel_leaf_span_t`: slot index in the low 16 bits, generation in the
high 16 bits. -/
abbrev Handle := UInt32

/-- A pointer argument with its element count. A null pointer may come with
any count; a non-null one points at as many elements as the count says. -/
inductive Slice (α : Type) where
  | null (count : Nat)
  | items (data : List α)
  deriving DecidableEq, Repr

namespace Slice

variable {α : Type}

def len : Slice α → Nat
  | null count => count
  | items data => data.length

def isNull : Slice α → Bool
  | null _ => true
  | items _ => false

/-- The elements that can be read through the pointer. -/
def data : Slice α → List α
  | null _ => []
  | items data => data

/-- The library's argument check: a null pointer goes only with count 0. -/
def readable (s : Slice α) : Bool :=
  !(s.isNull && 0 < s.len)

theorem data_length_of_readable {s : Slice α} (h : s.readable = true) :
    s.data.length = s.len := by
  cases s with
  | null count =>
      have hzero : ¬ 0 < (null count : Slice α).len := by simpa [readable, isNull] using h
      simp only [len, Nat.not_lt, Nat.le_zero] at hzero
      simp [data, len, hzero]
  | items data => rfl

end Slice

inductive Status where
  | ok
  | errArg
  | errState
  | errNoSpace
  | errLimit
  | errBufferSmall
  | errEncode
  | errClock
  deriving DecidableEq, Repr

inductive TimeMode where
  | concentratorStamped
  | syncRelative
  | bootRelative
  deriving DecidableEq, Repr

def TimeMode.code : TimeMode → Nat
  | concentratorStamped => 0
  | syncRelative => 1
  | bootRelative => 2

inductive SpanKind where
  | internal
  | server
  | client
  | producer
  | consumer
  deriving DecidableEq, Repr

def SpanKind.code : SpanKind → UInt8
  | internal => 1
  | server => 2
  | client => 3
  | producer => 4
  | consumer => 5

inductive StatusCode where
  | unset
  | ok
  | error
  deriving DecidableEq, Repr

def StatusCode.code : StatusCode → UInt8
  | unset => 0
  | ok => 1
  | error => 2

/-- The value of a `microtel_leaf_kv_t` argument. A double is its bit pattern;
`unknown` is a type tag outside the enumeration. -/
inductive KvValue where
  | bool (b : Int)
  | int64 (i : Int64)
  | double (bits : UInt64)
  | string (s : Slice UInt8)
  | unknown
  deriving DecidableEq, Repr

/-- `microtel_leaf_kv_t` as a caller passes it. -/
structure Kv where
  key : Slice UInt8
  value : KvValue
  deriving DecidableEq, Repr

/-- The value of an attribute read back from the record buffer. -/
inductive AttrValue where
  | bool (b : Bool)
  | int64 (i : Int64)
  | double (bits : UInt64)
  | string (s : Bytes)
  deriving DecidableEq, Repr

/-- An attribute read back from the record buffer, or built for a batch. -/
structure Attr where
  key : Bytes
  value : AttrValue
  deriving DecidableEq, Repr

/-- `microtel_leaf_config_t`. The callbacks are present or null here; their
answers come with each call (`Callbacks`). -/
structure Config where
  structSize : Nat
  timeMode : Option TimeMode
  hasClock : Bool
  hasRandom : Bool
  resource : Slice Kv
  scopeName : Slice UInt8
  scopeVersion : Slice UInt8
  maxAttributesPerSpan : UInt16
  maxEventsPerSpan : UInt16
  maxAttributesPerEvent : UInt16
  bootId : UInt32
  scratchNull : Bool
  scratchSize : Nat
  deriving DecidableEq, Repr

/-- What the application's callbacks answer during one call: the clock reading
and the words `random_bytes` fills, in the order they are asked for. -/
structure Callbacks where
  now : UInt64
  random : List UInt64
  deriving DecidableEq, Repr

structure Counters where
  droppedSpans : UInt32
  droppedAttributes : UInt32
  droppedEvents : UInt32
  deriving DecidableEq, Repr

def Counters.zero : Counters := ⟨0, 0, 0⟩

def none32 : UInt32 := 0xffffffff
def none16 : UInt16 := 0xffff
def maxBuffer : Nat := 0xfffffff0

def sizeofLeaf : Nat := 256
def sizeofConfig : Nat := 120
def sizeofSpanRec : Nat := 72
def sizeofChunkHdr : Nat := 24
def sizeofKvHdr : Nat := 24
def sizeofEventHdr : Nat := 16

inductive SlotState where
  | free
  | opened
  | ended
  deriving DecidableEq, Repr

inductive ChunkKind where
  | dead
  | name
  | attr
  | event
  | status
  deriving DecidableEq, Repr

structure SpanRec where
  start : UInt64
  finish : UInt64
  traceId : TraceId
  spanId : SpanId
  parentSpanId : SpanId
  head : UInt32
  tail : UInt32
  gen : UInt16
  nextEnded : UInt16
  attrCount : UInt16
  eventCount : UInt16
  state : SlotState
  kind : UInt8
  statusCode : UInt8
  hasParent : Bool
  deriving DecidableEq

structure ChunkHdr where
  next : UInt32
  size : UInt32
  used : UInt32
  fwd : UInt32
  below : UInt32
  owner : UInt16
  kind : ChunkKind
  deriving DecidableEq

structure KvHdr where
  scalar : UInt64
  keyLen : UInt32
  strLen : UInt32
  type : UInt32
  deriving DecidableEq

structure EventHdr where
  time : UInt64
  nameLen : UInt32
  attrCount : UInt32
  deriving DecidableEq

/-- `memset(&rec, 0, sizeof(rec))`. -/
def SpanRec.zero : SpanRec where
  start := 0
  finish := 0
  traceId := Vector.replicate 16 0
  spanId := Vector.replicate 8 0
  parentSpanId := Vector.replicate 8 0
  head := 0
  tail := 0
  gen := 0
  nextEnded := 0
  attrCount := 0
  eventCount := 0
  state := .free
  kind := 0
  statusCode := 0
  hasParent := false

namespace SlotState

def toByte : SlotState → UInt8
  | free => 0
  | opened => 1
  | ended => 2

def ofByte (b : UInt8) : SlotState :=
  if b = 0 then free else if b = 1 then opened else ended

def layout : Layout SlotState :=
  Layout.u8.via toByte ofByte (by intro s; cases s <;> rfl)

end SlotState

namespace ChunkKind

def toByte : ChunkKind → UInt8
  | dead => 0
  | name => 1
  | attr => 2
  | event => 3
  | status => 4

def ofByte (b : UInt8) : ChunkKind :=
  if b = 1 then name else if b = 2 then attr else if b = 3 then event
  else if b = 4 then status else dead

def layout : Layout ChunkKind :=
  Layout.u8.via toByte ofByte (by intro s; cases s <;> rfl)

end ChunkKind

def boolLayout : Layout Bool :=
  Layout.u8.via (fun b => if b then 1 else 0) (fun x => x != 0)
    (by intro b; cases b <;> rfl)

/-- The byte layout of `span_rec`, with four bytes of tail padding. -/
def SpanRec.layout : Layout SpanRec :=
  (Layout.u64.pair <| Layout.u64.pair <| (Layout.bytes 16).pair <| (Layout.bytes 8).pair <|
    (Layout.bytes 8).pair <| Layout.u32.pair <| Layout.u32.pair <| Layout.u16.pair <|
    Layout.u16.pair <| Layout.u16.pair <| Layout.u16.pair <| SlotState.layout.pair <|
    Layout.u8.pair <| Layout.u8.pair <| boolLayout.pair <| Layout.pad 4).via
    (fun r => (r.start, r.finish, r.traceId, r.spanId, r.parentSpanId, r.head, r.tail, r.gen,
      r.nextEnded, r.attrCount, r.eventCount, r.state, r.kind, r.statusCode, r.hasParent, ()))
    (fun (start, finish, traceId, spanId, parentSpanId, head, tail, gen, nextEnded, attrCount,
      eventCount, state, kind, statusCode, hasParent, _) =>
      { start, finish, traceId, spanId, parentSpanId, head, tail, gen, nextEnded, attrCount,
        eventCount, state, kind, statusCode, hasParent })
    (fun _ => rfl)

def ChunkHdr.layout : Layout ChunkHdr :=
  (Layout.u32.pair <| Layout.u32.pair <| Layout.u32.pair <| Layout.u32.pair <|
    Layout.u32.pair <| Layout.u16.pair <| ChunkKind.layout.pair <| Layout.pad 1).via
    (fun h => (h.next, h.size, h.used, h.fwd, h.below, h.owner, h.kind, ()))
    (fun (next, size, used, fwd, below, owner, kind, _) =>
      { next, size, used, fwd, below, owner, kind })
    (fun _ => rfl)

def KvHdr.layout : Layout KvHdr :=
  (Layout.u64.pair <| Layout.u32.pair <| Layout.u32.pair <| Layout.u32.pair <|
    Layout.pad 4).via
    (fun h => (h.scalar, h.keyLen, h.strLen, h.type, ()))
    (fun (scalar, keyLen, strLen, type, _) => { scalar, keyLen, strLen, type })
    (fun _ => rfl)

def EventHdr.layout : Layout EventHdr :=
  (Layout.u64.pair <| Layout.u32.pair Layout.u32).via
    (fun h => (h.time, h.nameLen, h.attrCount))
    (fun (time, nameLen, attrCount) => { time, nameLen, attrCount })
    (fun _ => rfl)

@[simp] theorem SpanRec.layout_size : SpanRec.layout.size = sizeofSpanRec := rfl
@[simp] theorem ChunkHdr.layout_size : ChunkHdr.layout.size = sizeofChunkHdr := rfl
@[simp] theorem KvHdr.layout_size : KvHdr.layout.size = sizeofKvHdr := rfl
@[simp] theorem EventHdr.layout_size : EventHdr.layout.size = sizeofEventHdr := rfl

end Microtel.Leaf
