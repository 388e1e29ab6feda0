import Microtel.Leaf.Spans

/-!
The batch view the encoder backends read, its cursors, encoding, and one
public call as a step of the leaf (`leaf/src/leaf_core.c`, from `build_batch`;
`leaf/src/leaf_internal.h`).
-/

namespace Microtel.Leaf

open ByteMemory Loop

/-! ### The batch -/

/-- `microtel_leaf_internal_batch`. -/
structure Batch where
  core : LeafState
  scopeName : Bytes
  scopeVersion : Bytes
  spanCount : UInt32
  reserved : List Attr
  timeOffset : UInt64

def keyProto : Bytes := ascii "microtel.leaf.proto"
def keyTimeMode : Bytes := ascii "microtel.leaf.time_mode"
def keyEncodeTime : Bytes := ascii "microtel.leaf.encode_time"
def keySyncAge : Bytes := ascii "microtel.leaf.sync_age"
def keyBootId : Bytes := ascii "microtel.leaf.boot_id"
def keyDroppedSpans : Bytes := ascii "microtel.leaf.dropped_spans"
def keyDroppedItems : Bytes := ascii "microtel.leaf.dropped_items"

def wireProtoVersion : Int64 := 1

def intAttr (key : Bytes) (v : Int64) : Attr := ⟨key, .int64 v⟩

/-- The payload's time mode: an unsynced sync-relative leaf falls back. -/
def payloadMode (p : LeafParams) (v : LeafVars) : TimeMode :=
  if p.timeMode = .syncRelative ∧ !v.synced then .concentratorStamped else p.timeMode

def timeOffset (p : LeafParams) (v : LeafVars) : UInt64 :=
  if payloadMode p v = .syncRelative then v.syncUnix - v.syncLeaf else 0

/-- The reserved attributes `build_batch` adds, in order. -/
def reservedAttrs (p : LeafParams) (v : LeafVars) (env : Callbacks) : List Attr :=
  let e := readClock p env
  let mode := payloadMode p v
  let droppedItems := v.counters.droppedAttributes.toUInt64 + v.counters.droppedEvents.toUInt64
  [intAttr keyProto wireProtoVersion, intAttr keyTimeMode (Int64.ofNat mode.code)] ++
    (if p.hasClock then [intAttr keyEncodeTime (e + timeOffset p v).toInt64] else []) ++
    (if mode = .syncRelative then [intAttr keySyncAge (e - v.syncLeaf).toInt64] else []) ++
    (if mode = .bootRelative then [intAttr keyBootId (p.bootId.toUInt64).toInt64] else []) ++
    (if 0 < v.counters.droppedSpans then
      [intAttr keyDroppedSpans (v.counters.droppedSpans.toUInt64).toInt64] else []) ++
    (if 0 < droppedItems then [intAttr keyDroppedItems droppedItems.toInt64] else [])

def buildBatch (st : LeafState) (env : Callbacks) : Batch where
  core := st
  scopeName := st.mem.read st.scopeNameOff.toNat st.scopeNameLen.toNat
  scopeVersion := st.mem.read st.scopeVersionOff.toNat st.scopeVersionLen.toNat
  spanCount := st.endedCount
  reserved := reservedAttrs st.toLeafParams st.toLeafVars env
  timeOffset := timeOffset st.toLeafParams st.toLeafVars

/-! ### Cursors -/

structure Cursor where
  pos : UInt32
  index : UInt32
  deriving DecidableEq

def Cursor.zero : Cursor := ⟨0, 0⟩

/-- Everything a cursor function returns, from a zeroed cursor to its end. -/
def collect {α : Type} (next : Cursor → Option (α × Cursor)) : Nat → Cursor → List α
  | 0, _ => []
  | fuel + 1, c =>
      match next c with
      | some (a, c) => a :: collect next fuel c
      | none => []

/-- `microtel_leaf_internal_span`; `chain` is the head of its chunk list. -/
structure InternalSpan where
  traceId : TraceId
  spanId : SpanId
  parentSpanId : Option SpanId
  name : Bytes
  kind : UInt8
  startTimeUnixNano : UInt64
  endTimeUnixNano : UInt64
  hasStatus : Bool
  statusCode : UInt8
  statusMessage : Bytes
  attrCount : UInt16
  eventCount : UInt16
  chain : UInt32

/-- `microtel_leaf_internal_event`; `attrs` is where its attributes lie. -/
structure InternalEvent where
  timeUnixNano : UInt64
  name : Bytes
  attrCount : UInt32
  attrs : Nat

section

variable (w : Word32)

def nextResourceAttr (b : Batch) (c : Cursor) : Option (Attr × Cursor) :=
  let st := b.core
  let pos := if c.index = 0 then st.resourceOff else c.pos
  if c.index < st.resourceCount then
    let (a, n) := unpackKv w st.mem pos.toNat
    some (a, ⟨w.add pos n, c.index + 1⟩)
  else
    (b.reserved[(c.index - st.resourceCount).toNat]?).map fun a => (a, ⟨pos, c.index + 1⟩)

/-- The variables of `span_strings`: the chunk, the name and the message. -/
def stringsStep (st : LeafState) (s : UInt32 × Bytes × Bytes) : UInt32 × Bytes × Bytes :=
  let hdr := getChunk st s.1
  let text := st.mem.read (chunkPayload s.1) hdr.used.toNat
  (hdr.next, if hdr.kind = .name then text else s.2.1,
    if hdr.kind = .status then text else s.2.2)

/-- The name and status message of the span whose chunk list starts at `head`. -/
def spanStrings (st : LeafState) (head : UInt32) : Bytes × Bytes :=
  (whileLoop (fun s => decide (s.1 ≠ none32)) (stringsStep st) st.bufSize.toNat
    (head, [], [])).2

def nextSpan (b : Batch) (c : Cursor) : Option (InternalSpan × Cursor) :=
  let st := b.core
  let slot := if c.index = 0 then st.endedHead else c.pos.toUInt16
  if slot = none16 then none
  else
    let r := getSlot st slot
    let (name, statusMessage) := spanStrings st r.head
    some (
      { traceId := r.traceId
        spanId := r.spanId
        parentSpanId := if r.hasParent then some r.parentSpanId else none
        name
        kind := r.kind
        startTimeUnixNano := r.start + b.timeOffset
        endTimeUnixNano := r.finish + b.timeOffset
        hasStatus := r.statusCode ≠ StatusCode.unset.code || 0 < statusMessage.length
        statusCode := r.statusCode
        statusMessage
        attrCount := r.attrCount
        eventCount := r.eventCount
        chain := r.head },
      ⟨r.nextEnded.toUInt32, c.index + 1⟩)

/-- The next chunk of `kind` at or after the cursor, and the cursor after it. -/
def nextOfKind (st : LeafState) (chain : UInt32) (c : Cursor) (kind : ChunkKind) :
    UInt32 × Cursor :=
  let off := whileLoop (fun off => decide (off ≠ none32) && decide ((getChunk st off).kind ≠ kind))
    (fun off => (getChunk st off).next) st.bufSize.toNat (if c.index = 0 then chain else c.pos)
  if off ≠ none32 then (off, ⟨(getChunk st off).next, c.index + 1⟩)
  else (none32, ⟨none32, c.index + 1⟩)

def nextAttr (b : Batch) (s : InternalSpan) (c : Cursor) : Option (Attr × Cursor) :=
  let (off, c) := nextOfKind b.core s.chain c .attr
  if off = none32 then none
  else some ((unpackKv w b.core.mem (chunkPayload off)).1, c)

def nextEvent (b : Batch) (s : InternalSpan) (c : Cursor) : Option (InternalEvent × Cursor) :=
  let (off, c) := nextOfKind b.core s.chain c .event
  if off = none32 then none
  else
    let p := chunkPayload off
    let hdr := b.core.mem.get EventHdr.layout p
    some (
      { timeUnixNano := hdr.time + b.timeOffset
        name := b.core.mem.read (p + sizeofEventHdr) hdr.nameLen.toNat
        attrCount := hdr.attrCount
        attrs := p + sizeofEventHdr + hdr.nameLen.toNat },
      c)

def nextEventAttr (m : Mem) (ev : InternalEvent) (c : Cursor) : Option (Attr × Cursor) :=
  if ev.attrCount ≤ c.index then none
  else
    let (a, n) := unpackKv w m (ev.attrs + c.pos.toNat)
    some (a, ⟨w.add c.pos n, c.index + 1⟩)

/-! ### The view: everything the cursors return -/

structure EventView where
  timeUnixNano : UInt64
  name : Bytes
  attrs : List Attr
  deriving DecidableEq

structure SpanView where
  traceId : TraceId
  spanId : SpanId
  parentSpanId : Option SpanId
  name : Bytes
  kind : UInt8
  startTimeUnixNano : UInt64
  endTimeUnixNano : UInt64
  hasStatus : Bool
  statusCode : UInt8
  statusMessage : Bytes
  attrs : List Attr
  events : List EventView
  deriving DecidableEq

structure BatchView where
  resource : List Attr
  scopeName : Bytes
  scopeVersion : Bytes
  spans : List SpanView
  deriving DecidableEq

/-- More rounds than any cursor sequence of this leaf has. -/
def cursorFuel (st : LeafState) : Nat := st.bufSize.toNat + 8

def resourceList (b : Batch) : List Attr :=
  collect (nextResourceAttr w b) (cursorFuel b.core) .zero

def spanList (b : Batch) : List InternalSpan :=
  collect (nextSpan b) (cursorFuel b.core) .zero

def attrList (b : Batch) (s : InternalSpan) : List Attr :=
  collect (nextAttr w b s) (cursorFuel b.core) .zero

def eventList (b : Batch) (s : InternalSpan) : List InternalEvent :=
  collect (nextEvent b s) (cursorFuel b.core) .zero

def eventAttrList (b : Batch) (ev : InternalEvent) : List Attr :=
  collect (nextEventAttr w b.core.mem ev) (cursorFuel b.core) .zero

def eventView (b : Batch) (ev : InternalEvent) : EventView :=
  ⟨ev.timeUnixNano, ev.name, eventAttrList w b ev⟩

def spanView (b : Batch) (s : InternalSpan) : SpanView where
  traceId := s.traceId
  spanId := s.spanId
  parentSpanId := s.parentSpanId
  name := s.name
  kind := s.kind
  startTimeUnixNano := s.startTimeUnixNano
  endTimeUnixNano := s.endTimeUnixNano
  hasStatus := s.hasStatus
  statusCode := s.statusCode
  statusMessage := s.statusMessage
  attrs := attrList w b s
  events := (eventList b s).map (eventView w b)

/-- What a backend reads from a batch through the cursors. -/
def viewOf (b : Batch) : BatchView where
  resource := resourceList w b
  scopeName := b.scopeName
  scopeVersion := b.scopeVersion
  spans := (spanList b).map (spanView w b)

def batchView (st : LeafState) (env : Callbacks) : BatchView := viewOf w (buildBatch st env)

/-! ### Encoding -/

def releaseStep (s : LeafState × UInt16) : LeafState × UInt16 :=
  let r := getSlot s.1 s.2
  (putSlot s.1 s.2 { r with state := .free }, r.nextEnded)

/-- Releases every ended span after a successful encode. -/
def releaseEnded (st : LeafState) : LeafState :=
  let st := (whileLoop (fun s => decide (s.2 ≠ none16)) releaseStep st.slotCount.toNat
    (st, st.endedHead)).1
  let st := { st with endedHead := none16, endedTail := none16, endedCount := 0 }
  let st := compact w (trimSlots st)
  { st with counters := .zero }

/-- `encode_with`: `backend` is the status the backend returns for the batch. -/
def encodeWith (st : LeafState) (env : Callbacks) (backend : BatchView → Status) :
    LeafState × Status :=
  let status := backend (batchView w st env)
  if status = .ok then (releaseEnded w st, status) else (st, status)

/-- `microtel_leaf_encode` and `microtel_leaf_encode_to` past the backend's
own work: `argsOk` is the argument check of each. -/
def encode (st : LeafState) (env : Callbacks) (argsOk : Bool) (backend : BatchView → Status) :
    LeafState × Status :=
  if checkLeaf st ≠ .ok then (st, checkLeaf st)
  else if !argsOk then (st, .errArg)
  else encodeWith w st env backend

end

/-! ### Public calls -/

/-- A public call with its arguments. -/
inductive Call where
  | spanStart (outNull : Bool) (name : Slice UInt8) (kind : Option SpanKind)
      (parent : Option Handle)
  | spanStartRemote (outNull : Bool) (name : Slice UInt8) (kind : Option SpanKind)
      (traceId : Option TraceId) (parentSpanId : Option SpanId)
  | setAttribute (span : Handle) (attr : Option Kv)
  | addEvent (span : Handle) (name : Slice UInt8) (attrs : Slice Kv)
  | setStatus (span : Handle) (code : Option StatusCode) (message : Slice UInt8)
  | spanEnd (span : Handle)
  | clockSync (unixNs leafNowNs : UInt64)
  | encode (outNull : Bool) (outSize : Nat) (writtenNull : Bool) (backend : BatchView → Status)
  | encodeTo (writeNull writtenNull : Bool) (backend : BatchView → Status)
  | free

def returns (r : LeafState × Status) : Option (LeafState × Outcome) :=
  some (r.1, .of r.2)

/-- One public call. `none` only when the random source runs out of answers
before the call returns. -/
def step (w : Word32) (st : LeafState) (env : Callbacks) : Call → Option (LeafState × Outcome)
  | .spanStart outNull name kind parent => spanStart w st env outNull name kind parent
  | .spanStartRemote outNull name kind traceId parentSpanId =>
      spanStartRemote w st env outNull name kind traceId parentSpanId
  | .setAttribute span attr => returns (setAttribute w st span attr)
  | .addEvent span name attrs => returns (addEvent w st env span name attrs)
  | .setStatus span code message => returns (setStatus w st span code message)
  | .spanEnd span => returns (spanEnd st env span)
  | .clockSync unixNs leafNowNs => returns (clockSync st env unixNs leafNowNs)
  | .encode outNull outSize writtenNull backend =>
      returns (encode w st env (!writtenNull && !(outNull && 0 < outSize)) backend)
  | .encodeTo writeNull writtenNull backend =>
      returns (encode w st env (!writeNull && !writtenNull) backend)
  | .free => returns (free st, .ok)

/-- A run of calls that all returned, with their outcomes. -/
def run (w : Word32) : LeafState → List (Callbacks × Call) → Option (LeafState × List Outcome)
  | st, [] => some (st, [])
  | st, (env, call) :: calls =>
      match step w st env call with
      | none => none
      | some (st, o) => (run w st calls).map fun (st, os) => (st, o :: os)

end Microtel.Leaf
