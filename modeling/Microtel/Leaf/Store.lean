import Microtel.Leaf.Batch

/-!
A leaf without pointers. A `Store` holds, for every slot of the span table, the
span's items in list order, each with the bytes its chunk reserves; all that is
left of the buffer is its capacity. Every operation succeeds or fails exactly
as the record buffer's does, since a failed allocation has compacted first.
-/

namespace Microtel.Leaf

open ByteMemory

/-! ### Packed attributes -/

def AttrValue.scalar : AttrValue → UInt64
  | .bool b => if b then 1 else 0
  | .int64 i => i.toUInt64
  | .double bits => bits
  | .string _ => 0

def AttrValue.text : AttrValue → Bytes
  | .string s => s
  | _ => []

def AttrValue.code : AttrValue → UInt32
  | .bool _ => 0
  | .int64 _ => 1
  | .double _ => 2
  | .string _ => 3

def Attr.hdr (a : Attr) : KvHdr where
  scalar := a.value.scalar
  keyLen := UInt32.ofNat a.key.length
  strLen := UInt32.ofNat a.value.text.length
  type := a.value.code

/-- The bytes of an attribute in the record buffer. -/
def Attr.bytes (a : Attr) : Bytes := KvHdr.layout.enc a.hdr ++ a.key ++ a.value.text

/-- What a valid argument means as an attribute. -/
def Kv.attr (kv : Kv) : Attr where
  key := kv.key.data
  value :=
    match kv.value with
    | .bool b => .bool (b ≠ 0)
    | .int64 i => .int64 i
    | .double bits => .double bits
    | .string s => .string s.data
    | .unknown => .string []

/-! ### Items and spans -/

/-- What a chunk in use holds. -/
inductive Item where
  | name (text : Bytes)
  | attr (a : Attr)
  | event (time : UInt64) (name : Bytes) (attrs : List Attr)
  | status (text : Bytes)
  deriving DecidableEq

def Item.kind : Item → ChunkKind
  | name _ => .name
  | attr _ => .attr
  | event _ _ _ => .event
  | status _ => .status

/-- The payload bytes of an item. -/
def Item.bytes : Item → Bytes
  | name text => text
  | attr a => a.bytes
  | event time title attrs =>
      EventHdr.layout.enc ⟨time, UInt32.ofNat title.length, UInt32.ofNat attrs.length⟩ ++ title ++
        attrs.flatMap Attr.bytes
  | status text => text

/-- An item and the payload bytes its chunk reserves. -/
structure Cell where
  item : Item
  cap : Nat
  deriving DecidableEq

def Cell.bytes (c : Cell) : Nat := sizeofChunkHdr + c.cap

def Item.attr? : Item → Option Attr
  | attr a => some a
  | _ => none

def Item.event? : Item → Option (UInt64 × Bytes × List Attr)
  | event time title attrs => some (time, title, attrs)
  | _ => none

def Item.name? : Item → Option Bytes
  | name text => some text
  | _ => none

def Item.status? : Item → Option Bytes
  | status text => some text
  | _ => none

/-- Whether the cell is the attribute with this key. -/
def Cell.hasKey (key : Bytes) (c : Cell) : Bool :=
  match c.item with
  | .attr a => a.key = key
  | _ => false

def Cell.isStatus (c : Cell) : Bool :=
  match c.item with
  | .status _ => true
  | _ => false

/-- A span that has been started and not encoded. -/
structure Entry where
  start : UInt64
  finish : UInt64
  traceId : TraceId
  spanId : SpanId
  parent : Option SpanId
  gen : UInt16
  ended : Bool
  kind : SpanKind
  statusCode : StatusCode
  cells : List Cell

/-- The items of one kind, in list order. -/
def pick {α : Type} (f : Item → Option α) (cells : List Cell) : List α :=
  cells.filterMap fun c => f c.item

namespace Entry

def attrs (e : Entry) : List Attr := pick Item.attr? e.cells
def events (e : Entry) : List (UInt64 × Bytes × List Attr) := pick Item.event? e.cells
def names (e : Entry) : List Bytes := pick Item.name? e.cells
def statuses (e : Entry) : List Bytes := pick Item.status? e.cells

def bytes (e : Entry) : Nat := (e.cells.map Cell.bytes).sum

/-- The span record of an entry, but for its links. -/
def toRec (e : Entry) (head tail : UInt32) (nextEnded : UInt16) : SpanRec where
  start := e.start
  finish := e.finish
  traceId := e.traceId
  spanId := e.spanId
  parentSpanId := e.parent.getD (Vector.replicate 8 0)
  head := head
  tail := tail
  gen := e.gen
  nextEnded := nextEnded
  attrCount := UInt16.ofNat e.attrs.length
  eventCount := UInt16.ofNat e.events.length
  state := if e.ended then .ended else .opened
  kind := e.kind.code
  statusCode := e.statusCode.code
  hasParent := e.parent.isSome

/-- What the cursors return for the span, with times moved by `offset`. -/
def view (e : Entry) (offset : UInt64) : SpanView where
  traceId := e.traceId
  spanId := e.spanId
  parentSpanId := e.parent
  name := e.names.getLast?.getD []
  kind := e.kind.code
  startTimeUnixNano := e.start + offset
  endTimeUnixNano := e.finish + offset
  hasStatus := e.statusCode ≠ .unset || 0 < (e.statuses.getLast?.getD []).length
  statusCode := e.statusCode.code
  statusMessage := e.statuses.getLast?.getD []
  attrs := e.attrs
  events := e.events.map fun (time, name, attrs) => ⟨time + offset, name, attrs⟩

end Entry

/-! ### The store -/

def slotsOf (count : UInt16) : List UInt16 := (List.range count.toNat).map UInt16.ofNat

structure Store extends LeafParams, LeafVars where
  resource : List Attr
  scopeName : Bytes
  scopeVersion : Bytes
  capacity : Nat
  nextGen : UInt16
  count : UInt16
  entry : UInt16 → Option Entry
  ended : List UInt16

namespace Store

def entryBytes : Option Entry → Nat
  | some e => e.bytes
  | none => 0

/-- The bytes of all chunks in use. -/
def chunkBytes (S : Store) : Nat := ((slotsOf S.count).map fun s => entryBytes (S.entry s)).sum

/-- The bytes of the span table and the chunks in use. -/
def usedBytes (S : Store) : Nat := S.count.toNat * sizeofSpanRec + S.chunkBytes

/-- The bytes an allocation may take. -/
def room (S : Store) : Nat := S.capacity - S.usedBytes

def put (S : Store) (s : UInt16) (e : Entry) : Store :=
  { S with entry := Function.update S.entry s (some e) }

def dropSpan (S : Store) : Store :=
  { S with counters := { S.counters with droppedSpans := S.counters.droppedSpans + 1 } }

def dropAttributes (S : Store) (n : UInt32) : Store :=
  { S with counters := { S.counters with droppedAttributes := S.counters.droppedAttributes + n } }

def dropEvent (S : Store) : Store :=
  { S with counters := { S.counters with droppedEvents := S.counters.droppedEvents + 1 } }

def freeSlot? (S : Store) : Option UInt16 := (slotsOf S.count).find? fun s => (S.entry s).isNone

/-- The bytes of the chunk for a name of `len` bytes; none for an empty one. -/
def nameBytes (len : Nat) : Nat := if len = 0 then 0 else sizeofChunkHdr + len

/-- The slot of a new span with a name of `len` bytes, if there is room. -/
def place (S : Store) (len : Nat) : Option UInt16 :=
  match S.freeSlot? with
  | some s => if nameBytes len ≤ S.room then some s else none
  | none =>
      if S.count = none16 then none
      else if sizeofSpanRec + nameBytes len ≤ S.room then some S.count else none

def newEntry (S : Store) (env : Callbacks) (name : Slice UInt8) (kind : SpanKind)
    (traceId : TraceId) (spanId : SpanId) (parent : Option SpanId) : Entry where
  start := readClock S.toLeafParams env
  finish := 0
  traceId := traceId
  spanId := spanId
  parent := parent
  gen := S.nextGen
  ended := false
  kind := kind
  statusCode := .unset
  cells := if name.len = 0 then [] else [⟨.name name.data, name.len⟩]

def startSpan (S : Store) (env : Callbacks) (name : Slice UInt8) (kind : SpanKind)
    (ids : SpanIds) : Option (Store × Outcome) :=
  match S.place name.len with
  | none => some (S.dropSpan, .of .errNoSpace)
  | some slot =>
      match drawIds S.toLeafVars ids env.random with
      | none => none
      | some (traceId, spanId, vars) =>
          some ({ S with
              toLeafVars := vars
              nextGen := nextGeneration S.nextGen
              count := if slot = S.count then S.count + 1 else S.count
              entry := Function.update S.entry slot
                (some (S.newEntry env name kind traceId spanId ids.parentId)) },
            ⟨.ok, some (mkHandle S.nextGen slot)⟩)

/-- The open or ended span of a handle, with its slot. -/
def resolve (S : Store) (handle : Handle) : Option (UInt16 × Entry) :=
  let index := (handle &&& 0xffff).toUInt16
  let gen := (handle >>> 16).toUInt16
  if S.count ≤ index ∨ gen = 0 then none
  else match S.entry index with
    | some e => if e.gen = gen then some (index, e) else none
    | none => none

def spanStart (S : Store) (env : Callbacks) (outNull : Bool) (name : Slice UInt8)
    (kind : Option SpanKind) (parent : Option Handle) : Option (Store × Outcome) :=
  match startArgsValid outNull name kind with
  | none => some (S, .of .errArg)
  | some kind =>
      match parent with
      | none => S.startSpan env name kind ⟨none, none⟩
      | some handle =>
          match S.resolve handle with
          | none => some (S, .of .errState)
          | some (_, e) => S.startSpan env name kind ⟨some e.traceId, some e.spanId⟩

def spanStartRemote (S : Store) (env : Callbacks) (outNull : Bool) (name : Slice UInt8)
    (kind : Option SpanKind) (traceId : Option TraceId) (parentSpanId : Option SpanId) :
    Option (Store × Outcome) :=
  match startArgsValid outNull name kind, traceId, parentSpanId with
  | some kind, some traceId, some parentId =>
      if allZero traceId.toList || allZero parentId.toList then some (S, .of .errArg)
      else S.startSpan env name kind ⟨some traceId, some parentId⟩
  | _, _, _ => some (S, .of .errArg)

def openSpan (S : Store) (argsOk : Bool) (span : Handle) : Except Status (UInt16 × Entry) :=
  if !argsOk then .error .errArg
  else match S.resolve span with
    | some (s, e) => if e.ended then .error .errState else .ok (s, e)
    | none => .error .errState

/-- The list with its first match replaced. -/
def replaceFirst (p : Cell → Bool) (new : Cell) : List Cell → List Cell
  | [] => []
  | c :: cs => if p c then new :: cs else c :: replaceFirst p new cs

def setAttribute (S : Store) (span : Handle) (attr : Option Kv) : Store × Status :=
  match attr with
  | none => (S, .errArg)
  | some kv =>
      match S.openSpan (kvValid kv) span with
      | .error status => (S, status)
      | .ok (s, e) =>
          let a := kv.attr
          let size := a.bytes.length
          match e.cells.find? (Cell.hasKey a.key) with
          | some c =>
              if size ≤ c.cap then
                (S.put s
                  { e with cells := replaceFirst (Cell.hasKey a.key) ⟨.attr a, c.cap⟩ e.cells },
                  .ok)
              else if sizeofChunkHdr + size ≤ S.room then
                (S.put s
                  { e with cells := replaceFirst (Cell.hasKey a.key) ⟨.attr a, size⟩ e.cells }, .ok)
              else (S.dropAttributes 1, .errNoSpace)
          | none =>
              if S.maxAttrs.toNat ≤ e.attrs.length then (S.dropAttributes 1, .errLimit)
              else if sizeofChunkHdr + size ≤ S.room then
                (S.put s { e with cells := e.cells ++ [⟨.attr a, size⟩] }, .ok)
              else (S.dropAttributes 1, .errNoSpace)

def addEvent (S : Store) (env : Callbacks) (span : Handle) (name : Slice UInt8)
    (attrs : Slice Kv) : Store × Status :=
  match S.openSpan (name.readable && attrs.readable && kvsValid attrs.data) span with
  | .error status => (S, status)
  | .ok (s, e) =>
      if S.maxEvents.toNat ≤ e.events.length then (S.dropEvent, .errLimit)
      else
        let kept := (attrs.data.take S.maxEventAttrs.toNat).map Kv.attr
        let item := Item.event (readClock S.toLeafParams env) name.data kept
        if sizeofChunkHdr + item.bytes.length ≤ S.room then
          ((S.put s { e with cells := e.cells ++ [⟨item, item.bytes.length⟩] }).dropAttributes
            (UInt32.ofNat (attrs.len - kept.length)), .ok)
        else (S.dropEvent, .errNoSpace)

/-- The cells with the status message dropped and the new one, if it is not
empty, at the end; `none` if there is no room. -/
def renewStatus (S : Store) (cells : List Cell) (message : Slice UInt8) : Option (List Cell) :=
  if message.len = 0 then some (cells.eraseP Cell.isStatus)
  else if sizeofChunkHdr + message.len ≤ S.room then
    some (cells.eraseP Cell.isStatus ++ [⟨.status message.data, message.len⟩])
  else none

/-- The cells after a status message has been set, in place if it fits. -/
def statusCells (S : Store) (cells : List Cell) (message : Slice UInt8) : Option (List Cell) :=
  match cells.find? Cell.isStatus with
  | some c =>
      if 0 < message.len ∧ message.len ≤ c.cap then
        some (replaceFirst Cell.isStatus ⟨.status message.data, c.cap⟩ cells)
      else S.renewStatus cells message
  | none => S.renewStatus cells message

def setStatus (S : Store) (span : Handle) (code : Option StatusCode) (message : Slice UInt8) :
    Store × Status :=
  match S.openSpan (code.isSome && message.readable) span with
  | .error status => (S, status)
  | .ok (s, e) =>
      match S.statusCells e.cells message with
      | some cells => (S.put s { e with cells, statusCode := code.getD .unset }, .ok)
      | none => (S, .errNoSpace)

def spanEnd (S : Store) (env : Callbacks) (span : Handle) : Store × Status :=
  match S.openSpan true span with
  | .error status => (S, status)
  | .ok (s, e) =>
      ({ S.put s { e with ended := true, finish := readClock S.toLeafParams env } with
          ended := S.ended ++ [s] }, .ok)

def clockSync (S : Store) (env : Callbacks) (unixNs leafNowNs : UInt64) : Store × Status :=
  if !S.hasClock ∨ unixNs = 0 ∨ readClock S.toLeafParams env < leafNowNs then (S, .errClock)
  else ({ S with syncUnix := unixNs, syncLeaf := leafNowNs, synced := true }, .ok)

/-- The ended spans, in the order they were ended. -/
def endedEntries (S : Store) : List Entry := S.ended.filterMap S.entry

def view (S : Store) (env : Callbacks) : BatchView where
  resource := S.resource ++ reservedAttrs S.toLeafParams S.toLeafVars env
  scopeName := S.scopeName
  scopeVersion := S.scopeVersion
  spans := S.endedEntries.map fun e => e.view (timeOffset S.toLeafParams S.toLeafVars)

/-- The table with its trailing free slots dropped. -/
def trimCount (entry : UInt16 → Option Entry) : Nat → UInt16
  | 0 => 0
  | n + 1 => if (entry (UInt16.ofNat n)).isSome then UInt16.ofNat (n + 1) else trimCount entry n

def releaseEnded (S : Store) : Store :=
  let entry := fun s => if s ∈ S.ended then none else S.entry s
  { S with entry, ended := [], count := trimCount entry S.count.toNat, counters := .zero }

def encode (S : Store) (env : Callbacks) (argsOk : Bool) (backend : BatchView → Status) :
    Store × Status :=
  if !argsOk then (S, .errArg)
  else if backend (S.view env) = .ok then (S.releaseEnded, .ok) else (S, backend (S.view env))

end Store

def returnsStore (r : Store × Status) : Option (Option Store × Outcome) :=
  some (some r.1, .of r.2)

/-- One public call; `none` is the store of a freed leaf. -/
def Store.step (env : Callbacks) : Option Store → Call → Option (Option Store × Outcome)
  | none, .free => some (none, .of .ok)
  | none, _ => some (none, .of .errState)
  | some S, .spanStart outNull name kind parent =>
      (S.spanStart env outNull name kind parent).map fun r => (some r.1, r.2)
  | some S, .spanStartRemote outNull name kind traceId parentSpanId =>
      (S.spanStartRemote env outNull name kind traceId parentSpanId).map fun r => (some r.1, r.2)
  | some S, .setAttribute span attr => returnsStore (S.setAttribute span attr)
  | some S, .addEvent span name attrs => returnsStore (S.addEvent env span name attrs)
  | some S, .setStatus span code message => returnsStore (S.setStatus span code message)
  | some S, .spanEnd span => returnsStore (S.spanEnd env span)
  | some S, .clockSync unixNs leafNowNs => returnsStore (S.clockSync env unixNs leafNowNs)
  | some S, .encode outNull outSize writtenNull backend =>
      returnsStore (S.encode env (!writtenNull && !(outNull && 0 < outSize)) backend)
  | some S, .encodeTo writeNull writtenNull backend =>
      returnsStore (S.encode env (!writeNull && !writtenNull) backend)
  | some _, .free => some (none, .of .ok)

end Microtel.Leaf
