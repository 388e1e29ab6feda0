import Microtel.Leaf.Core

/-!
Lifecycle and span building (`leaf/src/leaf_core.c`, from `config_scalars_valid`
to `microtel_leaf_clock_sync`).
-/

namespace Microtel.Leaf

open ByteMemory Loop

/-! ### Lifecycle -/

def configScalarsValid (c : Config) : Bool :=
  if !c.hasRandom then false
  else match c.timeMode with
    | none => false
    | some mode =>
        if !c.hasClock && mode ≠ .concentratorStamped then false
        else c.scratchNull == (c.scratchSize = 0)

def configValid (c : Config) : Bool :=
  configScalarsValid c && c.resource.readable && c.scopeName.readable &&
    c.scopeVersion.readable &&
    c.resource.data.all fun kv => kvValid kv && !hasReservedPrefix kv

def persistentSize (c : Config) : Nat :=
  c.scopeName.len + c.scopeVersion.len + (c.resource.data.map kvSize).sum

def capOr (value fallback : UInt16) : UInt16 := if value ≠ 0 then value else fallback

section

variable (w : Word32)

/-- The state `init_state` leaves: everything zero but what the config sets. -/
def initState (c : Config) (buf : Mem) (size : UInt32) : LeafState where
  timeMode := c.timeMode.getD .concentratorStamped
  hasClock := c.hasClock
  bootId := c.bootId
  maxAttrs := capOr c.maxAttributesPerSpan 16
  maxEvents := capOr c.maxEventsPerSpan 4
  maxEventAttrs := capOr c.maxAttributesPerEvent 4
  deviceKey := deviceKey c.resource.data c.bootId
  idCounter := 0
  synced := false
  syncUnix := 0
  syncLeaf := 0
  counters := .zero
  magic := 0
  mem := buf
  bufSize := size
  persistOff := 0
  dataLow := 0
  resourceOff := 0
  resourceCount := 0
  scopeNameOff := 0
  scopeNameLen := 0
  scopeVersionOff := 0
  scopeVersionLen := 0
  slotCount := 0
  nextGen := 1
  endedHead := none16
  endedTail := none16
  endedCount := 0
  high := 0

/-- `off += pack_kv(st->buf + off, kv)`. -/
def packAt (s : LeafState × UInt32) (kv : Kv) : LeafState × UInt32 :=
  let (st, n) := packKv w s.1 s.2.toNat kv
  (st, w.add s.2 n)

/-- Writes the Resource and scope at the top of the buffer. -/
def writePersistent (st : LeafState) (c : Config) (size : UInt32) : LeafState :=
  let off := w.sub st.bufSize size
  let st := { st with persistOff := off, dataLow := off, resourceOff := off,
                      resourceCount := w.cast c.resource.len }
  let (st, off) := c.resource.data.foldl (packAt w) (st, off)
  let st := { st with scopeNameOff := off, scopeNameLen := w.cast c.scopeName.len }
  let st := st.poke off.toNat c.scopeName.data
  let off := w.add off st.scopeNameLen
  let st := { st with scopeVersionOff := off, scopeVersionLen := w.cast c.scopeVersion.len }
  st.poke off.toNat c.scopeVersion.data

/-- `microtel_leaf_init`: the status, the leaf object and the record buffer
afterwards. Buffer writes are counted in `high` from here on. -/
def init (leaf : LeafState) (leafSize : Nat) (config : Option Config) (buffer : Option Mem)
    (bufferSize : Nat) : Status × LeafState × Option Mem :=
  match config, buffer with
  | some c, some buf =>
      if leafSize < sizeofLeaf ∨ c.structSize < sizeofConfig then (.errArg, leaf, buffer)
      else if !configValid c then (.errArg, leaf, buffer)
      else
        let usable := min bufferSize maxBuffer
        if usable < persistentSize c then (.errNoSpace, leaf, buffer)
        else
          let st := initState c buf (w.cast usable)
          let st := writePersistent w st c (w.cast (persistentSize c))
          let st := { st with magic := leafMagic, high := 0 }
          (.ok, st, some st.mem)
  | _, _ => (.errArg, leaf, buffer)

/-- `microtel_leaf_free`: the leaf object becomes all zero. -/
def free (st : LeafState) : LeafState where
  timeMode := .concentratorStamped
  hasClock := false
  bootId := 0
  maxAttrs := 0
  maxEvents := 0
  maxEventAttrs := 0
  deviceKey := 0
  idCounter := 0
  synced := false
  syncUnix := 0
  syncLeaf := 0
  counters := .zero
  magic := 0
  mem := st.mem
  bufSize := 0
  persistOff := 0
  dataLow := 0
  resourceOff := 0
  resourceCount := 0
  scopeNameOff := 0
  scopeNameLen := 0
  scopeVersionOff := 0
  scopeVersionLen := 0
  slotCount := 0
  nextGen := 0
  endedHead := 0
  endedTail := 0
  endedCount := 0
  high := 0

/-! ### Building spans -/

/-- The result of a call: its status and the handle it wrote, if any. -/
structure Outcome where
  status : Status
  span : Option Handle
  deriving DecidableEq, Repr

def Outcome.of (status : Status) : Outcome := ⟨status, none⟩

/-- `span_ids`: the trace id to inherit and the parent span id, if any. -/
structure SpanIds where
  traceId : Option TraceId
  parentId : Option SpanId

def countDroppedSpan (st : LeafState) : LeafState :=
  { st with counters := { st.counters with droppedSpans := st.counters.droppedSpans + 1 } }

def countDroppedAttribute (st : LeafState) : LeafState :=
  { st with
    counters := { st.counters with droppedAttributes := st.counters.droppedAttributes + 1 } }

def countDroppedEvent (st : LeafState) : LeafState :=
  { st with counters := { st.counters with droppedEvents := st.counters.droppedEvents + 1 } }

/-- The ids of a new span: the trace id inherited or drawn, then the span id. -/
def drawIds (v : LeafVars) (ids : SpanIds) (random : List UInt64) :
    Option (TraceId × SpanId × LeafVars) :=
  match ids.traceId with
  | some traceId => (newSpanId v random).map fun (spanId, v, _) => (traceId, spanId, v)
  | none =>
      match newTraceId v random with
      | some (traceId, v, rest) =>
          (newSpanId v rest).map fun (spanId, v, _) => (traceId, spanId, v)
      | none => none

/-- `start_span`. `none` only when the random source runs out of answers. -/
def startSpan (st : LeafState) (env : Callbacks) (name : Slice UInt8) (kind : SpanKind)
    (ids : SpanIds) : Option (LeafState × Outcome) :=
  let (st, slot) := acquireSlot w st
  let (st, nameOff) :=
    if slot ≠ none16 ∧ 0 < name.len then allocString w st slot .name name else (st, none32)
  if slot = none16 ∨ (0 < name.len ∧ nameOff = none32) then
    some (countDroppedSpan (trimSlots st), .of .errNoSpace)
  else
    match drawIds st.toLeafVars ids env.random with
    | none => none
    | some (traceId, spanId, vars) =>
        let st := { st with toLeafVars := vars }
        let gen := st.nextGen
        let st := { st with nextGen := nextGeneration gen }
        let r : SpanRec :=
          { SpanRec.zero with
            traceId, spanId
            hasParent := ids.parentId.isSome
            parentSpanId := ids.parentId.getD (Vector.replicate 8 0)
            head := none32
            tail := none32
            gen
            nextEnded := none16
            state := .opened
            kind := kind.code
            start := readClock st.toLeafParams env }
        let st := putSlot st slot r
        let st := if nameOff ≠ none32 then linkChunk st slot nameOff else st
        some (st, ⟨.ok, some (mkHandle gen slot)⟩)

/-- `start_args_valid`, with the validated kind. -/
def startArgsValid (outNull : Bool) (name : Slice UInt8) (kind : Option SpanKind) :
    Option SpanKind :=
  if outNull || !name.readable then none else kind

def spanStart (st : LeafState) (env : Callbacks) (outNull : Bool) (name : Slice UInt8)
    (kind : Option SpanKind) (parent : Option Handle) : Option (LeafState × Outcome) :=
  if checkLeaf st ≠ .ok then some (st, .of (checkLeaf st))
  else match startArgsValid outNull name kind with
    | none => some (st, .of .errArg)
    | some kind =>
        match parent with
        | none => startSpan w st env name kind ⟨none, none⟩
        | some handle =>
            match resolve st handle with
            | none => some (st, .of .errState)
            | some slot =>
                let r := getSlot st slot
                startSpan w st env name kind ⟨some r.traceId, some r.spanId⟩

def spanStartRemote (st : LeafState) (env : Callbacks) (outNull : Bool) (name : Slice UInt8)
    (kind : Option SpanKind) (traceId : Option TraceId) (parentSpanId : Option SpanId) :
    Option (LeafState × Outcome) :=
  if checkLeaf st ≠ .ok then some (st, .of (checkLeaf st))
  else match startArgsValid outNull name kind, traceId, parentSpanId with
    | some kind, some traceId, some parentId =>
        if allZero traceId.toList || allZero parentId.toList then some (st, .of .errArg)
        else startSpan w st env name kind ⟨some traceId, some parentId⟩
    | _, _, _ => some (st, .of .errArg)

/-- Common prologue of the span mutators: the argument check, a live leaf and
an open span. -/
def openSpan (st : LeafState) (argsOk : Bool) (span : Handle) : Except Status UInt16 :=
  if checkLeaf st ≠ .ok then .error (checkLeaf st)
  else if !argsOk then .error .errArg
  else match resolveOpen st span with
    | some slot => .ok slot
    | none => .error .errState

/-- Replaces the value of attribute chunk `old`, in place if it fits. -/
def overwriteAttr (st : LeafState) (slot : UInt16) (old : UInt32) (attr : Kv) :
    LeafState × Status :=
  let hdr := getChunk st old
  if kvSize attr ≤ hdr.size.toNat - sizeofChunkHdr then
    let (st, n) := packKv w st (chunkPayload old) attr
    (putChunk st old { hdr with used := n }, .ok)
  else
    let (st, repl) := allocChunk w st slot .attr (kvSize attr)
    if repl = none32 then (countDroppedAttribute st, .errNoSpace)
    else
      let (st, _) := packKv w st (chunkPayload repl) attr
      -- The allocation may have compacted: look the old chunk up again.
      let (old, prev) := findChunk w st slot .attr (some attr.key.data)
      (spliceChunk st slot prev old repl, .ok)

def addAttr (st : LeafState) (slot : UInt16) (attr : Kv) : LeafState × Status :=
  if st.maxAttrs ≤ (getSlot st slot).attrCount then (countDroppedAttribute st, .errLimit)
  else
    let (st, off) := allocChunk w st slot .attr (kvSize attr)
    if off = none32 then (countDroppedAttribute st, .errNoSpace)
    else
      let (st, _) := packKv w st (chunkPayload off) attr
      let st := linkChunk st slot off
      let r := getSlot st slot
      (putSlot st slot { r with attrCount := r.attrCount + 1 }, .ok)

def setAttribute (st : LeafState) (span : Handle) (attr : Option Kv) : LeafState × Status :=
  match attr with
  | none => (st, if checkLeaf st ≠ .ok then checkLeaf st else .errArg)
  | some attr =>
      match openSpan st (kvValid attr) span with
      | .error status => (st, status)
      | .ok slot =>
          let (existing, _) := findChunk w st slot .attr (some attr.key.data)
          if existing ≠ none32 then overwriteAttr w st slot existing attr
          else addAttr w st slot attr

/-- `p += pack_kv(p, kv)`, a 64-bit pointer bumped by a 32-bit size. -/
def packNext (s : LeafState × Nat) (kv : Kv) : LeafState × Nat :=
  let (st, n) := packKv w s.1 s.2 kv
  (st, s.2 + n.toNat)

/-- Writes an event's payload into chunk `off`. -/
def writeEvent (st : LeafState) (env : Callbacks) (off : UInt32) (name : Slice UInt8)
    (kept : List Kv) : LeafState :=
  let p := chunkPayload off
  let hdr : EventHdr :=
    { time := readClock st.toLeafParams env
      nameLen := w.cast name.len
      attrCount := w.cast kept.length }
  let st := st.poke p (EventHdr.layout.enc hdr)
  let p := p + sizeofEventHdr
  let st := if 0 < name.len then st.poke p name.data else st
  (kept.foldl (packNext w) (st, p + name.len)).1

def addEvent (st : LeafState) (env : Callbacks) (span : Handle) (name : Slice UInt8)
    (attrs : Slice Kv) : LeafState × Status :=
  match openSpan st (name.readable && attrs.readable && kvsValid attrs.data) span with
  | .error status => (st, status)
  | .ok slot =>
      if st.maxEvents ≤ (getSlot st slot).eventCount then (countDroppedEvent st, .errLimit)
      else
        let kept := attrs.data.take st.maxEventAttrs.toNat
        let size := sizeofEventHdr + name.len + (kept.map kvSize).sum
        let (st, off) := allocChunk w st slot .event size
        if off = none32 then (countDroppedEvent st, .errNoSpace)
        else
          let st := writeEvent w st env off name kept
          let st := linkChunk st slot off
          let r := getSlot st slot
          let st := putSlot st slot { r with eventCount := r.eventCount + 1 }
          let dropped := UInt32.ofNat (attrs.len - kept.length)
          ({ st with
              counters :=
                { st.counters with
                  droppedAttributes := st.counters.droppedAttributes + dropped } }, .ok)

/-- Replaces (or, with an empty message, removes) the status message chunk. -/
def setStatusMessage (st : LeafState) (slot : UInt16) (message : Slice UInt8) :
    LeafState × Status :=
  let (old, prev) := findChunk w st slot .status none
  let hdr := getChunk st old
  if old ≠ none32 ∧ 0 < message.len ∧ message.len ≤ hdr.size.toNat - sizeofChunkHdr then
    let st := st.poke (chunkPayload old) message.data
    (putChunk st old { hdr with used := w.cast message.len }, .ok)
  else if message.len = 0 then
    (if old ≠ none32 then unlinkChunk st slot prev old else st, .ok)
  else
    let (st, repl) := allocString w st slot .status message
    if repl = none32 then (st, .errNoSpace)
    else
      -- The allocation may have compacted: look the old chunk up again.
      let (old, prev) := findChunk w st slot .status none
      let st := if old ≠ none32 then unlinkChunk st slot prev old else st
      (linkChunk st slot repl, .ok)

def setStatus (st : LeafState) (span : Handle) (code : Option StatusCode)
    (message : Slice UInt8) : LeafState × Status :=
  match openSpan st (code.isSome && message.readable) span with
  | .error status => (st, status)
  | .ok slot =>
      let (st, status) := setStatusMessage w st slot message
      if status = .ok then
        (putSlot st slot
          { getSlot st slot with statusCode := (code.getD .unset).code }, status)
      else (st, status)

end

def spanEnd (st : LeafState) (env : Callbacks) (span : Handle) : LeafState × Status :=
  match openSpan st true span with
  | .error status => (st, status)
  | .ok slot =>
      let st := putSlot st slot
        { getSlot st slot with
          state := .ended, finish := readClock st.toLeafParams env, nextEnded := none16 }
      let st :=
        if st.endedTail = none16 then { st with endedHead := slot }
        else putSlot st st.endedTail { getSlot st st.endedTail with nextEnded := slot }
      ({ st with endedTail := slot, endedCount := st.endedCount + 1 }, .ok)

def clockSync (st : LeafState) (env : Callbacks) (unixNs leafNowNs : UInt64) :
    LeafState × Status :=
  if checkLeaf st ≠ .ok then (st, checkLeaf st)
  else if !st.hasClock ∨ unixNs = 0 ∨ readClock st.toLeafParams env < leafNowNs then
    (st, .errClock)
  else ({ st with syncUnix := unixNs, syncLeaf := leafNowNs, synced := true }, .ok)

end Microtel.Leaf
