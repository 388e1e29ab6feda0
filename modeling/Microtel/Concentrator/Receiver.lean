import Microtel.Api.Decoded
import Microtel.Concentrator.Options
import Microtel.Concentrator.Table
import Microtel.Lib.Machine

/-!
`SdkLeafReceiver::Ingest` (`src/sdk/leaf_receiver.cpp`) as called from any
number of threads. A call is a job that stops before each of its accesses to
shared state: every call on the leaf table or the unknown-leaf cache, every
resolver call and every span handed on is one step, and the steps of different
calls interleave freely. The resolver, the sampler and the processor answer as
they like; the answers come with the action.
-/

namespace Microtel.Concentrator

/-! ### Requests and payloads -/

structure IngestRequest where
  leafId : Bytes
  payload : Bytes
  receivedAt : Option Int := none

inductive IngestStatus
  | accepted | partiallyAccepted | malformed | tooLarge | unknownLeaf | shutDown | outOfMemory
  deriving DecidableEq, Repr

structure IngestResult where
  status : IngestStatus
  spansAccepted : UInt32 := 0
  spansSampledOut : UInt32 := 0
  spansDropped : UInt32 := 0
  deriving DecidableEq, Repr

/-- A span and the scope it is handed on under. -/
abbrev ScopedSpan := SpanRecord Resource × InstrumentationScope

/-- What the receiver borrows from its provider, besides its options. The span
limits are applied by functions of the record alone. -/
structure ReceiverDeps where
  decode : Bytes → DecodeLimits → Except DecodeFailure (List (DecodedResourceSpans Resource))
  applySpanLimits : SpanRecord Resource → SpanRecord Resource
  appendAttributes : List KeyValue → List KeyValue → List KeyValue
  /-- Whether the processor says if it queued a span. -/
  batchProcessor : Bool

structure Receiver where
  options : LeafReceiverOptions
  deps : ReceiverDeps

def decodeMaxDepth : UInt16 := 16
def arenaFactor : Nat := 16
def arenaFloor : Nat := 16 * 1024

/-- The string value of a key, if it is there and a string. -/
def stringValue (attrs : List KeyValue) (key : Bytes) : Option Bytes :=
  match KeyedList.find KeyValue.key attrs key with
  | some ⟨_, .string v⟩ => some v
  | _ => none

def declares (attrs : List KeyValue) (key : Bytes) : Bool :=
  (KeyedList.find KeyValue.key attrs key).isSome

def spansValid (rs : DecodedResourceSpans Resource) : Bool :=
  rs.scopes.all fun scope => !scope.spans.any fun s =>
    !s.context.traceId.isValid || !s.context.spanId.isValid || s.endTime < s.startTime

def nonNegative (v : Option Int64) : UInt64 :=
  match v with
  | some v => if 0 < v then v.toUInt64 else 0
  | none => 0

def carriesSpansOrDrops (decoded : List (DecodedResourceSpans Resource)) : Bool :=
  decoded.any fun rs =>
    let info := readWireInfo rs.resource
    0 < nonNegative info.droppedSpans + nonNegative info.droppedItems ||
      rs.scopes.any fun scope => !scope.spans.isEmpty

def nsPerSecond : Int := 1000000000

/-- Seconds in nanoseconds, saturated. -/
def saturatingNs (seconds : Int) : Int :=
  max (-(int64Max / nsPerSecond)) (min seconds (int64Max / nsPerSecond)) * nsPerSecond

/-- One payload on its way through `Ingest`. -/
structure Payload where
  transportId : Bytes
  decoded : List (DecodedResourceSpans Resource)
  modes : List LeafTimeMode
  leafId : Bytes
  received : Int
  now : TimePoint

/-! ### Shared state and jobs -/

structure ReceiverCounters where
  payloadsAccepted : UInt64 := 0
  payloadsRejected : UInt64 := 0
  leafReportedDrops : UInt64 := 0
  payloadsOutOfMemory : UInt64 := 0
  resourceAttributesDropped : UInt64 := 0
  leafIdConflicts : UInt64 := 0
  timeFallbacks : UInt64 := 0
  payloadsPostShutdown : UInt64 := 0
  deriving DecidableEq, Repr

/-- The drop reasons the receiver itself records. -/
inductive ReceiverDrop
  | leafPayloadMalformed | leafPayloadTooLarge | leafUnknown | spanAttributeLimit
  deriving DecidableEq, Repr

/-- What the threads share. -/
structure Shared where
  table : LeafTable LeafSettings Resource
  unknown : UnknownLeafCache
  counters : ReceiverCounters := {}
  drops : ReceiverDrop → UInt64 := fun _ => 0
  shutDown : Bool := false
  /-- The spans offered to the sampler and those handed to the processor, in
  order; no step reads them. -/
  offered : List ScopedSpan := []
  handed : List ScopedSpan := []

/-- The state of the loop in `Enqueue`: the settings `Identify` returned, the
ResourceSpans still to come, and the result so far. -/
structure Progress where
  settings : LeafSettings
  rest : List (DecodedResourceSpans Resource × LeafTimeMode)
  fellBack : Bool := false
  result : IngestResult := { status := .accepted }

/-- Where a call is: before the access its constructor names. -/
inductive Job
  | admitting (req : IngestRequest) (received : Int) (now : TimePoint)
  | lookingUp (p : Payload)
  | checkingUnknown (p : Payload)
  | asking (p : Payload)
  | refusing (p : Payload)
  | adopting (p : Payload) (fresh : LeafSettings)
  | enqueueing (p : Payload) (g : Progress)
  | finding (p : Payload) (g : Progress) (rs : DecodedResourceSpans Resource) (c : TimeCorrection)
  | inserting (p : Payload) (g : Progress) (rs : DecodedResourceSpans Resource) (c : TimeCorrection)
      (resolved : ResolvedLeafResource)
  | emitting (p : Payload) (g : Progress) (rs : DecodedResourceSpans Resource) (c : TimeCorrection)
      (resource : Option Resource) (spans : List ScopedSpan)
  | finished (result : IngestResult)

namespace Shared

def recordDrop (s : Shared) (reason : ReceiverDrop) (n : UInt64) : Shared :=
  { s with drops := Function.update s.drops reason (s.drops reason + n) }

/-- `Reject`: counts the payload once, against its reason. -/
def reject (s : Shared) (status : IngestStatus) (reason : ReceiverDrop) : Shared × Job :=
  let s := s.recordDrop reason 1
  ({ s with counters := { s.counters with payloadsRejected := s.counters.payloadsRejected + 1 } },
    .finished { status })

def addResourceAttributesDropped (s : Shared) (n : UInt64) : Shared :=
  { s with counters := { s.counters with
      resourceAttributesDropped := s.counters.resourceAttributesDropped + n } }

end Shared

namespace Receiver

variable (r : Receiver)

def rejects : Bool := r.options.unknownLeaf = .reject

/-! ### Admission -/

def decodeLimits : DecodeLimits where
  maxSpans := r.options.maxSpansPerPayload
  maxDepth := decodeMaxDepth
  maxArenaBytes := arenaFactor * r.options.maxPayloadBytes.toNat + arenaFloor

/-- Whether the transport id alone refuses the payload. -/
def refusedBeforeDecode (s : Shared) (req : IngestRequest) (now : TimePoint) : Shared × Bool :=
  if req.leafId.isEmpty || !r.rejects || (staticLeaf r.options req.leafId).isSome then (s, false)
  else if !r.options.resolver then (s, true)
  else
    let (unknown, cached) := s.unknown.contains req.leafId now
    ({ s with unknown }, cached)

/-- The modes of the ResourceSpans before the first invalid one. -/
def admittedModes : List (DecodedResourceSpans Resource) → List LeafTimeMode
  | [] => []
  | rs :: rest =>
      match checkWireInfo (readWireInfo rs.resource) with
      | none => []
      | some mode => if !spansValid rs then [] else mode :: admittedModes rest

/-- The leaf id: the transport's, else the first the payload declares. -/
def settleLeafId (req : IngestRequest) (decoded : List (DecodedResourceSpans Resource)) : Bytes :=
  if !req.leafId.isEmpty then req.leafId
  else if r.options.leafIdAttribute.isEmpty then []
  else (decoded.findSome? fun rs => stringValue rs.resource r.options.leafIdAttribute).getD []

/-- `Identify` up to its settings lookup. -/
def identify (s : Shared) (req : IngestRequest) (received : Int) (now : TimePoint)
    (decoded : List (DecodedResourceSpans Resource)) (modes : List LeafTimeMode) : Shared × Job :=
  let leafId := r.settleLeafId req decoded
  if leafId.isEmpty || maxLeafIdBytes < leafId.length then s.reject .malformed .leafPayloadMalformed
  else (s, .lookingUp { transportId := req.leafId, decoded, modes, leafId, received, now })

def admitRequest (s : Shared) (req : IngestRequest) (received : Int) (now : TimePoint) :
    Shared × Job :=
  if r.options.maxPayloadBytes.toNat < req.payload.length then
    s.reject .tooLarge .leafPayloadTooLarge
  else if maxLeafIdBytes < req.leafId.length then s.reject .malformed .leafPayloadMalformed
  else
    let (s, refused) := r.refusedBeforeDecode s req now
    if refused then s.reject .unknownLeaf .leafUnknown
    else
      match r.deps.decode req.payload r.decodeLimits with
      | .error .tooLarge => s.reject .tooLarge .leafPayloadTooLarge
      | .error .malformed => s.reject .malformed .leafPayloadMalformed
      | .ok decoded =>
          let modes := admittedModes decoded
          if decoded.isEmpty || modes.length ≠ decoded.length || !carriesSpansOrDrops decoded then
            s.reject .malformed .leafPayloadMalformed
          else r.identify s req received now decoded modes

/-! ### Settings -/

def modesAllowed (p : Payload) (settings : LeafSettings) : Bool :=
  p.modes.all fun mode => timeModeAllowed mode (effectiveMode r.options settings)

/-- Whether the payload claims an id other than the transport's. -/
def idConflict (p : Payload) : Bool :=
  !p.transportId.isEmpty && !r.options.leafIdAttribute.isEmpty &&
    p.decoded.any fun rs => declares rs.resource r.options.leafIdAttribute &&
      stringValue rs.resource r.options.leafIdAttribute ≠ some p.leafId

/-- `Identify` from the settings on. -/
def identified (s : Shared) (p : Payload) (settings : LeafSettings) : Shared × Job :=
  if !r.modesAllowed p settings then s.reject .malformed .leafPayloadMalformed
  else
    let n : UInt64 := if r.idConflict p then 1 else 0
    ({ s with counters := { s.counters with leafIdConflicts := s.counters.leafIdConflicts + n } },
      .enqueueing p { settings, rest := p.decoded.zip p.modes })

/-- The first lookup of `SettingsFor`. -/
def lookUp (s : Shared) (p : Payload) : Shared × Job :=
  let (table, cached) := s.table.settings p.leafId p.now
  let s := { s with table }
  match cached with
  | some settings => r.identified s p settings
  | none => (s, if r.rejects then .checkingUnknown p else .asking p)

def checkUnknown (s : Shared) (p : Payload) : Shared × Job :=
  let (unknown, cached) := s.unknown.contains p.leafId p.now
  let s := { s with unknown }
  if cached then s.reject .unknownLeaf .leafUnknown else (s, .asking p)

/-- `SettingsFor` with the resolver's answer. -/
def answered (s : Shared) (p : Payload) (answer : Option LeafConfig) : Shared × Job :=
  let (fresh, dropped) := resolveSettings r.options p.leafId answer
  let s := s.addResourceAttributesDropped dropped
  (s, if r.rejects && !fresh.configured then .refusing p else .adopting p fresh)

/-- A leaf that is refused gets no entry in the leaf table. -/
def refuse (s : Shared) (p : Payload) : Shared × Job :=
  { s with unknown := s.unknown.insert p.leafId p.now }.reject .unknownLeaf .leafUnknown

def adopt (s : Shared) (p : Payload) (fresh : LeafSettings) : Shared × Job :=
  let (table, kept) := s.table.adoptSettings p.leafId (some fresh) p.now
  let s := { s with table }
  match kept with
  | some settings => r.identified s p settings
  | none => s.reject .unknownLeaf .leafUnknown

/-! ### Enqueueing -/

def bootSample (p : Payload) (info : LeafWireInfo) : BootSample where
  bootId := (info.bootId.map Int64.toInt).getD 0
  offset := saturatingSub p.received ((info.encodeTime.map Int64.toInt).getD 0)
  takenAt := p.received

/-- `CorrectionFor`; the last component says that a sync was not trusted. -/
def correctionFor (table : LeafTable LeafSettings Resource) (p : Payload) (mode : LeafTimeMode)
    (info : LeafWireInfo) : LeafTable LeafSettings Resource × TimeCorrection × Bool :=
  let encodeTime := info.encodeTime.map Int64.toInt
  match mode with
  | .unix => (table, ⟨0, none⟩, false)
  | .syncRelative =>
      let limits : SyncLimits :=
        ⟨saturatingNs r.options.maxSyncAge, saturatingNs r.options.maxClockSkew⟩
      match syncRelative p.received (encodeTime.getD 0)
        ((info.syncAge.map Int64.toInt).getD 0) limits with
      | some trusted => (table, trusted, false)
      | none => (table, concentratorStamped p.received encodeTime, true)
  | .bootRelative =>
      let (table, offset) := table.updateBootAnchor p.leafId (bootSample p info)
        (saturatingNs r.options.bootAnchorWindow) p.now
      (table, ⟨offset, none⟩, false)
  | .concentratorStamped => (table, concentratorStamped p.received encodeTime, false)

/-- The end of `Enqueue` and of `IngestOrThrow`. -/
def finish (s : Shared) (g : Progress) : Shared × Job :=
  let n : UInt64 := if g.fellBack then 1 else 0
  let counters := { s.counters with
    timeFallbacks := s.counters.timeFallbacks + n
    payloadsAccepted := s.counters.payloadsAccepted + 1 }
  let status := if 0 < g.result.spansDropped then .partiallyAccepted else .accepted
  ({ s with counters }, .finished { g.result with status })

/-- The head of the loop in `Enqueue`. -/
def enqueue (s : Shared) (p : Payload) (g : Progress) : Shared × Job :=
  match g.rest with
  | [] => finish s g
  | (rs, mode) :: rest =>
      let info := readWireInfo rs.resource
      let counters := { s.counters with
        leafReportedDrops := s.counters.leafReportedDrops +
          (nonNegative info.droppedSpans + nonNegative info.droppedItems)
        resourceAttributesDropped :=
          s.counters.resourceAttributesDropped + rs.droppedResourceAttributes }
      let s := { s with counters }.recordDrop .spanAttributeLimit rs.droppedSpanAttributes
      let (table, correction, fellBack) := r.correctionFor s.table p mode info
      ({ s with table },
        .finding p { g with rest, fellBack := g.fellBack || fellBack } rs correction)

def scopedSpans (rs : DecodedResourceSpans Resource) : List ScopedSpan :=
  rs.scopes.flatMap fun scope => scope.spans.map fun span => (span, scope.scope)

/-- The lookup of `ResourceFor`. -/
def find (s : Shared) (p : Payload) (g : Progress) (rs : DecodedResourceSpans Resource)
    (c : TimeCorrection) : Shared × Job :=
  let (table, cached) := s.table.find p.leafId (hashDeclaredResource rs.resource) p.now
  let s := { s with table }
  match cached with
  | some resource => (s, .emitting p g rs c (some resource) (scopedSpans rs))
  | none =>
      let resolved := resolveResource r.options g.settings p.leafId rs.resource
      (s.addResourceAttributesDropped resolved.attributesDropped, .inserting p g rs c resolved)

def insert (s : Shared) (p : Payload) (g : Progress) (rs : DecodedResourceSpans Resource)
    (c : TimeCorrection) (resolved : ResolvedLeafResource) : Shared × Job :=
  let (table, kept) :=
    s.table.insert p.leafId (hashDeclaredResource rs.resource) (some resolved.resource) p.now
  ({ s with table }, .emitting p g rs c kept (scopedSpans rs))

/-! ### Spans -/

inductive SamplingDecision
  | drop | recordOnly | recordAndSample
  deriving DecidableEq, Repr

structure SamplingResult where
  decision : SamplingDecision
  additionalAttributes : List KeyValue := []
  traceState : Option (List (Bytes × Bytes)) := none

def applyTimeCorrection (span : SpanRecord Resource) (c : TimeCorrection) : SpanRecord Resource :=
  { span with
    startTime := corrected span.startTime c
    endTime := corrected span.endTime c
    events := span.events.map fun e => { e with timestamp := corrected e.timestamp c } }

/-- What `EnqueueSpan` offers to the sampler. -/
def prepared (span : SpanRecord Resource) (c : TimeCorrection) : SpanRecord Resource :=
  r.deps.applySpanLimits (applyTimeCorrection span c)

/-- What a kept span is handed on as. -/
def kept (span : SpanRecord Resource) (sampling : SamplingResult) (resource : Option Resource) :
    SpanRecord Resource :=
  { span with
    attributes := r.deps.appendAttributes span.attributes sampling.additionalAttributes
    context := { span.context with
      traceState := sampling.traceState.getD span.context.traceState
      traceFlags := 1 }
    resource }

/-- `EnqueueSpan` with the sampler's answer and, if it is asked, the processor's. -/
def enqueueSpan (s : Shared) (result : IngestResult) (span : ScopedSpan) (c : TimeCorrection)
    (resource : Option Resource) (sampling : SamplingResult) (queued : Bool) :
    Shared × IngestResult :=
  let prepared := r.prepared span.1 c
  let s := { s with offered := s.offered ++ [(prepared, span.2)] }
  if sampling.decision ≠ .recordAndSample then
    (s, { result with spansSampledOut := result.spansSampledOut + 1 })
  else
    let s := { s with handed := s.handed ++ [(r.kept prepared sampling resource, span.2)] }
    if !r.deps.batchProcessor || queued then
      (s, { result with spansAccepted := result.spansAccepted + 1 })
    else (s, { result with spansDropped := result.spansDropped + 1 })

/-! ### Steps -/

/-- The step of a call that needs no answer from outside. -/
def advance (s : Shared) : Job → Option (Shared × Job)
  | .admitting req received now => some (r.admitRequest s req received now)
  | .lookingUp p => some (r.lookUp s p)
  | .checkingUnknown p => some (checkUnknown s p)
  | .asking _ => none
  | .refusing p => some (refuse s p)
  | .adopting p fresh => some (r.adopt s p fresh)
  | .enqueueing p g => some (r.enqueue s p g)
  | .finding p g rs c => some (r.find s p g rs c)
  | .inserting p g rs c resolved => some (insert s p g rs c resolved)
  | .emitting p g _ _ _ [] => some (s, .enqueueing p g)
  | .emitting _ _ _ _ _ (_ :: _) => none
  | .finished _ => none

/-- The resolver answers; without one `AskResolver` says "not configured", as
it does when the resolver throws. -/
def answer (s : Shared) (a : Option LeafConfig) : Job → Option (Shared × Job)
  | .asking p => if !r.options.resolver && a.isSome then none else some (r.answered s p a)
  | _ => none

/-- The next span is sampled, and queued if the sampler kept it. -/
def sample (s : Shared) (sampling : SamplingResult) (queued : Bool) : Job → Option (Shared × Job)
  | .emitting p g rs c resource (span :: spans) =>
      let (s, result) := r.enqueueSpan s g.result span c resource sampling queued
      some (s, .emitting p { g with result } rs c resource spans)
  | _ => none

/-- The counts a call has reached. -/
def resultSoFar : Job → IngestResult
  | .enqueueing _ g | .finding _ g _ _ | .inserting _ g _ _ _ | .emitting _ g _ _ _ _ => g.result
  | .finished result => result
  | _ => { status := .accepted }

/-- An allocation fails, and `Ingest` reports it. -/
def outOfMemory (s : Shared) : Job → Option (Shared × Job)
  | .finished _ => none
  | job =>
      let counters := { s.counters with payloadsOutOfMemory := s.counters.payloadsOutOfMemory + 1 }
      some ({ s with counters }, .finished { resultSoFar job with status := .outOfMemory })

/-- The receiver with every call made on it so far. -/
structure State where
  shared : Shared
  jobs : Nat → Option Job := fun _ => none

inductive Action
  /-- A new call, with the readings of the two clocks at its start. -/
  | ingest (call : Nat) (req : IngestRequest) (clock : Int) (now : TimePoint)
  | advance (call : Nat)
  | answer (call : Nat) (a : Option LeafConfig)
  | sample (call : Nat) (sampling : SamplingResult) (queued : Bool)
  | outOfMemory (call : Nat)
  | markShutDown

def Action.call : Action → Option Nat
  | .ingest call _ _ _ | .advance call | .answer call _ | .sample call _ _ | .outOfMemory call =>
      some call
  | .markShutDown => none

def State.put (σ : State) (call : Nat) (next : Shared × Job) : State where
  shared := next.1
  jobs := Function.update σ.jobs call (some next.2)

def init : State where
  shared :=
    { table := LeafTable.new r.options.maxLeaves (saturatingNs r.options.leafIdleTimeout)
      unknown := UnknownLeafCache.new 256 (60 * nsPerSecond) }

/-- The beginning of `Ingest`. -/
def begin (s : Shared) (req : IngestRequest) (clock : Int) (now : TimePoint) : Shared × Job :=
  if s.shutDown then
    let counters := { s.counters with payloadsPostShutdown := s.counters.payloadsPostShutdown + 1 }
    ({ s with counters }, .finished { status := .shutDown })
  else (s, .admitting req (req.receivedAt.getD clock) now)

def step (σ : State) : Action → Option State
  | .ingest call req clock now =>
      if (σ.jobs call).isSome then none else some (σ.put call (begin σ.shared req clock now))
  | .advance call => ((σ.jobs call).bind (r.advance σ.shared)).map (σ.put call)
  | .answer call a => ((σ.jobs call).bind (r.answer σ.shared a)).map (σ.put call)
  | .sample call sampling queued =>
      ((σ.jobs call).bind (r.sample σ.shared sampling queued)).map (σ.put call)
  | .outOfMemory call => ((σ.jobs call).bind (outOfMemory σ.shared)).map (σ.put call)
  | .markShutDown => some { σ with shared := { σ.shared with shutDown := true } }

end Receiver

end Microtel.Concentrator
