import Microtel.Concentrator.Receiver

/-!
The two places that hold a span to its limits: call by call in `SdkSpan`
(`src/sdk/sdk_span.cpp`, started by `src/sdk/sdk_tracer.cpp`), and at once for a
decoded leaf span (`src/sdk/span_limits.cpp`).
-/

namespace Microtel.Sdk

open Concentrator.Receiver (SamplingResult)

structure SpanLimitOptions where
  attributeCountLimit : Nat := 128
  eventCountLimit : Nat := 128
  linkCountLimit : Nat := 128
  attributeValueLengthLimit : Nat := 4096
  eventAttributeCountLimit : Nat := 128
  linkAttributeCountLimit : Nat := 128
  deriving DecidableEq, Repr

/-- The reasons of `DropReason` that span limits are counted under. -/
inductive LimitReason
  | spanAttributeLimit
  | spanEventLimit
  | spanLinkLimit
  | eventAttributeLimit
  | linkAttributeLimit
  | attributeValueTruncated
  deriving DecidableEq, Repr

/-- The counters of a diagnostics sink. -/
abbrev Drops := LimitReason → Nat

/-- `RecordDrop` through a pointer that may be null. -/
def recordDrop (diag : Option Drops) (reason : LimitReason) (n : Nat) : Option Drops :=
  diag.map fun drops => Function.update drops reason (drops reason + n)

/-! ### span_limits.cpp -/

/-- From `cut` down to the nearest byte that does not continue a code point. -/
def utf8SafePrefix (s : Bytes) : Nat → Nat
  | 0 => 0
  | cut + 1 =>
      if s.getD (cut + 1) 0 &&& 0xC0 = 0x80 then utf8SafePrefix s cut else cut + 1

def count (diag : Option Drops) (reason : LimitReason) (n : Nat) : Option Drops :=
  if 0 < n then recordDrop diag reason n else diag

def keepFirst {α : Type} (items : List α) (limit : Nat) : List α × Nat :=
  if items.length ≤ limit then (items, 0) else (items.take limit, items.length - limit)

/-- The loop over a string array. -/
def truncateElements (limit : Nat) : List Bytes → List Bytes × Nat
  | [] => ([], 0)
  | element :: elements =>
      let (rest, truncated) := truncateElements limit elements
      if limit < element.length then
        (element.take (utf8SafePrefix element limit) :: rest, truncated + 1)
      else (element :: rest, truncated)

def truncateStrings (value : AttributeValue) (limit : Nat) : AttributeValue × Nat :=
  match value with
  | .string s =>
      if s.length ≤ limit then (.string s, 0) else (.string (s.take (utf8SafePrefix s limit)), 1)
  | .strings elements =>
      let (elements, truncated) := truncateElements limit elements
      (.strings elements, truncated)
  | value => (value, 0)

def truncateAll (attributes : List KeyValue) (limit : Nat) : List KeyValue × Nat :=
  attributes.foldl
    (fun (done, truncated) kv =>
      let (value, n) := truncateStrings kv.value limit
      (done ++ [{ kv with value }], truncated + n))
    ([], 0)

/-- The loops over events and over links, from the truncations counted so far. The
result is the items, the attributes they lost and the truncations. -/
def limitEach {τ : Type} (attributes : τ → List KeyValue) (withAttributes : τ → List KeyValue → τ)
    (countLimit valueLimit : Nat) (items : List τ) (truncated : Nat) : List τ × Nat × Nat :=
  items.foldl
    (fun (done, surplus, truncated) item =>
      let (kept, lost) := keepFirst (attributes item) countLimit
      let (clipped, n) := truncateAll kept valueLimit
      (done ++ [withAttributes item clipped], surplus + lost, truncated + n))
    ([], 0, truncated)

def applySpanLimits {ρ : Type} (record : SpanRecord ρ) (limits : SpanLimitOptions)
    (diag : Option Drops) : SpanRecord ρ × Option Drops :=
  let valueLimit := limits.attributeValueLengthLimit
  let (attributes, lost) := keepFirst record.attributes limits.attributeCountLimit
  let diag := count diag .spanAttributeLimit lost
  let (attributes, truncated) := truncateAll attributes valueLimit
  let (events, lost) := keepFirst record.events limits.eventCountLimit
  let diag := count diag .spanEventLimit lost
  let (events, eventAttrs, truncated) :=
    limitEach SpanEvent.attributes (fun event attributes => { event with attributes })
      limits.eventAttributeCountLimit valueLimit events truncated
  let diag := count diag .eventAttributeLimit eventAttrs
  let (links, lost) := keepFirst record.links limits.linkCountLimit
  let diag := count diag .spanLinkLimit lost
  let (links, linkAttrs, truncated) :=
    limitEach SpanLink.attributes (fun link attributes => { link with attributes })
      limits.linkAttributeCountLimit valueLimit links truncated
  let diag := count diag .linkAttributeLimit linkAttrs
  let diag := count diag .attributeValueTruncated truncated
  ({ record with attributes, events, links }, diag)

/-- `AppendOne` where the allocation succeeds. -/
def appendOne (attributes : List KeyValue) (kv : KeyValue) (limit : Nat) : List KeyValue × Nat :=
  let (value, truncated) := truncateStrings kv.value limit
  (attributes ++ [{ kv with value }], truncated)

def appendAttributes (attributes extra : List KeyValue) (limits : SpanLimitOptions)
    (diag : Option Drops) : List KeyValue × Option Drops :=
  let (attributes, overLimit, truncated) :=
    extra.foldl
      (fun (attributes, overLimit, truncated) kv =>
        if limits.attributeCountLimit ≤ attributes.length then
          (attributes, overLimit + 1, truncated)
        else
          let (attributes, n) := appendOne attributes kv limits.attributeValueLengthLimit
          (attributes, overLimit, truncated + n))
      (attributes, 0, 0)
  let diag := count diag .spanAttributeLimit overLimit
  let diag := count diag .attributeValueTruncated truncated
  (attributes, diag)

/-! ### sdk_span.cpp -/

def clipAttribute (kv : KeyValue) (limit : Nat) (diag : Option Drops) : KeyValue × Option Drops :=
  let (value, truncated) := truncateStrings kv.value limit
  ({ kv with value },
    if 0 < truncated then recordDrop diag .attributeValueTruncated truncated else diag)

/-- The loop of `BuildEvent` and of `BuildLink`, which stops at the limit. -/
def clipWhileRoom (countLimit valueLimit : Nat) :
    List KeyValue → List KeyValue → Option Drops → List KeyValue × Option Drops
  | [], kept, diag => (kept, diag)
  | kv :: attributes, kept, diag =>
      if countLimit ≤ kept.length then (kept, diag)
      else
        let (copy, diag) := clipAttribute kv valueLimit diag
        clipWhileRoom countLimit valueLimit attributes (kept ++ [copy]) diag

/-- The attributes of a new event or link. -/
def buildAttributes (countLimit : Nat) (reason : LimitReason) (attributes : List KeyValue)
    (limits : SpanLimitOptions) (diag : Option Drops) : List KeyValue × Option Drops :=
  let (kept, diag) :=
    clipWhileRoom countLimit limits.attributeValueLengthLimit attributes [] diag
  if kept.length < attributes.length then
    (kept, recordDrop diag reason (attributes.length - kept.length))
  else (kept, diag)

/-- `now` is what the clock reads, asked only for the zero time point. -/
def buildEvent (name : Bytes) (attributes : List KeyValue) (timestamp now : Int)
    (limits : SpanLimitOptions) (diag : Option Drops) : SpanEvent × Option Drops :=
  let (kept, diag) :=
    buildAttributes limits.eventAttributeCountLimit .eventAttributeLimit attributes limits diag
  ({ name, timestamp := if timestamp = 0 then now else timestamp, attributes := kept }, diag)

def buildLink (linkedContext : SpanContext) (attributes : List KeyValue)
    (limits : SpanLimitOptions) (diag : Option Drops) : SpanLink × Option Drops :=
  let (kept, diag) :=
    buildAttributes limits.linkAttributeCountLimit .linkAttributeLimit attributes limits diag
  ({ linkedContext, attributes := kept }, diag)

structure SdkSpan (ρ : Type) where
  record : SpanRecord ρ
  limits : SpanLimitOptions
  ended : Bool := false
  diagnostics : Option Drops

namespace SdkSpan

variable {ρ : Type}

def setAttribute (span : SdkSpan ρ) (key : Bytes) (value : AttributeValue) : SdkSpan ρ :=
  if span.ended then span
  else if span.limits.attributeCountLimit ≤ span.record.attributes.length then
    { span with diagnostics := recordDrop span.diagnostics .spanAttributeLimit 1 }
  else
    let (value, truncated) := truncateStrings value span.limits.attributeValueLengthLimit
    { span with
      record := { span.record with attributes := span.record.attributes ++ [{ key, value }] }
      diagnostics :=
        if 0 < truncated then recordDrop span.diagnostics .attributeValueTruncated truncated
        else span.diagnostics }

def addEvent (span : SdkSpan ρ) (name : Bytes) (attributes : List KeyValue)
    (timestamp now : Int) : SdkSpan ρ :=
  if span.ended then span
  else if span.limits.eventCountLimit ≤ span.record.events.length then
    { span with diagnostics := recordDrop span.diagnostics .spanEventLimit 1 }
  else
    let (event, diag) := buildEvent name attributes timestamp now span.limits span.diagnostics
    { span with
      record := { span.record with events := span.record.events ++ [event] }
      diagnostics := diag }

def addLink (span : SdkSpan ρ) (linkedContext : SpanContext) (attributes : List KeyValue) :
    SdkSpan ρ :=
  if span.ended then span
  else if span.limits.linkCountLimit ≤ span.record.links.length then
    { span with diagnostics := recordDrop span.diagnostics .spanLinkLimit 1 }
  else
    let (link, diag) := buildLink linkedContext attributes span.limits span.diagnostics
    { span with
      record := { span.record with links := span.record.links ++ [link] }
      diagnostics := diag }

/-- `End`, with the record that goes to the processor, if it does. -/
def endSpan (span : SdkSpan ρ) (endTime now : Int) : SdkSpan ρ × Option (SpanRecord ρ) :=
  if span.ended then (span, none)
  else
    ({ span with ended := true },
      some { span.record with endTime := if endTime = 0 then now else endTime })

end SdkSpan

/-! ### sdk_tracer.cpp -/

def seedAttributes {ρ : Type} (span : SdkSpan ρ) (attributes : List KeyValue) : SdkSpan ρ :=
  attributes.foldl (fun span kv => span.setAttribute kv.key kv.value) span

structure StartSpanOptions where
  attributes : List KeyValue := []
  kind : SpanKind := .internal
  startTime : Int := 0

/-- `StartSpanInternal` from the resolved parent and the generated ids on; `none` is
the no-op handle of a dropped span. -/
def startSpan (ρ : Type) (name : Bytes) (opts : StartSpanOptions) (parent : SpanContext)
    (traceId : TraceId) (spanId : SpanId) (sampling : SamplingResult) (now : Int)
    (limits : SpanLimitOptions) (diag : Option Drops) : Option (SdkSpan ρ) :=
  let context : SpanContext :=
    { traceId, spanId
      traceFlags := if sampling.decision = .recordAndSample then 1 else 0
      traceState :=
        match sampling.traceState with
        | some state => state
        | none => if parent.isValid then parent.traceState else [] }
  if sampling.decision = .drop then none
  else
    let span : SdkSpan ρ :=
      { record :=
          { context, parentContext := parent, name, kind := opts.kind
            startTime := if opts.startTime = 0 then now else opts.startTime }
        limits, diagnostics := diag }
    some (seedAttributes (seedAttributes span opts.attributes) sampling.additionalAttributes)

end Microtel.Sdk
