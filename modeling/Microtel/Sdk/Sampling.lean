import Microtel.Sdk.SpanLife

/-!
What a sampling decision does to a span: `SdkTracer::StartSpanInternal`
(`src/sdk/sdk_tracer.cpp`) for a span of this process, `EnqueueSpan`
(`src/sdk/leaf_receiver.cpp`) for a leaf's, and the handle that answers `IsSampled`
(`src/sdk/sdk_span.cpp`, `noop_span.cpp`).
-/

namespace Microtel.Sdk

open Concentrator (IngestResult Receiver ScopedSpan Shared TimeCorrection)
open Concentrator.Receiver (SamplingDecision SamplingResult)

/-- `SamplingContext`: what a sampler decides on. -/
structure SamplingContext where
  parent : SpanContext := {}
  spanKind : SpanKind := .internal
  spanName : Bytes := []
  initialAttributes : List KeyValue := []
  links : List SpanLink := []
  traceId : TraceId := default
  deriving DecidableEq, Repr

abbrev Sampler := SamplingContext → SamplingResult

/-! ### sdk_tracer.cpp -/

/-- The handle of a dropped span is the no-op one. -/
inductive SpanHandle (ρ : Type)
  | noop
  | owned (span : SdkSpan ρ)

namespace SpanHandle

variable {ρ : Type}

def isSampled : SpanHandle ρ → Bool
  | .noop => false
  | .owned span => span.isSampled

def getContext : SpanHandle ρ → SpanContext
  | .noop => {}
  | .owned span => span.getContext

/-- The records the processor is handed over these calls and the destruction. -/
def handed (taken : Bool) (calls : List LifeCall) (now : Int) : SpanHandle ρ → List (SpanRecord ρ)
  | .noop => []
  | .owned span => (((SpanLife.mk span []).run taken calls).destroy taken now).handed

end SpanHandle

structure StartOptions extends StartSpanOptions where
  /-- Unset, the current context is the parent. -/
  parent : Option SpanContext := none

/-- The clock, the generated ids and what the calling thread has current. -/
structure StartEnv where
  newTraceId : TraceId
  newSpanId : SpanId
  current : SpanContext
  now : Int

def resolveParent (opts : StartOptions) (env : StartEnv) : SpanContext :=
  opts.parent.getD env.current

def resolveTraceId (parent : SpanContext) (env : StartEnv) : TraceId :=
  if parent.isValid then parent.traceId else env.newTraceId

def samplingContext (name : Bytes) (opts : StartOptions) (env : StartEnv) : SamplingContext where
  parent := resolveParent opts env
  spanKind := opts.kind
  spanName := name
  initialAttributes := opts.attributes
  traceId := resolveTraceId (resolveParent opts env) env

def isSampledFlag (context : SpanContext) : Bool := context.traceFlags &&& 1 ≠ 0

def resolveTraceState (sampling : SamplingResult) (parent : SpanContext) : List (Bytes × Bytes) :=
  match sampling.traceState with
  | some state => state
  | none => if parent.isValid then parent.traceState else []

/-- `StartSpanInternal`, where its allocation succeeds: the handle, and the context it
publishes to be current, of a dropped span as well. -/
def startSpanInternal (ρ : Type) (sampler : Sampler) (name : Bytes) (opts : StartOptions)
    (env : StartEnv) (limits : SpanLimitOptions) (diag : Option Drops) :
    SpanHandle ρ × SpanContext :=
  let parent := resolveParent opts env
  let traceId := resolveTraceId parent env
  let sampling := sampler (samplingContext name opts env)
  let started : SpanContext :=
    { traceId
      spanId := env.newSpanId
      traceFlags := if sampling.decision = .recordAndSample then 1 else 0
      traceState := resolveTraceState sampling parent }
  match startSpan ρ name opts.toStartSpanOptions parent traceId env.newSpanId sampling env.now
      limits diag with
  | none => (.noop, started)
  | some span => (.owned span, started)

/-! ### leaf_receiver.cpp -/

/-- A leaf's span is sampled as a root. -/
def leafSamplingContext (span : SpanRecord Resource) : SamplingContext where
  spanKind := span.kind
  spanName := span.name
  initialAttributes := span.attributes
  links := span.links
  traceId := span.context.traceId

/-- `EnqueueSpan` with this sampler. -/
def sampleLeafSpan (r : Receiver) (sampler : Sampler) (s : Shared) (result : IngestResult)
    (span : ScopedSpan) (c : TimeCorrection) (resource : Option Resource) (queued : Bool) :
    Shared × IngestResult :=
  let sampling := sampler (leafSamplingContext (r.prepared span.1 c))
  r.enqueueSpan s result span c resource sampling queued

/-! ### A started span -/

section Started

variable {ρ : Type}

theorem core_seedAttributes (span : SdkSpan ρ) (attributes : List KeyValue) :
    (seedAttributes span attributes).core = span.core := by
  induction attributes generalizing span with
  | nil => rfl
  | cons kv attributes ih =>
      exact (ih (span.setAttribute kv.key kv.value)).trans
        (span.core_setAttribute kv.key kv.value)

variable (sampler : Sampler) (name : Bytes) (opts : StartOptions) (env : StartEnv)
  (limits : SpanLimitOptions) (diag : Option Drops)

theorem started_drop (hdrop : (sampler (samplingContext name opts env)).decision = .drop) :
    (startSpanInternal ρ sampler name opts env limits diag).1 = .noop := by
  unfold startSpanInternal startSpan
  dsimp only
  rw [if_pos hdrop]

/-- A span that is not dropped records, under the context that is published. -/
theorem started_keep (hkeep : (sampler (samplingContext name opts env)).decision ≠ .drop) :
    ∃ span : SdkSpan ρ, (startSpanInternal ρ sampler name opts env limits diag).1 = .owned span ∧
      span.ended = false ∧
      span.getContext = (startSpanInternal ρ sampler name opts env limits diag).2 := by
  unfold startSpanInternal startSpan
  dsimp only
  rw [if_neg hkeep]
  refine ⟨_, rfl, ?_, ?_⟩
  · exact congrArg (fun core => core.2.1)
      ((core_seedAttributes _ _).trans (core_seedAttributes _ _))
  · exact congrArg Prod.fst ((core_seedAttributes _ _).trans (core_seedAttributes _ _))

theorem started_context : (startSpanInternal ρ sampler name opts env limits diag).2 =
    { traceId := resolveTraceId (resolveParent opts env) env
      spanId := env.newSpanId
      traceFlags :=
        if (sampler (samplingContext name opts env)).decision = .recordAndSample then 1 else 0
      traceState :=
        resolveTraceState (sampler (samplingContext name opts env)) (resolveParent opts env) } := by
  unfold startSpanInternal
  dsimp only
  split
  · rfl
  · rfl

theorem started_flag :
    isSampledFlag (startSpanInternal ρ sampler name opts env limits diag).2 = true ↔
      (sampler (samplingContext name opts env)).decision = .recordAndSample := by
  rw [started_context]
  unfold isSampledFlag
  by_cases hsample : (sampler (samplingContext name opts env)).decision = .recordAndSample
  · simp [hsample]
  · simp [hsample]

end Started

/-! ### The decision and what shows it -/

/-- What of a started span's handle shows its decision. -/
structure ShowsDecision {ρ : Type} (decision : SamplingDecision) (handle : SpanHandle ρ) :
    Prop where
  exported : ∀ taken calls now, handle.handed taken calls now ≠ [] ↔ decision = .recordAndSample
  answered : handle.isSampled = true ↔ decision = .recordAndSample
  flagged : isSampledFlag handle.getContext = true ↔ decision = .recordAndSample

/-- What its children are started under: the parent's trace, and the parent's trace
state if the sampler sets none. -/
structure Inherits (parent : SpanContext) (sampling : SamplingResult) (started : SpanContext) :
    Prop where
  traceId : parent.isValid = true → started.traceId = parent.traceId
  traceState : parent.isValid = true →
    started.traceState = sampling.traceState.getD parent.traceState
  flag : isSampledFlag started = true ↔ sampling.decision = .recordAndSample

/-- A leaf's span goes to the processor if it is to be exported, and not otherwise. -/
def LeafDecides (sampler : Sampler) : Prop :=
  ∀ (r : Receiver) (s : Shared) (result : IngestResult) (span : ScopedSpan) (c : TimeCorrection)
    (resource : Option Resource) (queued : Bool),
    let decision := (sampler (leafSamplingContext (r.prepared span.1 c))).decision
    let handed := (sampleLeafSpan r sampler s result span c resource queued).1.handed
    (decision = .recordAndSample → ∃ kept, handed = s.handed ++ [kept]) ∧
      (decision ≠ .recordAndSample → handed = s.handed)

theorem leafDecides (sampler : Sampler) : LeafDecides sampler := by
  intro r s result span c resource queued decision handed
  constructor
  · intro hsample
    have hnot : ¬(sampler (leafSamplingContext (r.prepared span.1 c))).decision ≠
        .recordAndSample := fun h => h hsample
    refine ⟨(r.kept (r.prepared span.1 c) (sampler (leafSamplingContext (r.prepared span.1 c)))
      resource, span.2), ?_⟩
    simp only [handed, sampleLeafSpan, Receiver.enqueueSpan, if_neg hnot]
    split
    · rfl
    · rfl
  · intro hsample
    simp only [handed, sampleLeafSpan, Receiver.enqueueSpan]
    rw [if_pos (show (sampler (leafSamplingContext (r.prepared span.1 c))).decision ≠
      .recordAndSample from hsample)]

section Decides

variable {ρ : Type} (sampler : Sampler) (name : Bytes) (opts : StartOptions) (env : StartEnv)
  (limits : SpanLimitOptions) (diag : Option Drops)

theorem inherits : Inherits (resolveParent opts env) (sampler (samplingContext name opts env))
    (startSpanInternal ρ sampler name opts env limits diag).2 := by
  refine ⟨?_, ?_, started_flag sampler name opts env limits diag⟩
  · intro hvalid
    rw [started_context]
    exact if_pos hvalid
  · intro hvalid
    rw [started_context]
    cases hstate : (sampler (samplingContext name opts env)).traceState with
    | some state => simp [resolveTraceState, hstate]
    | none => simp [resolveTraceState, hstate, hvalid]

theorem showsDecision_iff :
    ShowsDecision (sampler (samplingContext name opts env)).decision
        (startSpanInternal ρ sampler name opts env limits diag).1 ↔
      (sampler (samplingContext name opts env)).decision ≠ .recordOnly := by
  cases hdecision : (sampler (samplingContext name opts env)).decision with
  | drop =>
      rw [started_drop sampler name opts env limits diag hdecision]
      refine ⟨fun _ => by decide, fun _ => ⟨?_, ?_, ?_⟩⟩
      · intro taken calls now
        simp [SpanHandle.handed]
      · simp [SpanHandle.isSampled]
      · simp [SpanHandle.getContext, isSampledFlag]
  | recordOnly =>
      obtain ⟨span, hspan, -, -⟩ := started_keep (ρ := ρ) sampler name opts env limits diag
        (by rw [hdecision]; decide)
      rw [hspan]
      refine ⟨fun h => ?_, fun h => absurd rfl h⟩
      exact absurd (h.answered.mp rfl) (by decide)
  | recordAndSample =>
      obtain ⟨span, hspan, hopen, hcontext⟩ := started_keep (ρ := ρ) sampler name opts env limits
        diag (by rw [hdecision]; decide)
      rw [hspan]
      refine ⟨fun _ => by decide, fun _ => ⟨?_, ?_, ?_⟩⟩
      · intro taken calls now
        obtain ⟨endTime, hhanded⟩ := SpanLife.lived taken hopen calls now
        simp [SpanHandle.handed, hhanded]
      · simp [SpanHandle.isSampled, SdkSpan.isSampled]
      · have hflag := started_flag (ρ := ρ) sampler name opts env limits diag
        rw [hdecision] at hflag
        rw [SpanHandle.getContext, hcontext]
        exact hflag

/-- The handle, the context, the processor and the leaf path agree on every decision
but one: a span to be recorded only is exported, and says so. -/
theorem samplingDecides_iff :
    (ShowsDecision (sampler (samplingContext name opts env)).decision
        (startSpanInternal ρ sampler name opts env limits diag).1 ∧
      Inherits (resolveParent opts env) (sampler (samplingContext name opts env))
        (startSpanInternal ρ sampler name opts env limits diag).2 ∧
      LeafDecides sampler) ↔
    (sampler (samplingContext name opts env)).decision ≠ .recordOnly := by
  rw [showsDecision_iff]
  constructor
  · exact fun h => h.1
  · intro h
    exact ⟨h, inherits sampler name opts env limits diag, leafDecides sampler⟩

end Decides

/-- A sampler that keeps every span local. -/
def recordOnlySampler : Sampler := fun _ => { decision := .recordOnly }

/-- Its span goes to the processor all the same. -/
theorem recordOnly_exported :
    ¬∀ (sampler : Sampler) (name : Bytes) (opts : StartOptions) (env : StartEnv),
      ShowsDecision (sampler (samplingContext name opts env)).decision
        (startSpanInternal Unit sampler name opts env {} none).1 := by
  intro h
  have hshows := h recordOnlySampler [0x73] {} ⟨default, default, {}, 7⟩
  exact absurd ((hshows.exported true [.endSpan 0 8] 9).mp (by decide)) (by decide)

end Microtel.Sdk
