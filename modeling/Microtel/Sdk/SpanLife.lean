import Microtel.Sdk.SpanLimits

/-!
The life of one `SdkSpan` (`src/sdk/sdk_span.cpp`): the calls of its interface in any
order, then its destruction, which ends it unless a call did. `End` offers the record
to the processor as an rvalue, and a processor that queues it moves out of the object
that later calls still read.
-/

namespace Microtel.Sdk

/-! ### The object -/

namespace SdkSpan

variable {ρ : Type}

/-- The constructor, where its allocation succeeds. -/
def new (context parentContext : SpanContext) (name : Bytes) (kind : SpanKind)
    (startTime now : Int) (limits : SpanLimitOptions) (diag : Option Drops) : SdkSpan ρ where
  record :=
    { context, parentContext, name, kind
      startTime := if startTime = 0 then now else startTime }
  limits
  diagnostics := diag

def getContext (span : SdkSpan ρ) : SpanContext := span.record.context

def isSampled (_ : SdkSpan ρ) : Bool := true

def setStatus (span : SdkSpan ρ) (code : StatusCode) (description : Bytes) : SdkSpan ρ :=
  if span.ended then span
  else if code = .ok then
    { span with record := { span.record with statusCode := .ok, statusDescription := [] } }
  else if code = .error ∧ span.record.statusCode ≠ .ok then
    { span with
      record := { span.record with statusCode := .error, statusDescription := description } }
  else span

def updateName (span : SdkSpan ρ) (name : Bytes) : SdkSpan ρ :=
  if span.ended then span else { span with record := { span.record with name } }

end SdkSpan

/-- What a move leaves behind: the shared pointers are null, a trace state among them,
and the vectors empty. The strings, which nothing reads again, are taken to be empty. -/
def movedFrom {ρ : Type} (record : SpanRecord ρ) : SpanRecord ρ :=
  { record with
    context := { record.context with traceState := [] }
    parentContext := { record.parentContext with traceState := [] }
    name := [], statusDescription := [], attributes := [], events := [], links := []
    resource := none }

/-! ### The calls -/

/-- A call on a span, with what the clock reads where the call may ask it. -/
inductive LifeCall
  | getContext
  | isSampled
  | setAttribute (key : Bytes) (value : AttributeValue)
  | addEvent (name : Bytes) (attributes : List KeyValue) (timestamp now : Int)
  | addLink (linkedContext : SpanContext) (attributes : List KeyValue)
  | setStatus (code : StatusCode) (description : Bytes)
  | updateName (name : Bytes)
  | endSpan (endTime now : Int)

def LifeCall.isEnd : LifeCall → Bool
  | .endSpan _ _ => true
  | _ => false

/-- A span, and the records its processor's `OnEnd` was called with. -/
structure SpanLife (ρ : Type) where
  span : SdkSpan ρ
  handed : List (SpanRecord ρ) := []

namespace SpanLife

variable {ρ : Type}

/-- `End`; `taken` says whether the processor moves out of the record it is offered. -/
def finish (taken : Bool) (life : SpanLife ρ) (endTime now : Int) : SpanLife ρ :=
  match life.span.endSpan endTime now with
  | (span, none) => { life with span }
  | (span, some record) =>
      { span := { span with record := if taken then movedFrom record else record }
        handed := life.handed ++ [record] }

def call (taken : Bool) (life : SpanLife ρ) : LifeCall → SpanLife ρ
  | .getContext => life
  | .isSampled => life
  | .setAttribute key value => { life with span := life.span.setAttribute key value }
  | .addEvent name attributes timestamp now =>
      { life with span := life.span.addEvent name attributes timestamp now }
  | .addLink linkedContext attributes =>
      { life with span := life.span.addLink linkedContext attributes }
  | .setStatus code description => { life with span := life.span.setStatus code description }
  | .updateName name => { life with span := life.span.updateName name }
  | .endSpan endTime now => life.finish taken endTime now

def run (taken : Bool) (life : SpanLife ρ) (calls : List LifeCall) : SpanLife ρ :=
  calls.foldl (call taken) life

/-- `~SdkSpan`. -/
def destroy (taken : Bool) (life : SpanLife ρ) (now : Int) : SpanLife ρ := life.finish taken 0 now

end SpanLife

/-! ### The contract -/

/-- The calls that find the span recording. -/
def beforeEnd (calls : List LifeCall) : List LifeCall := calls.takeWhile fun c => !c.isEnd

/-- The statuses set by these calls, in their order. -/
def statusesSet (calls : List LifeCall) : List (StatusCode × Bytes) :=
  calls.filterMap fun
    | .setStatus code description => some (code, description)
    | _ => none

def okSet (statuses : List (StatusCode × Bytes)) : Bool := statuses.any fun s => s.1 = .ok

/-- The descriptions that came with an error. -/
def errorsSet (statuses : List (StatusCode × Bytes)) : List Bytes :=
  statuses.filterMap fun s => if s.1 = .error then some s.2 else none

/-- The status with `error` as the description an error has. -/
def settled (statuses : List (StatusCode × Bytes)) (error : Option Bytes) : StatusCode × Bytes :=
  if okSet statuses then (.ok, [])
  else
    match error with
    | some description => (.error, description)
    | none => (.unset, [])

/-- By the interface an error does not override another error. -/
def statusDue (statuses : List (StatusCode × Bytes)) : StatusCode × Bytes :=
  settled statuses (errorsSet statuses).head?

/-- What the interface promises of a span that lives through these calls and is
destroyed at `now`. -/
structure LivesAsPromised {ρ : Type} (taken : Bool) (span : SdkSpan ρ) (calls : List LifeCall)
    (now : Int) : Prop where
  once : (((SpanLife.mk span []).run taken calls).destroy taken now).handed.length = 1
  frozen : ∀ before endTime at' after, calls = before ++ .endSpan endTime at' :: after →
    (((SpanLife.mk span []).run taken calls).destroy taken now).handed =
      ((SpanLife.mk span []).run taken (before ++ [.endSpan endTime at'])).handed
  stable : ∀ before, before <+: calls →
    ((SpanLife.mk span []).run taken before).span.getContext = span.getContext
  status : ∀ record ∈ (((SpanLife.mk span []).run taken calls).destroy taken now).handed,
    (record.statusCode, record.statusDescription) = statusDue (statusesSet (beforeEnd calls))

/-! ### What a call leaves alone -/

namespace SdkSpan

variable {ρ : Type} (span : SdkSpan ρ)

/-- All that the calls which set no status and do not end the span leave as it is. -/
def core : SpanContext × Bool × StatusCode × Bytes :=
  (span.getContext, span.ended, span.record.statusCode, span.record.statusDescription)

theorem core_setAttribute (key : Bytes) (value : AttributeValue) :
    (span.setAttribute key value).core = span.core := by
  unfold setAttribute
  by_cases hended : span.ended
  · rw [if_pos hended]
  · rw [if_neg hended]
    split
    · rfl
    · rfl

theorem core_addEvent (name : Bytes) (attributes : List KeyValue) (timestamp now : Int) :
    (span.addEvent name attributes timestamp now).core = span.core := by
  unfold addEvent
  by_cases hended : span.ended
  · rw [if_pos hended]
  · rw [if_neg hended]
    split
    · rfl
    · rfl

theorem core_addLink (linkedContext : SpanContext) (attributes : List KeyValue) :
    (span.addLink linkedContext attributes).core = span.core := by
  unfold addLink
  by_cases hended : span.ended
  · rw [if_pos hended]
  · rw [if_neg hended]
    split
    · rfl
    · rfl

theorem core_updateName (name : Bytes) : (span.updateName name).core = span.core := by
  unfold updateName
  split
  · rfl
  · rfl

theorem setStatus_frame (code : StatusCode) (description : Bytes) :
    (span.setStatus code description).getContext = span.getContext ∧
      (span.setStatus code description).ended = span.ended := by
  unfold setStatus
  by_cases hended : span.ended
  · rw [if_pos hended]
    exact ⟨rfl, rfl⟩
  · rw [if_neg hended]
    split
    · exact ⟨rfl, rfl⟩
    · split
      · exact ⟨rfl, rfl⟩
      · exact ⟨rfl, rfl⟩

end SdkSpan

namespace SpanLife

variable {ρ : Type} {taken : Bool} {life : SpanLife ρ}

theorem finish_open (hopen : life.span.ended = false) (endTime now : Int) :
    life.finish taken endTime now =
      let record := { life.span.record with endTime := if endTime = 0 then now else endTime }
      { span :=
          { life.span with ended := true, record := if taken then movedFrom record else record }
        handed := life.handed ++ [record] } := by
  unfold finish SdkSpan.endSpan
  rw [hopen]
  rfl

theorem finish_ended (hended : life.span.ended = true) (endTime now : Int) :
    life.finish taken endTime now = life := by
  unfold finish SdkSpan.endSpan
  rw [hended]
  rfl

theorem finish_ends (endTime now : Int) : (life.finish taken endTime now).span.ended = true := by
  cases hended : life.span.ended with
  | true => rw [finish_ended hended, hended]
  | false => rw [finish_open hended]

/-- An ended span ignores every call. -/
theorem call_ended (hended : life.span.ended = true) (c : LifeCall) : life.call taken c = life := by
  cases c with
  | getContext => rfl
  | isSampled => rfl
  | setAttribute key value =>
      simp only [call, SdkSpan.setAttribute, if_pos hended]
  | addEvent name attributes timestamp now =>
      simp only [call, SdkSpan.addEvent, if_pos hended]
  | addLink linkedContext attributes =>
      simp only [call, SdkSpan.addLink, if_pos hended]
  | setStatus code description =>
      simp only [call, SdkSpan.setStatus, if_pos hended]
  | updateName name =>
      simp only [call, SdkSpan.updateName, if_pos hended]
  | endSpan endTime now => exact finish_ended hended endTime now

theorem run_ended (hended : life.span.ended = true) (calls : List LifeCall) :
    life.run taken calls = life := by
  induction calls with
  | nil => rfl
  | cons c calls ih =>
      rw [run, List.foldl_cons, call_ended hended c]
      exact ih

theorem run_append (calls calls' : List LifeCall) :
    life.run taken (calls ++ calls') = (life.run taken calls).run taken calls' :=
  List.foldl_append

variable (taken life) in
/-- A call other than `End` hands nothing over. -/
theorem call_frame {c : LifeCall} (hend : c.isEnd = false) :
    (life.call taken c).handed = life.handed ∧
      (life.call taken c).span.ended = life.span.ended ∧
      (life.call taken c).span.getContext = life.span.getContext := by
  have hcore : ∀ {span : SdkSpan ρ}, span.core = life.span.core →
      span.ended = life.span.ended ∧ span.getContext = life.span.getContext := by
    intro span h
    exact ⟨congrArg (fun core => core.2.1) h, congrArg Prod.fst h⟩
  cases c with
  | getContext => exact ⟨rfl, rfl, rfl⟩
  | isSampled => exact ⟨rfl, rfl, rfl⟩
  | setAttribute key value => exact ⟨rfl, hcore (life.span.core_setAttribute key value)⟩
  | addEvent name attributes timestamp now =>
      exact ⟨rfl, hcore (life.span.core_addEvent name attributes timestamp now)⟩
  | addLink linkedContext attributes =>
      exact ⟨rfl, hcore (life.span.core_addLink linkedContext attributes)⟩
  | setStatus code description =>
      obtain ⟨hcontext, hended⟩ := life.span.setStatus_frame code description
      exact ⟨rfl, hended, hcontext⟩
  | updateName name => exact ⟨rfl, hcore (life.span.core_updateName name)⟩
  | endSpan endTime now => cases hend

variable (taken life) in
/-- Up to the first `End` nothing is handed over and the context stands. -/
theorem run_frame {calls : List LifeCall} (hend : ∀ c ∈ calls, c.isEnd = false) :
    (life.run taken calls).handed = life.handed ∧
      (life.run taken calls).span.ended = life.span.ended ∧
      (life.run taken calls).span.getContext = life.span.getContext := by
  induction calls generalizing life with
  | nil => exact ⟨rfl, rfl, rfl⟩
  | cons c calls ih =>
      obtain ⟨hhanded, hended, hcontext⟩ := call_frame taken life
        (hend c List.mem_cons_self)
      obtain ⟨hhanded', hended', hcontext'⟩ := ih (life.call taken c)
        (fun c' hc' => hend c' (List.mem_cons_of_mem c hc'))
      exact ⟨hhanded'.trans hhanded, hended'.trans hended, hcontext'.trans hcontext⟩

end SpanLife

/-! ### The status -/

section Status

variable (statuses : List (StatusCode × Bytes)) (description : Bytes)

theorem okSet_append (code : StatusCode) :
    okSet (statuses ++ [(code, description)]) = (okSet statuses || code = .ok) := by
  simp [okSet]

theorem errorsSet_append (code : StatusCode) :
    errorsSet (statuses ++ [(code, description)]) =
      errorsSet statuses ++ (if code = .error then [description] else []) := by
  unfold errorsSet
  rw [List.filterMap_append]
  by_cases herror : code = .error
  · simp [herror]
  · simp [herror]

/-- What `SetStatus` keeps: an error overrides an error. -/
def statusKept : StatusCode × Bytes := settled statuses (errorsSet statuses).getLast?

theorem statusKept_ok : statusKept (statuses ++ [(.ok, description)]) = (.ok, []) := by
  unfold statusKept settled
  rw [okSet_append, decide_eq_true rfl, Bool.or_true, if_pos rfl]

theorem statusKept_unset :
    statusKept (statuses ++ [(.unset, description)]) = statusKept statuses := by
  unfold statusKept settled
  rw [okSet_append, errorsSet_append, decide_eq_false (by decide), Bool.or_false,
    if_neg (show ¬StatusCode.unset = .error by decide), List.append_nil]

theorem statusKept_error :
    statusKept (statuses ++ [(.error, description)]) =
      if (statusKept statuses).1 = .ok then statusKept statuses else (.error, description) := by
  unfold statusKept settled
  rw [okSet_append, errorsSet_append, decide_eq_false (by decide), Bool.or_false, if_pos rfl,
    List.getLast?_concat]
  cases hok : okSet statuses with
  | true => rfl
  | false =>
      cases (errorsSet statuses).getLast? with
      | none => rfl
      | some last => rfl

end Status

namespace SdkSpan

variable {ρ : Type}

def status (span : SdkSpan ρ) : StatusCode × Bytes :=
  (span.record.statusCode, span.record.statusDescription)

theorem status_setStatus {span : SdkSpan ρ} (hopen : span.ended = false)
    {statuses : List (StatusCode × Bytes)} (hstatus : span.status = statusKept statuses)
    (code : StatusCode) (description : Bytes) :
    (span.setStatus code description).status = statusKept (statuses ++ [(code, description)]) := by
  unfold setStatus
  rw [hopen, if_neg Bool.false_ne_true]
  cases code with
  | unset =>
      rw [statusKept_unset, ← hstatus]
      rfl
  | ok =>
      rw [statusKept_ok]
      rfl
  | error =>
      rw [statusKept_error, ← hstatus, if_neg (by decide)]
      by_cases hok : span.record.statusCode = .ok
      · rw [if_neg fun h => h.2 hok, if_pos (show span.status.1 = .ok from hok)]
      · rw [if_pos ⟨rfl, hok⟩, if_neg (show span.status.1 ≠ .ok from hok)]
        rfl

end SdkSpan

namespace SpanLife

variable {ρ : Type} {taken : Bool} {life : SpanLife ρ}

theorem call_status {c : LifeCall} (hend : c.isEnd = false) (hopen : life.span.ended = false)
    {statuses : List (StatusCode × Bytes)} (hstatus : life.span.status = statusKept statuses) :
    (life.call taken c).span.status = statusKept (statuses ++ statusesSet [c]) := by
  have hcore : ∀ {span : SdkSpan ρ}, span.core = life.span.core →
      span.status = statusKept (statuses ++ []) := by
    intro span h
    rw [List.append_nil, ← hstatus]
    exact congrArg (fun core => core.2.2) h
  cases c with
  | getContext => exact hcore rfl
  | isSampled => exact hcore rfl
  | setAttribute key value => exact hcore (life.span.core_setAttribute key value)
  | addEvent name attributes timestamp now =>
      exact hcore (life.span.core_addEvent name attributes timestamp now)
  | addLink linkedContext attributes =>
      exact hcore (life.span.core_addLink linkedContext attributes)
  | setStatus code description => exact SdkSpan.status_setStatus hopen hstatus code description
  | updateName name => exact hcore (life.span.core_updateName name)
  | endSpan endTime now => cases hend

variable (taken life) in
theorem run_status {calls : List LifeCall} (hend : ∀ c ∈ calls, c.isEnd = false)
    (hopen : life.span.ended = false) {statuses : List (StatusCode × Bytes)}
    (hstatus : life.span.status = statusKept statuses) :
    (life.run taken calls).span.status = statusKept (statuses ++ statusesSet calls) := by
  induction calls generalizing life statuses with
  | nil =>
      rw [show statusesSet [] = [] from rfl, List.append_nil]
      exact hstatus
  | cons c calls ih =>
      have hc : c.isEnd = false := hend c List.mem_cons_self
      have hsplit : statusesSet (c :: calls) = statusesSet [c] ++ statusesSet calls :=
        List.filterMap_append (l := [c])
      rw [hsplit, ← List.append_assoc]
      refine ih (life.call taken c) (fun c' hc' => hend c' (List.mem_cons_of_mem c hc')) ?_
        (call_status hc hopen hstatus)
      rw [(call_frame taken life hc).2.1, hopen]

end SpanLife

/-- The two agree unless an error came with one description and a later one with
another. -/
theorem statusKept_eq_iff (statuses : List (StatusCode × Bytes)) :
    statusKept statuses = statusDue statuses ↔
      okSet statuses = true ∨ (errorsSet statuses).head? = (errorsSet statuses).getLast? := by
  unfold statusKept statusDue settled
  cases hok : okSet statuses with
  | true => simp
  | false =>
      cases (errorsSet statuses).getLast? with
      | none =>
          cases (errorsSet statuses).head? with
          | none => simp
          | some first => simp
      | some last =>
          cases (errorsSet statuses).head? with
          | none => simp
          | some first => simp [eq_comm]

/-! ### The whole life -/

/-- Up to the first `End`, if there is one. -/
theorem end_cases (calls : List LifeCall) :
    (beforeEnd calls = calls ∧ ∀ c ∈ calls, c.isEnd = false) ∨
      ∃ endTime now after, calls = beforeEnd calls ++ .endSpan endTime now :: after ∧
        ∀ c ∈ beforeEnd calls, c.isEnd = false := by
  induction calls with
  | nil => exact Or.inl ⟨rfl, fun c hc => absurd hc List.not_mem_nil⟩
  | cons c calls ih =>
      cases hc : c.isEnd with
      | true =>
          have hbefore : beforeEnd (c :: calls) = [] :=
            List.takeWhile_cons_of_neg (by simp [hc])
          rw [hbefore]
          cases c with
          | endSpan endTime now =>
              exact Or.inr ⟨endTime, now, calls, rfl, fun c hc => absurd hc List.not_mem_nil⟩
          | getContext | isSampled | setAttribute | addEvent | addLink | setStatus
          | updateName => cases hc
      | false =>
          have hbefore : beforeEnd (c :: calls) = c :: beforeEnd calls :=
            List.takeWhile_cons_of_pos (by simp [hc])
          rw [hbefore]
          cases ih with
          | inl h =>
              rw [h.1]
              exact Or.inl ⟨rfl, List.forall_mem_cons.mpr ⟨hc, h.2⟩⟩
          | inr h =>
              obtain ⟨endTime, now, after, hcalls, hopen⟩ := h
              refine Or.inr ⟨endTime, now, after, ?_, List.forall_mem_cons.mpr ⟨hc, hopen⟩⟩
              rw [List.cons_append, ← hcalls]

namespace SpanLife

variable {ρ : Type} {taken : Bool} {span : SdkSpan ρ}

/-- The first `End` hands the record over as the calls before it left it. -/
theorem run_to_end (taken : Bool) (hopen : span.ended = false) {before : List LifeCall}
    (hbefore : ∀ c ∈ before, c.isEnd = false) (endTime now : Int) :
    let life := (SpanLife.mk span []).run taken before
    let record := { life.span.record with endTime := if endTime = 0 then now else endTime }
    life.finish taken endTime now =
      { span :=
          { life.span with ended := true, record := if taken then movedFrom record else record }
        handed := [record] } := by
  intro life record
  obtain ⟨hhanded, hended, _⟩ := run_frame taken ⟨span, []⟩ hbefore
  rw [finish_open (hended.trans hopen), hhanded]
  rfl

/-- One record is handed over, by the first `End` or by the destructor. -/
theorem lived (taken : Bool) (hopen : span.ended = false) (calls : List LifeCall) (now : Int) :
    ∃ endTime, (((SpanLife.mk span []).run taken calls).destroy taken now).handed =
      [{ ((SpanLife.mk span []).run taken (beforeEnd calls)).span.record with endTime }] := by
  cases end_cases calls with
  | inl h =>
      rw [h.1, destroy, run_to_end taken hopen h.2]
      exact ⟨_, rfl⟩
  | inr h =>
      obtain ⟨endTime, at', after, hcalls, hbefore⟩ := h
      have hend := run_to_end taken hopen hbefore endTime at'
      have hrun : (SpanLife.mk span []).run taken calls =
          ((SpanLife.mk span []).run taken (beforeEnd calls)).finish taken endTime at' := by
        conv => lhs; rw [hcalls, run_append]
        refine run_ended ?_ after
        exact congrArg (fun life => life.span.ended) hend
      rw [hrun, destroy, finish_ended (congrArg (fun life => life.span.ended) hend), hend]
      exact ⟨_, rfl⟩

theorem run_through_end (before after : List LifeCall)
    (endTime at' : Int) :
    (SpanLife.mk span []).run taken (before ++ .endSpan endTime at' :: after) =
      (SpanLife.mk span []).run taken (before ++ [.endSpan endTime at']) := by
  rw [← List.singleton_append, ← List.append_assoc, run_append]
  refine run_ended ?_ after
  rw [run_append]
  exact finish_ends endTime at'

/-- What `GetContext` answers after these calls. -/
theorem run_context (hopen : span.ended = false) (calls : List LifeCall) :
    ((SpanLife.mk span []).run taken calls).span.getContext =
      if taken = true ∧ calls.any LifeCall.isEnd then { span.getContext with traceState := [] }
      else span.getContext := by
  cases end_cases calls with
  | inl h =>
      have hnone : ¬(taken = true ∧ calls.any LifeCall.isEnd = true) := by
        rintro ⟨-, hany⟩
        obtain ⟨c, hc, hend⟩ := List.any_eq_true.mp hany
        rw [h.2 c hc] at hend
        cases hend
      rw [if_neg hnone]
      exact (run_frame taken ⟨span, []⟩ h.2).2.2
  | inr h =>
      obtain ⟨endTime, at', after, hcalls, hbefore⟩ := h
      have hany : calls.any LifeCall.isEnd = true := by
        rw [hcalls]
        simp [LifeCall.isEnd]
      have hend := run_to_end taken hopen hbefore endTime at'
      have hcontext := (run_frame taken ⟨span, []⟩ hbefore).2.2
      have hrun : (SpanLife.mk span []).run taken calls =
          ((SpanLife.mk span []).run taken (beforeEnd calls)).finish taken endTime at' := by
        conv => lhs; rw [hcalls, run_through_end, run_append]
        rfl
      rw [hrun, hend]
      cases taken with
      | true =>
          rw [if_pos (show true = true ∧ calls.any LifeCall.isEnd = true from ⟨rfl, hany⟩),
            ← hcontext]
          rfl
      | false =>
          have hkept : ¬(false = true ∧ calls.any LifeCall.isEnd = true) :=
            fun h => Bool.false_ne_true h.1
          rw [if_neg hkept, ← hcontext]
          rfl

end SpanLife

/-- Nobody can see a trace state moved away: there is none, the processor left the
record where it was, or no call ends the span. -/
def ContextKept {ρ : Type} (taken : Bool) (span : SdkSpan ρ) (calls : List LifeCall) : Prop :=
  span.getContext.traceState = [] ∨ taken = false ∨ calls.any LifeCall.isEnd = false

/-- The last error that found the span recording has the description of the first, or
an `Ok` hides them. -/
def FirstErrorKept (calls : List LifeCall) : Prop :=
  let statuses := statusesSet (beforeEnd calls)
  okSet statuses = true ∨ (errorsSet statuses).head? = (errorsSet statuses).getLast?

section Promise

variable {ρ : Type} (taken : Bool) {span : SdkSpan ρ} (calls : List LifeCall)

theorem stable_iff (hopen : span.ended = false) :
    (∀ before, before <+: calls →
      ((SpanLife.mk span []).run taken before).span.getContext = span.getContext) ↔
      ContextKept taken span calls := by
  constructor
  · intro hstable
    have hwhole := hstable calls List.prefix_rfl
    rw [SpanLife.run_context hopen] at hwhole
    by_cases hmoved : taken = true ∧ calls.any LifeCall.isEnd = true
    · rw [if_pos hmoved] at hwhole
      exact Or.inl (congrArg SpanContext.traceState hwhole).symm
    · by_cases htaken : taken = true
      · exact Or.inr (Or.inr (Bool.eq_false_iff.mpr fun hany => hmoved ⟨htaken, hany⟩))
      · exact Or.inr (Or.inl (Bool.eq_false_iff.mpr htaken))
  · intro hkept before hbefore
    rw [SpanLife.run_context hopen]
    by_cases hmoved : taken = true ∧ before.any LifeCall.isEnd = true
    · rw [if_pos hmoved]
      obtain ⟨c, hc, hend⟩ := List.any_eq_true.mp hmoved.2
      rcases hkept with hempty | huntaken | hnone
      · rw [← hempty]
      · rw [huntaken] at hmoved
        exact absurd hmoved.1 Bool.false_ne_true
      · have hany : calls.any LifeCall.isEnd = true :=
          List.any_eq_true.mpr ⟨c, hbefore.subset hc, hend⟩
        rw [hnone] at hany
        exact absurd hany Bool.false_ne_true
    · rw [if_neg hmoved]

theorem handed_status (hopen : span.ended = false) (hunset : span.status = (.unset, []))
    (now : Int) :
    (∀ record ∈ (((SpanLife.mk span []).run taken calls).destroy taken now).handed,
      (record.statusCode, record.statusDescription) = statusDue (statusesSet (beforeEnd calls))) ↔
      FirstErrorKept calls := by
  obtain ⟨endTime, hhanded⟩ := SpanLife.lived taken hopen calls now
  have hbefore : ∀ c ∈ beforeEnd calls, c.isEnd = false := by
    cases end_cases calls with
    | inl h =>
        rw [h.1]
        exact h.2
    | inr h =>
        obtain ⟨_, _, _, _, hbefore⟩ := h
        exact hbefore
  have hnone : span.status = statusKept [] := hunset
  have hstatus := SpanLife.run_status taken ⟨span, []⟩ hbefore hopen hnone
  rw [List.nil_append] at hstatus
  rw [hhanded, FirstErrorKept, ← statusKept_eq_iff, ← hstatus]
  simp only [List.mem_singleton, forall_eq]
  rfl

end Promise

/-- A span lives as its interface promises exactly when its trace state is not seen to
go and no error overrides another. -/
theorem livesAsPromised_iff {ρ : Type} (context parentContext : SpanContext) (name : Bytes)
    (kind : SpanKind) (startTime started : Int) (limits : SpanLimitOptions) (diag : Option Drops)
    (taken : Bool) (calls : List LifeCall) (now : Int) :
    let span : SdkSpan ρ := .new context parentContext name kind startTime started limits diag
    LivesAsPromised taken span calls now ↔ ContextKept taken span calls ∧ FirstErrorKept calls := by
  intro span
  have hopen : span.ended = false := rfl
  constructor
  · intro h
    exact ⟨(stable_iff taken calls hopen).mp h.stable,
      (handed_status taken calls hopen rfl now).mp h.status⟩
  · rintro ⟨hcontext, herror⟩
    refine ⟨?_, ?_, (stable_iff taken calls hopen).mpr hcontext,
      (handed_status taken calls hopen rfl now).mpr herror⟩
    · obtain ⟨endTime, hhanded⟩ := SpanLife.lived taken hopen calls now
      rw [hhanded]
      rfl
    · intro before endTime at' after hcalls
      have hended : ((SpanLife.mk span []).run taken
          (before ++ [.endSpan endTime at'])).span.ended = true := by
        rw [SpanLife.run_append]
        exact SpanLife.finish_ends endTime at'
      rw [hcalls, SpanLife.run_through_end, SpanLife.destroy, SpanLife.finish_ended hended]

/-- A span with a trace state that its processor queues, and an error after an error. -/
def vendorSpan : SdkSpan Unit :=
  .new { traceState := [([0x76], [0x31])] } {} [0x73] .internal 0 7 {} none

def overriddenError : List LifeCall :=
  [.setStatus .error [0x61], .setStatus .error [0x62], .endSpan 0 8, .getContext]

/-- The trace state is gone after `End`, and the second error is handed over. -/
theorem livesAsPromised_fails : ¬LivesAsPromised true vendorSpan overriddenError 9 := by
  intro h
  have hcontext := h.stable overriddenError List.prefix_rfl
  exact absurd (congrArg SpanContext.traceState hcontext) (by decide)

end Microtel.Sdk
