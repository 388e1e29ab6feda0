import Microtel.Pipeline.FanOut

/-!
`RetryEngine` (`src/exporter/retry_engine.cpp`, `src/exporter/retry_policy.cpp`) with
its clock, its waits and `Abort`. A time point is its count of nanoseconds and a
duration its count of milliseconds, both unbounded: the arithmetic they meet in is a
parameter. A retry here comes to a result; one that throws leaves the engine with
nothing recorded, as `settle` has it.
-/

namespace Microtel.Pipeline

namespace RetryEngine

/-- How milliseconds become nanoseconds, and how these are added to a time point. -/
structure Arithmetic where
  nanos : Int → Int
  add : Int → Int → Int

/-- `RetryPolicyConfig`; what its other fields give is the jittered backoff. -/
structure RetryPolicyConfig where
  maxAttempts : Nat
  retryBudget : Int

/-- What answers the calls of one `Settle`, by the number of the attempt. -/
structure Surroundings where
  /-- `ClockNow`: first for the deadline, then before each retry. -/
  now : Nat → Int
  /-- The exponential backoff with its jitter. -/
  backoff : Nat → Int
  /-- `Abort` has been called when the wait before the retry ends. -/
  abort : Nat → Bool
  retry : Nat → Wire.WireResult

/-- What a `Settle` does, in order. -/
inductive RetryEvent
  /-- `ClockNow() + backoff` is held against the deadline. -/
  | lookAhead (attempt : Nat) (now backoff : Int)
  | wait (attempt : Nat) (now backoff : Int)
  | abortSeen
  | send (attempt : Nat) (result : Wire.WireResult)
  deriving DecidableEq

def computeBackoff (jittered : Int) (retryAfter : Option Int64) : Int :=
  match retryAfter with
  | none => jittered
  | some after => if jittered < after.toInt then after.toInt else jittered

/-- Whether to make the retry, `m_aborted` after it, and what happened. -/
structure BackOff where
  go : Bool
  aborted : Bool
  events : List RetryEvent

section Loop

variable (arith : Arithmetic) (around : Surroundings) (deadline : Int)

/-- `SleepUnlessAborted`. -/
def sleepUnlessAborted (attempt : Nat) (aborted : Bool) : Bool × Bool :=
  let aborted := aborted || around.abort attempt
  (!aborted, aborted)

def backOffBeforeRetry (last : Wire.WireResult) (attempt : Nat) (aborted : Bool) : BackOff :=
  if last.success || !last.retryable then { go := false, aborted, events := [] }
  else
    let backoff := computeBackoff (around.backoff attempt) last.retryAfter
    let now := around.now attempt
    if deadline ≤ arith.add now (arith.nanos backoff) then
      { go := false, aborted, events := [.lookAhead attempt now backoff] }
    else
      let (go, aborted) := sleepUnlessAborted around attempt aborted
      { go, aborted
        events := [.lookAhead attempt now backoff, .wait attempt now backoff] ++
          if go then [] else [.abortSeen] }

/-- The result of the last retry, if one was made. -/
structure Retried where
  last : Option Wire.WireResult
  aborted : Bool
  events : List RetryEvent

/-- The loop of `RunRetryLoop` from retry `attempt` on, with the retries still allowed. -/
def retryFrom (firstAttempt : Wire.WireResult) : Nat → Nat → Option Wire.WireResult → Bool → Retried
  | 0, _, last, aborted => { last, aborted, events := [] }
  | allowed + 1, attempt, last, aborted =>
      let previous := last.getD firstAttempt
      let backOff := backOffBeforeRetry arith around deadline previous attempt aborted
      if backOff.go then
        let result := around.retry attempt
        let rest := retryFrom firstAttempt allowed (attempt + 1) (some result) backOff.aborted
        { rest with events := backOff.events ++ .send attempt result :: rest.events }
      else { last, aborted := backOff.aborted, events := backOff.events }

end Loop

def runRetryLoop (arith : Arithmetic) (policy : RetryPolicyConfig) (around : Surroundings)
    (firstAttempt : Wire.WireResult) (aborted : Bool) : Retried :=
  let maxAttempts := if 0 < policy.maxAttempts then policy.maxAttempts else 1
  let budgetDeadline := arith.add (around.now 0) (arith.nanos policy.retryBudget)
  retryFrom arith around budgetDeadline firstAttempt (maxAttempts - 1) 1 none aborted

/-- The result that stands, `m_aborted` and the sink after a `Settle`; there may be
no sink. -/
structure Settled where
  result : Wire.WireResult
  aborted : Bool
  diag : Option Diagnostics
  events : List RetryEvent

def resolve (arith : Arithmetic) (policy : RetryPolicyConfig) (around : Surroundings)
    (firstAttempt : Wire.WireResult) (batches : Nat) (diag : Option Diagnostics) (aborted : Bool) :
    Settled :=
  if firstAttempt.success || !firstAttempt.retryable then
    { result := firstAttempt, aborted, diag, events := [] }
  else
    let retried := runRetryLoop arith policy around firstAttempt aborted
    match retried.last with
    | none => { result := firstAttempt, aborted := retried.aborted, diag, events := retried.events }
    | some result =>
        { result, aborted := retried.aborted, events := retried.events
          diag := if result.success then
              diag.map (·.recordDrop .retryableFailureRecovered batches)
            else diag }

def settle (arith : Arithmetic) (policy : RetryPolicyConfig) (around : Surroundings)
    (firstAttempt : Wire.WireResult) (failureStage : String) (batches : Nat)
    (diag : Option Diagnostics) (aborted : Bool) : Settled :=
  let resolved := resolve arith policy around firstAttempt batches diag aborted
  { resolved with
    diag := resolved.diag.map fun d =>
      recordOutcome d (WireResult.ofWire resolved.result) failureStage batches }

/-! ### The retries of a settlement -/

/-- The results of the retries, in order. -/
def sends (events : List RetryEvent) : List Wire.WireResult :=
  events.filterMap fun
    | .send _ result => some result
    | _ => none

/-- Each result follows one that may be retried and did not succeed. -/
def Follows (previous : Wire.WireResult) : List Wire.WireResult → Prop
  | [] => True
  | result :: results => previous.retryable = true ∧ previous.success = false ∧
      Follows result results

/-- Nothing comes after `Abort` is seen. -/
def EndsAtAbort (events : List RetryEvent) : Prop :=
  ∀ before after, events = before ++ .abortSeen :: after → after = []

variable {arith : Arithmetic} {around : Surroundings} {deadline : Int}

/-- A backoff goes on to the retry only after a failure that may be retried, with
no `Abort` seen; it sends nothing itself. -/
theorem backOff_go {last : Wire.WireResult} {attempt : Nat} {aborted : Bool}
    (h : (backOffBeforeRetry arith around deadline last attempt aborted).go = true) :
    last.retryable = true ∧ last.success = false ∧ aborted = false ∧
      (backOffBeforeRetry arith around deadline last attempt aborted).aborted = false ∧
      .abortSeen ∉ (backOffBeforeRetry arith around deadline last attempt aborted).events := by
  unfold backOffBeforeRetry at h ⊢
  split
  · next hstop =>
    rw [if_pos hstop] at h
    cases h
  · next hgo =>
    rw [if_neg hgo] at h
    simp only [Bool.or_eq_true, Bool.not_eq_true', not_or, Bool.not_eq_true, Bool.not_eq_false]
      at hgo
    dsimp only at h ⊢
    split
    · next hover =>
      rw [if_pos hover] at h
      cases h
    · next hwithin =>
      rw [if_neg hwithin] at h
      simp only [sleepUnlessAborted, Bool.not_eq_true', Bool.or_eq_false_iff] at h ⊢
      obtain ⟨haborted, habort⟩ := h
      simp [haborted, habort, hgo]

theorem backOff_sends (last : Wire.WireResult) (attempt : Nat) (aborted : Bool) :
    sends (backOffBeforeRetry arith around deadline last attempt aborted).events = [] := by
  unfold backOffBeforeRetry
  split
  · rfl
  · dsimp only
    split
    · rfl
    · split <;> rfl

theorem endsAtAbort_append (xs : List RetryEvent) {ys : List RetryEvent} (hxs : .abortSeen ∉ xs)
    (hys : EndsAtAbort ys) : EndsAtAbort (xs ++ ys) := by
  intro before after hsplit
  rcases List.append_eq_append_iff.mp hsplit with ⟨mid, -, hmid⟩ | ⟨mid, hmid, hrest⟩
  · exact hys mid after hmid
  · cases mid with
    | nil => exact hys [] after hrest.symm
    | cons event mid =>
        obtain ⟨rfl, -⟩ := List.cons.inj hrest
        refine absurd ?_ hxs
        rw [hmid]
        exact List.mem_append_right _ (List.mem_cons_self ..)

theorem endsAtAbort_nil : EndsAtAbort [] := fun before after h =>
  absurd h.symm (List.append_ne_nil_of_right_ne_nil before (List.cons_ne_nil _ after))

theorem endsAtAbort_abortSeen : EndsAtAbort [.abortSeen] := by
  intro before after h
  have hlen := congrArg List.length h
  simp only [List.length_append, List.length_cons, List.length_nil] at hlen
  exact List.eq_nil_of_length_eq_zero (by omega)

theorem backOff_endsAtAbort (last : Wire.WireResult) (attempt : Nat) (aborted : Bool) :
    EndsAtAbort (backOffBeforeRetry arith around deadline last attempt aborted).events := by
  unfold backOffBeforeRetry
  split
  · exact endsAtAbort_nil
  · dsimp only
    split
    · exact endsAtAbort_append [.lookAhead _ _ _] (by simp) endsAtAbort_nil
    · generalize sleepUnlessAborted around attempt aborted = slept
      refine endsAtAbort_append [.lookAhead _ _ _, .wait _ _ _] (by simp) ?_
      split
      · exact endsAtAbort_nil
      · exact endsAtAbort_abortSeen

/-- `m_aborted` is never cleared, and is set when `Abort` is seen. -/
theorem backOff_aborted (last : Wire.WireResult) (attempt : Nat) {aborted : Bool}
    (h : aborted = true ∨
      .abortSeen ∈ (backOffBeforeRetry arith around deadline last attempt aborted).events) :
    (backOffBeforeRetry arith around deadline last attempt aborted).aborted = true := by
  unfold backOffBeforeRetry at h ⊢
  split
  · next hstop =>
    rw [if_pos hstop] at h
    exact h.resolve_right List.not_mem_nil
  · next hgo =>
    rw [if_neg hgo] at h
    dsimp only at h ⊢
    split
    · next hover =>
      rw [if_pos hover] at h
      exact h.resolve_right (by simp)
    · next hwithin =>
      rw [if_neg hwithin] at h
      simp only [sleepUnlessAborted] at h ⊢
      rcases h with haborted | hseen
      · rw [haborted, Bool.true_or]
      · cases hnow : aborted || around.abort attempt with
        | true => rfl
        | false => simp [hnow] at hseen

/-- What the loop does: so many retries at most, each after a failure that may be
retried, none once `Abort` is seen; the last one's result is what it returns. -/
structure Loops (firstAttempt : Wire.WireResult) (allowed : Nat) (last : Option Wire.WireResult)
    (aborted : Bool) (r : Retried) : Prop where
  bounded : (sends r.events).length ≤ allowed
  follows : Follows (last.getD firstAttempt) (sends r.events)
  last : r.last = (sends r.events).getLast?.or last
  endsAtAbort : EndsAtAbort r.events
  silent : aborted = true → sends r.events = []
  set : aborted = true ∨ .abortSeen ∈ r.events → r.aborted = true

theorem sends_append (xs ys : List RetryEvent) : sends (xs ++ ys) = sends xs ++ sends ys :=
  List.filterMap_append

theorem retryFrom_loops (firstAttempt : Wire.WireResult) (allowed attempt : Nat)
    (last : Option Wire.WireResult) (aborted : Bool) :
    Loops firstAttempt allowed last aborted
      (retryFrom arith around deadline firstAttempt allowed attempt last aborted) := by
  induction allowed generalizing attempt last aborted with
  | zero =>
      exact ⟨le_rfl, trivial, rfl, endsAtAbort_nil, fun _ => rfl,
        fun h => h.resolve_right List.not_mem_nil⟩
  | succ allowed ih =>
      rw [retryFrom]
      dsimp only
      split
      · next hgo =>
        obtain ⟨hretryable, hfailed, haborted, -, hunseen⟩ := backOff_go hgo
        have hsends := @backOff_sends arith around deadline (last.getD firstAttempt) attempt aborted
        generalize backOffBeforeRetry arith around deadline (last.getD firstAttempt) attempt aborted
          = backOff at *
        have hrest := ih (attempt + 1) (some (around.retry attempt)) backOff.aborted
        generalize retryFrom arith around deadline firstAttempt allowed (attempt + 1)
          (some (around.retry attempt)) backOff.aborted = rest at *
        have hall : sends (backOff.events ++ .send attempt (around.retry attempt) :: rest.events) =
            around.retry attempt :: sends rest.events := by
          rw [sends_append, hsends]
          rfl
        refine ⟨?_, ?_, ?_, ?_, ?_, ?_⟩
        · rw [hall, List.length_cons]
          exact Nat.succ_le_succ hrest.bounded
        · rw [hall]
          exact ⟨hretryable, hfailed, hrest.follows⟩
        · rw [hall, hrest.last, List.getLast?_cons]
          cases (sends rest.events).getLast? <;> rfl
        · exact endsAtAbort_append _ hunseen
            (endsAtAbort_append [.send attempt _] (by simp) hrest.endsAtAbort)
        · intro h
          rw [haborted] at h
          cases h
        · rintro (h | h)
          · rw [haborted] at h
            cases h
          · refine hrest.set (Or.inr ?_)
            rcases List.mem_append.mp h with h | h
            · exact absurd h hunseen
            · exact (List.mem_cons.mp h).resolve_left RetryEvent.noConfusion
      · next hstop =>
        have hsends := @backOff_sends arith around deadline (last.getD firstAttempt) attempt aborted
        refine ⟨?_, ?_, ?_, backOff_endsAtAbort _ _ _, fun _ => hsends, backOff_aborted _ _⟩
        · rw [hsends]
          exact Nat.zero_le _
        · rw [hsends]
          trivial
        · rw [hsends]
          rfl

/-! ### The outcome of a settlement -/

/-- What a settled request adds to a counter. -/
def counted (result : Wire.WireResult) (batches : Nat) (retried : Bool) : DropReason → Nat
  | .retryableFailureRecovered => if result.success && retried then batches else 0
  | .partialSuccessRejection => if result.success then result.partialSuccessRejected.toNat else 0
  | .retryBudgetExhausted => if !result.success && result.retryable then batches else 0
  | .nonRetryableFailure => if !result.success && !result.retryable then batches else 0
  | _ => 0

/-- The sink after one outcome: every batch sent, or every batch failed, and the
counters with it. -/
structure Recorded (d d' : Diagnostics) (result : Wire.WireResult) (batches : Nat)
    (retried : Bool) :
    Prop where
  sent : d'.batchesSent = d.batchesSent + if result.success then batches else 0
  failed : d'.batchesFailed = d.batchesFailed + if result.success then 0 else batches
  drops : ∀ reason, d'.drops reason = d.drops reason + counted result batches retried reason
  queueDepth : d'.queueDepth = d.queueDepth

theorem repeatRecord_sent (d : Diagnostics) (n : Nat) :
    repeatRecord n Diagnostics.recordBatchSent d = { d with batchesSent := d.batchesSent + n } := by
  induction n with
  | zero => rfl
  | succ n ih =>
      change (repeatRecord n Diagnostics.recordBatchSent d).recordBatchSent = _
      rw [ih]
      rfl

theorem repeatRecord_failed (d : Diagnostics) (n : Nat) (message : String) :
    (repeatRecord n (·.recordBatchFailed message) d).batchesSent = d.batchesSent ∧
      (repeatRecord n (·.recordBatchFailed message) d).batchesFailed = d.batchesFailed + n ∧
      (repeatRecord n (·.recordBatchFailed message) d).drops = d.drops ∧
      (repeatRecord n (·.recordBatchFailed message) d).queueDepth = d.queueDepth := by
  induction n with
  | zero => exact ⟨rfl, rfl, rfl, rfl⟩
  | succ n ih =>
      obtain ⟨hsent, hfailed, hdrops, hdepth⟩ := ih
      exact ⟨hsent, congrArg (· + 1) hfailed, hdrops, hdepth⟩

theorem recordDrop_drops (d : Diagnostics) (reason reason' : DropReason) (n : Nat) :
    (d.recordDrop reason n).drops reason' = d.drops reason' + if reason' = reason then n else 0 :=
  recordDropped_apply d.drops reason reason' n

theorem recordOutcome_recorded (d : Diagnostics) (result : Wire.WireResult) (stage : String)
    (batches : Nat) :
    Recorded d (recordOutcome d (WireResult.ofWire result) stage batches) result batches false := by
  unfold recordOutcome
  split
  · next hsent =>
    have hsuccess : result.success = true := hsent
    dsimp only
    rw [repeatRecord_sent]
    split
    · refine ⟨by rw [hsuccess]; rfl, by rw [hsuccess]; rfl, fun reason => ?_, rfl⟩
      dsimp only
      rw [recordDrop_drops]
      cases reason <;> simp [counted, hsuccess, WireResult.ofWire]
    · next hnone =>
      refine ⟨by rw [hsuccess]; rfl, by rw [hsuccess]; rfl, fun reason => ?_, rfl⟩
      have hzero : result.partialSuccessRejected.toNat = 0 := Nat.eq_zero_of_not_pos hnone
      cases reason <;> simp [counted, hsuccess, hzero]
  · next hfailed =>
    have hsuccess : result.success = false := Bool.not_eq_true _ ▸ hfailed
    obtain ⟨hsent, hbatches, hdrops, hdepth⟩ := repeatRecord_failed
      (d.recordDrop
        (if result.retryable then .retryBudgetExhausted else .nonRetryableFailure) batches)
      batches ((WireResult.ofWire result).error.getD stage)
    refine ⟨?_, ?_, fun reason => ?_, hdepth⟩
    · rw [hsuccess]
      exact hsent
    · rw [hsuccess]
      exact hbatches
    · refine (congrFun hdrops reason).trans ?_
      rw [recordDrop_drops]
      cases hretryable : result.retryable <;> cases reason <;> simp [counted, hsuccess, hretryable]

/-- A recovery is counted beside the outcome. -/
theorem recordOutcome_recovered (d : Diagnostics) {result : Wire.WireResult} (stage : String)
    (batches : Nat) (hsuccess : result.success = true) :
    Recorded d (recordOutcome (d.recordDrop .retryableFailureRecovered batches)
      (WireResult.ofWire result) stage batches) result batches true := by
  obtain ⟨hsent, hfailed, hdrops, hdepth⟩ :=
    recordOutcome_recorded (d.recordDrop .retryableFailureRecovered batches) result stage batches
  refine ⟨hsent, hfailed, fun reason => ?_, hdepth⟩
  rw [hdrops, recordDrop_drops]
  cases reason <;> simp [counted, hsuccess]

theorem Recorded.of_failed {d d' : Diagnostics} {result : Wire.WireResult} {batches : Nat}
    {retried retried' : Bool} (h : Recorded d d' result batches retried)
    (hfailed : result.success = false) : Recorded d d' result batches retried' := by
  refine ⟨h.sent, h.failed, fun reason => ?_, h.queueDepth⟩
  rw [h.drops]
  cases reason <;> simp [counted, hfailed]

/-- What `Resolve` comes to: its events are those of a loop, the last result stands,
and a recovery is counted if there was a retry. -/
structure Resolves (policy : RetryPolicyConfig) (firstAttempt : Wire.WireResult) (batches : Nat)
    (diag : Option Diagnostics) (aborted : Bool) (r : Settled) : Prop where
  bounded : 1 + (sends r.events).length ≤ max policy.maxAttempts 1
  follows : Follows firstAttempt (sends r.events)
  endsAtAbort : EndsAtAbort r.events
  silent : aborted = true → sends r.events = []
  set : aborted = true ∨ .abortSeen ∈ r.events → r.aborted = true
  result : r.result = (sends r.events).getLast?.getD firstAttempt
  diag : r.diag = if r.result.success && !(sends r.events).isEmpty then
      diag.map (·.recordDrop .retryableFailureRecovered batches)
    else diag

theorem resolve_resolves (arith : Arithmetic) (policy : RetryPolicyConfig) (around : Surroundings)
    (firstAttempt : Wire.WireResult) (batches : Nat) (diag : Option Diagnostics) (aborted : Bool) :
    Resolves policy firstAttempt batches diag aborted
      (resolve arith policy around firstAttempt batches diag aborted) := by
  have hbound : 1 + ((if 0 < policy.maxAttempts then policy.maxAttempts else 1) - 1) ≤
      max policy.maxAttempts 1 := by
    split <;> omega
  unfold resolve
  split
  · refine ⟨le_max_right _ _, trivial, endsAtAbort_nil, fun _ => rfl,
      fun h => h.resolve_right List.not_mem_nil, rfl, ?_⟩
    rw [if_neg]
    simp [sends]
  · have hloops := @retryFrom_loops arith around
      (arith.add (around.now 0) (arith.nanos policy.retryBudget)) firstAttempt
      ((if 0 < policy.maxAttempts then policy.maxAttempts else 1) - 1) 1 none aborted
    dsimp only
    rw [runRetryLoop]
    generalize retryFrom arith around _ firstAttempt _ 1 none aborted = retried at hloops ⊢
    have hbounded : 1 + (sends retried.events).length ≤ max policy.maxAttempts 1 :=
      le_trans (Nat.add_le_add_left hloops.bounded 1) hbound
    have hlast : retried.last = (sends retried.events).getLast? := by
      rw [hloops.last, Option.or_none]
    cases hsends : (sends retried.events).getLast? with
    | none =>
        rw [hsends] at hlast
        rw [hlast]
        refine ⟨hbounded, hloops.follows, hloops.endsAtAbort, hloops.silent, hloops.set, ?_, ?_⟩
        · rw [hsends]
          rfl
        · rw [List.getLast?_eq_none_iff.mp hsends, if_neg]
          simp
    | some result =>
        rw [hsends] at hlast
        rw [hlast]
        refine ⟨hbounded, hloops.follows, hloops.endsAtAbort, hloops.silent, hloops.set, ?_, ?_⟩
        · rw [hsends]
          rfl
        · have hne : (sends retried.events).isEmpty = false := by
            cases hnil : sends retried.events with
            | nil =>
                rw [hnil] at hsends
                cases hsends
            | cons => rfl
          simp only [hne, Bool.not_false, Bool.and_true]

/-- A settlement makes so many sends at most, each retry after a failure that may be
retried and none after `Abort` is seen, and records one outcome, of its last result. -/
theorem settle_exact (arith : Arithmetic) (policy : RetryPolicyConfig) (around : Surroundings)
    (firstAttempt : Wire.WireResult) (stage : String) (batches : Nat) (diag : Option Diagnostics)
    (aborted : Bool) :
    let s := settle arith policy around firstAttempt stage batches diag aborted
    let retries := sends s.events
    let last := retries.getLast?.getD firstAttempt
    1 + retries.length ≤ max policy.maxAttempts 1 ∧
    Follows firstAttempt retries ∧
    EndsAtAbort s.events ∧
    (aborted = true → retries = []) ∧
    (aborted = true ∨ .abortSeen ∈ s.events → s.aborted = true) ∧
    (diag = none → s.diag = none) ∧
    ∀ d, diag = some d →
      ∃ d', s.diag = some d' ∧ Recorded d d' last batches (!retries.isEmpty) := by
  intro s retries last
  have R := resolve_resolves arith policy around firstAttempt batches diag aborted
  have hdiag : s.diag = (resolve arith policy around firstAttempt batches diag aborted).diag.map
      fun d => recordOutcome d (WireResult.ofWire s.result) stage batches := rfl
  have hresult : s.result = last := R.result
  rw [R.diag] at hdiag
  refine ⟨R.bounded, R.follows, R.endsAtAbort, R.silent, R.set, ?_, ?_⟩
  · rintro rfl
    rw [hdiag]
    split <;> rfl
  · rintro d rfl
    split at hdiag
    · next hrecovered =>
      obtain ⟨hsuccess, hretried⟩ := Bool.and_eq_true_iff.mp hrecovered
      refine ⟨_, hdiag, ?_⟩
      rw [show (!retries.isEmpty) = true from hretried, ← hresult]
      exact recordOutcome_recovered d stage batches hsuccess
    · next hplain =>
      refine ⟨_, hdiag, ?_⟩
      rw [← hresult]
      have hrecorded := recordOutcome_recorded d s.result stage batches
      cases hsuccess : s.result.success with
      | false => exact hrecorded.of_failed hsuccess
      | true =>
          have hnone : (!retries.isEmpty) = false := by
            rw [Bool.and_eq_true, not_and, Bool.not_eq_true] at hplain
            exact hplain hsuccess
          rw [hnone]
          exact hrecorded

/-! ### The settlement of the exporter's step -/

theorem runRetryLoop_of_follows {first : WireResult} {previous : Wire.WireResult}
    {results : List Wire.WireResult} {allowed : Nat} {last : Option WireResult}
    (hprevious : last.getD first = WireResult.ofWire previous) (h : Follows previous results)
    (hallowed : results.length ≤ allowed) :
    Pipeline.runRetryLoop first allowed
        (results.map fun result => .result (WireResult.ofWire result)) last =
      .ok ((results.getLast?.map WireResult.ofWire).or last) := by
  induction results generalizing previous allowed last with
  | nil =>
      cases allowed with
      | zero => rfl
      | succ allowed =>
          unfold Pipeline.runRetryLoop
          dsimp only [List.map_nil]
          split <;> rfl
  | cons result results ih =>
      cases allowed with
      | zero => exact absurd hallowed (Nat.not_succ_le_zero _)
      | succ allowed =>
          obtain ⟨hretryable, hfailed, hrest⟩ := h
          unfold Pipeline.runRetryLoop
          dsimp only [List.map_cons]
          rw [hprevious, if_neg]
          · have hlast : (some (WireResult.ofWire result)).getD first = WireResult.ofWire result :=
              rfl
            have hrun := ih hlast hrest (Nat.le_of_succ_le_succ hallowed)
            refine hrun.trans ?_
            rw [List.getLast?_cons]
            cases results.getLast? <;> rfl
          · simp [WireResult.ofWire, hretryable, hfailed]

theorem resolve_refines {policy : RetryPolicyConfig} {firstAttempt : Wire.WireResult}
    {batches : Nat} {d : Diagnostics} {aborted : Bool} {r : Settled}
    (R : Resolves policy firstAttempt batches (some d) aborted r) :
    ∃ d', r.diag = some d' ∧
      Pipeline.resolve policy.maxAttempts d (WireResult.ofWire firstAttempt)
        ((sends r.events).map fun result => .result (WireResult.ofWire result)) batches =
        .ok (WireResult.ofWire r.result, d') := by
  have hbounded := R.bounded
  have hfirst : (none : Option WireResult).getD (WireResult.ofWire firstAttempt) =
      WireResult.ofWire firstAttempt := rfl
  have hallowed : (sends r.events).length ≤
      (if 0 < policy.maxAttempts then policy.maxAttempts else 1) - 1 := by
    split <;> omega
  have hloop := runRetryLoop_of_follows hfirst R.follows hallowed
  unfold Pipeline.resolve
  split
  · next hstop =>
    have hnone : sends r.events = [] := by
      have hfollows := R.follows
      cases hsends : sends r.events with
      | nil => rfl
      | cons result results =>
          rw [hsends] at hfollows
          obtain ⟨hretryable, hfailed, -⟩ := hfollows
          simp [WireResult.ofWire, hretryable, hfailed] at hstop
    refine ⟨d, ?_, ?_⟩
    · rw [R.diag, hnone]
      simp
    · rw [R.result, hnone]
      rfl
  · rw [hloop, Option.or_none]
    cases hlast : (sends r.events).getLast? with
    | none =>
        refine ⟨d, ?_, ?_⟩
        · rw [R.diag, List.getLast?_eq_none_iff.mp hlast]
          simp
        · rw [R.result, hlast]
          rfl
    | some result =>
        have hresult : r.result = result := by
          rw [R.result, hlast]
          rfl
        have hne : (sends r.events).isEmpty = false := by
          cases hnil : sends r.events with
          | nil =>
              rw [hnil] at hlast
              cases hlast
          | cons => rfl
        refine
          ⟨if result.success then d.recordDrop .retryableFailureRecovered batches else d, ?_, ?_⟩
        · rw [R.diag, hresult, hne]
          cases result.success <;> rfl
        · rw [hresult]
          rfl

/-- The settlement of the exporter's step is this one, its attempts the retries made. -/
theorem settle_refines (arith : Arithmetic) (policy : RetryPolicyConfig) (around : Surroundings)
    (firstAttempt : Wire.WireResult) (stage : String) (batches : Nat) (d : Diagnostics)
    (aborted : Bool) :
    let s := settle arith policy around firstAttempt stage batches (some d) aborted
    ∃ d', s.diag = some d' ∧
      Pipeline.settle policy.maxAttempts d (WireResult.ofWire firstAttempt)
        ((sends s.events).map fun result => .result (WireResult.ofWire result)) stage batches =
        .ok (s.result.success, d') := by
  intro s
  obtain ⟨d', hdiag, hresolve⟩ := resolve_refines
    (resolve_resolves arith policy around firstAttempt batches (some d) aborted)
  refine ⟨recordOutcome d' (WireResult.ofWire s.result) stage batches, ?_, ?_⟩
  · exact congrArg (Option.map _) hdiag
  · unfold Pipeline.settle
    rw [show sends s.events = sends (resolve arith policy around firstAttempt batches (some d)
      aborted).events from rfl, hresolve]
    rfl

end RetryEngine

end Microtel.Pipeline
