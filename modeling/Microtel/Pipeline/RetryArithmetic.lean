import Microtel.Lib.Signed64
import Microtel.Pipeline.RetryBudget
import Microtel.Wire.RetryInfo

/-!
Delays a server names, from the answer that names them to the wait: seconds become
milliseconds in the codec, milliseconds become nanoseconds at the look-ahead, all in
64-bit signed arithmetic.
-/

namespace Microtel.Pipeline.RetryEngine

open Signed64 Wire

/-- In 64 bits. -/
def int64 : Arithmetic where
  nanos ms := wrap (ms * 1000000)
  add a b := wrap (a + b)

def kMillisPerSecond : Int64 := 1000
def kNanosPerMilli : Int32 := 1000000

/-- The last line of `ParseDurationMs`. -/
def durationMs (d : Grpc.Duration) : Int64 :=
  d.seconds * kMillisPerSecond + (d.nanos / kNanosPerMilli).toInt64

/-- The delay a Duration stands for. -/
def exactMs (d : Grpc.Duration) : Int := d.seconds.toInt * 1000 + d.nanos.toInt.tdiv 1000000

/-- Where a `retry_after` comes from. -/
inductive RetryAfter
  | grpcStatusDetails (detailsBin : Bytes)
  | httpHeaders (headers : List Transport.HeaderField)
  | exportTransport (retryAfter : Option Int64)

namespace RetryAfter

/-- The delay the code hands on. -/
def computed : RetryAfter → Option Int64
  | .grpcStatusDetails detailsBin => Grpc.tryDecodeRetryDelay durationMs detailsBin
  | .httpHeaders headers => parseRetryAfter headers
  | .exportTransport retryAfter => retryAfter

/-- The Duration of the RetryInfo, for a gRPC answer that has one. -/
def duration : RetryAfter → Option Grpc.Duration
  | .grpcStatusDetails detailsBin => Grpc.tryDecodeRetryDelay id detailsBin
  | _ => none

/-- The seconds of a Retry-After header, if it has the integer form. -/
def headerSeconds (headers : List Transport.HeaderField) : Option UInt32 :=
  match findHeaderValue headers (Concentrator.ascii "retry-after") with
  | none => none
  | some value =>
      match fromCharsUInt32 value with
      | some (secs, []) => some secs
      | _ => none

/-- The delay the server means, in milliseconds. -/
def meant : RetryAfter → Option Int
  | .grpcStatusDetails detailsBin => Grpc.tryDecodeRetryDelay exactMs detailsBin
  | .httpHeaders headers => (headerSeconds headers).map fun secs => (secs.toNat : Int) * 1000
  | .exportTransport retryAfter => retryAfter.map Int64.toInt

/-- Every product and sum on the way to the delay fits. -/
def NoOverflow : RetryAfter → Prop
  | .grpcStatusDetails detailsBin => ∀ d, Grpc.tryDecodeRetryDelay id detailsBin = some d →
      InRange (d.seconds.toInt * 1000) ∧ InRange (exactMs d)
  | .httpHeaders headers => ∀ secs, headerSeconds headers = some secs →
      InRange ((secs.toNat : Int) * 1000)
  | .exportTransport _ => True

end RetryAfter

/-- The jittered backoff: never negative. -/
abbrev Jittered := { ms : Int64 // 0 ≤ ms.toInt }

/-- The longer of the jittered backoff and the delay meant. -/
def longest (jittered : Jittered) (retryAfter : RetryAfter) : Int :=
  max jittered.1.toInt (retryAfter.meant.getD 0)

def backoffOf (jittered : Jittered) (retryAfter : RetryAfter) : Int :=
  computeBackoff jittered.1.toInt retryAfter.computed

/-- Whether the look-ahead lets the wait begin. -/
def startsWait (now deadline : Int64) (jittered : Jittered) (retryAfter : RetryAfter) : Bool :=
  !decide (deadline.toInt ≤ int64.add now.toInt (int64.nanos (backoffOf jittered retryAfter)))

/-- A delay is computed, turned into nanoseconds and added to the clock without
overflow; the backoff is not negative; and a delay that reaches the deadline ends the
retries. -/
structure DelaySound (now deadline : Int64) (jittered : Jittered) (retryAfter : RetryAfter) :
    Prop where
  delay : retryAfter.NoOverflow
  nonneg : 0 ≤ backoffOf jittered retryAfter
  nanos : InRange (backoffOf jittered retryAfter * 1000000)
  sum : InRange (now.toInt + backoffOf jittered retryAfter * 1000000)
  ends : deadline.toInt ≤ now.toInt + longest jittered retryAfter * 1000000 →
    startsWait now deadline jittered retryAfter = false

/-- The bounds within which the arithmetic holds: the delay of a RetryInfo is not
below the least 64-bit count of milliseconds, and the time left on the clock covers
the longest backoff. -/
structure Bounded (now : Int64) (jittered : Jittered) (retryAfter : RetryAfter) : Prop where
  seconds : ∀ d, retryAfter.duration = some d →
    -9223372036854775 ≤ d.seconds.toInt ∧ -9223372036854775808 ≤ exactMs d
  room : longest jittered retryAfter ≤ (9223372036854775807 - max now.toInt 0) / 1000000

/-! ### The arithmetic -/

theorem toInt_durationMs {d : Grpc.Duration} (hseconds : InRange (d.seconds.toInt * 1000))
    (hsum : InRange (exactMs d)) : (durationMs d).toInt = exactMs d := by
  have hmul : (d.seconds * kMillisPerSecond).toInt = d.seconds.toInt * 1000 := toInt_mul hseconds
  have hdiv : (d.nanos / kNanosPerMilli).toInt64.toInt = d.nanos.toInt.tdiv 1000000 := by
    rw [Int32.toInt_toInt64, Int32.toInt_div_of_ne_right _ _ (by decide)]
    rfl
  rw [durationMs, toInt_add, hmul, hdiv]
  · rfl
  · rw [hmul, hdiv]
    exact hsum

theorem parseRetryAfter_eq (headers : List Transport.HeaderField) : parseRetryAfter headers =
    (RetryAfter.headerSeconds headers).map fun secs => Int64.ofNat secs.toNat * 1000 := by
  unfold parseRetryAfter RetryAfter.headerSeconds
  cases findHeaderValue headers (Concentrator.ascii "retry-after") with
  | none => rfl
  | some value =>
      rcases hchars : fromCharsUInt32 value with _ | ⟨secs, _ | rest⟩ <;> simp only [hchars] <;> rfl

theorem toInt_headerDelay (secs : UInt32) :
    (Int64.ofNat secs.toNat * 1000).toInt = (secs.toNat : Int) * 1000 := by
  have hsecs := secs.toNat_lt
  have hof : (Int64.ofNat secs.toNat).toInt = secs.toNat := Int64.toInt_ofNat_of_lt (by omega)
  have hmul : InRange ((Int64.ofNat secs.toNat).toInt * (1000 : Int64).toInt) := by
    rw [hof]
    constructor <;> simp <;> omega
  rw [toInt_mul hmul, hof]
  rfl

/-- Without overflow, the delay handed on is the one meant. -/
theorem RetryAfter.computed_eq {retryAfter : RetryAfter} (h : retryAfter.NoOverflow) :
    retryAfter.computed.map Int64.toInt = retryAfter.meant := by
  cases retryAfter with
  | grpcStatusDetails detailsBin =>
      simp only [computed, meant]
      rw [Grpc.tryDecodeRetryDelay_map durationMs, Grpc.tryDecodeRetryDelay_map exactMs]
      cases hd : Grpc.tryDecodeRetryDelay id detailsBin with
      | none => rfl
      | some d =>
          obtain ⟨hseconds, hsum⟩ := h d hd
          exact congrArg some (toInt_durationMs hseconds hsum)
  | httpHeaders headers =>
      simp only [computed, meant]
      rw [parseRetryAfter_eq, Option.map_map]
      exact Option.map_congr fun secs _ => toInt_headerDelay secs
  | exportTransport retryAfter => rfl

theorem computeBackoff_eq_max (jittered : Int) (delay : Option Int64) (h : 0 ≤ jittered) :
    computeBackoff jittered delay = max jittered ((delay.map Int64.toInt).getD 0) := by
  cases delay with
  | none => exact (max_eq_left h).symm
  | some after =>
      simp only [computeBackoff, Option.map_some, Option.getD_some]
      split
      · next hlt => exact (max_eq_right hlt.le).symm
      · next hle => exact (max_eq_left (not_lt.mp hle)).symm

theorem backoffOf_eq_longest {jittered : Jittered} {retryAfter : RetryAfter}
    (h : retryAfter.NoOverflow) : backoffOf jittered retryAfter = longest jittered retryAfter := by
  rw [backoffOf, computeBackoff_eq_max _ _ jittered.2, RetryAfter.computed_eq h, longest]

theorem backoffOf_nonneg (jittered : Jittered) (retryAfter : RetryAfter) :
    0 ≤ backoffOf jittered retryAfter := by
  rw [backoffOf, computeBackoff_eq_max _ _ jittered.2]
  exact le_max_of_le_left jittered.2

/-- The bounds leave no product and no sum without room. -/
theorem Bounded.noOverflow {now : Int64} {jittered : Jittered} {retryAfter : RetryAfter}
    (h : Bounded now jittered retryAfter) : retryAfter.NoOverflow := by
  have hnow := inRange_toInt now
  have hlongest := h.room
  cases retryAfter with
  | grpcStatusDetails detailsBin =>
      intro d hd
      obtain ⟨hlow, hsum⟩ := h.seconds d hd
      have hmeant : (RetryAfter.grpcStatusDetails detailsBin).meant = some (exactMs d) := by
        rw [RetryAfter.meant, Grpc.tryDecodeRetryDelay_map exactMs, hd]
        rfl
      have hle : exactMs d ≤ longest jittered (.grpcStatusDetails detailsBin) := by
        rw [longest, hmeant]
        exact le_max_right _ _
      have hnanos := Int.natAbs_tdiv_le_natAbs d.nanos.toInt 1000000
      have hnanosLow := d.nanos.le_toInt
      have hnanosHigh := d.nanos.toInt_lt
      have hexact : exactMs d = d.seconds.toInt * 1000 + d.nanos.toInt.tdiv 1000000 := rfl
      generalize d.nanos.toInt.tdiv 1000000 = millis at hnanos hexact
      have hhigh : exactMs d ≤ 9223372036854 := by omega
      refine ⟨⟨by omega, by omega⟩, hsum, by omega⟩
  | httpHeaders headers =>
      intro secs _
      have hsecs := secs.toNat_lt
      constructor <;> omega
  | exportTransport retryAfter => trivial

/-- A delay is sound if and only if it is within the bounds. -/
theorem delaySound_iff (now deadline : Int64) (jittered : Jittered) (retryAfter : RetryAfter) :
    DelaySound now deadline jittered retryAfter ↔ Bounded now jittered retryAfter := by
  have hnow := inRange_toInt now
  have hnonneg := backoffOf_nonneg jittered retryAfter
  constructor
  · intro h
    refine ⟨?_, ?_⟩
    · intro d hd
      cases retryAfter with
      | grpcStatusDetails detailsBin =>
          obtain ⟨hseconds, hsum⟩ := h.delay d hd
          have hlow := hseconds.1
          exact ⟨by omega, hsum.1⟩
      | httpHeaders => cases hd
      | exportTransport => cases hd
    · rw [← backoffOf_eq_longest h.delay]
      have hnanos := h.nanos.2
      have hsum := h.sum.2
      omega
  · intro h
    have hdelay := h.noOverflow
    have hlongest := h.room
    have hbackoff : backoffOf jittered retryAfter = longest jittered retryAfter :=
      backoffOf_eq_longest hdelay
    rw [← hbackoff] at hlongest
    obtain ⟨hlow, hhigh⟩ := hnow
    have hnanos : InRange (backoffOf jittered retryAfter * 1000000) := ⟨by omega, by omega⟩
    have hsum : InRange (now.toInt + backoffOf jittered retryAfter * 1000000) :=
      ⟨by omega, by omega⟩
    refine ⟨hdelay, hnonneg, hnanos, hsum, fun hreaches => ?_⟩
    have hadd : int64.add now.toInt (int64.nanos (backoffOf jittered retryAfter)) =
        now.toInt + longest jittered retryAfter * 1000000 := by
      change wrap (now.toInt + wrap (backoffOf jittered retryAfter * 1000000)) = _
      rw [wrap_of_inRange hnanos, wrap_of_inRange hsum, hbackoff]
    rw [startsWait, hadd, decide_eq_true hreaches]
    rfl

/-- The status details of an overload with a RetryInfo of 9223372037 seconds. -/
def endlessDelay : RetryAfter :=
  .grpcStatusDetails (Concentrator.ascii
    "GjQKKHR5cGUuZ29vZ2xlYXBpcy5jb20vZ29vZ2xlLnJwYy5SZXRyeUluZm8SCAoGCIX6ha4i")

/-- A delay of 292 years wraps into the past, and the wait for it begins: here at the
clock's zero, with a minute left of the budget. -/
theorem endless_delay_waits :
    ¬DelaySound 0 60000000000 ⟨1000, by decide⟩ endlessDelay := by
  intro h
  have hstarts : startsWait 0 60000000000 ⟨1000, by decide⟩ endlessDelay = true := by
    decide +kernel
  have hreaches : (60000000000 : Int64).toInt ≤
      (0 : Int64).toInt + longest ⟨1000, by decide⟩ endlessDelay * 1000000 := by
    decide +kernel
  rw [h.ends hreaches] at hstarts
  cases hstarts

end Microtel.Pipeline.RetryEngine
