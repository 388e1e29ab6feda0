import Mathlib.Data.List.TakeWhile
import Mathlib.Data.Nat.Digits.Defs
import Microtel.Wire.HttpWireCodec

/-!
What an answer over HTTP comes to, against the retry matrix: overload is retried
whatever the body, success is a body that reads, everything else is final. The
codec decodes the body before it looks at the status, so a body in a coding it
cannot undo makes an overload answer final.
-/

namespace Microtel.Wire

open Transport Concentrator

/-! ### Retry-After -/

/-- The text of a number, in decimal digits. -/
structure DecimalText (s : Bytes) (n : Nat) : Prop where
  nonempty : s ≠ []
  digits : ∀ c ∈ s, isDecimal c = true
  value : Nat.ofDigits 10 (s.reverse.map fun c => c.toNat - 0x30) = n

theorem foldl_decimal (s : Bytes) :
    s.foldl (fun n c => 10 * n + (c.toNat - 0x30)) 0 =
      Nat.ofDigits 10 (s.reverse.map fun c => c.toNat - 0x30) := by
  induction s using List.reverseRecOn with
  | nil => rfl
  | append_singleton s c ih =>
      rw [List.foldl_append, List.foldl_cons, List.foldl_nil, ih, List.reverse_concat,
        List.map_cons, Nat.ofDigits_cons]
      exact Nat.add_comm ..

theorem takeWhile_dropWhile_nil {s : Bytes} (h : s.dropWhile isDecimal = []) :
    s.takeWhile isDecimal = s := by
  have hsplit := List.takeWhile_append_dropWhile (p := isDecimal) (l := s)
  rwa [h, List.append_nil] at hsplit

theorem decimalDigits_whole_iff (s : Bytes) (n : Nat) :
    decimalDigits s = some (n, []) ↔ DecimalText s n := by
  unfold decimalDigits
  dsimp only
  constructor
  · intro h
    by_cases hempty : s.takeWhile isDecimal = []
    · rw [if_pos hempty] at h
      cases h
    · rw [if_neg hempty, Option.some.injEq, Prod.mk.injEq] at h
      have hall := takeWhile_dropWhile_nil h.2
      rw [hall] at h hempty
      refine ⟨hempty, List.takeWhile_eq_self_iff.mp hall, ?_⟩
      rw [← foldl_decimal]
      exact h.1
  · rintro ⟨hne, hdigits, hvalue⟩
    have hall : s.takeWhile isDecimal = s := List.takeWhile_eq_self_iff.mpr hdigits
    have hnone : s.dropWhile isDecimal = [] := by
      rw [List.dropWhile_eq_nil_iff]
      exact hdigits
    rw [hall, if_neg hne, hnone, foldl_decimal, hvalue]

/-- The first `retry-after` field is a number of seconds, in 32 bits. -/
def WholeSeconds (headers : List HeaderField) (seconds : Nat) : Prop :=
  ∃ value, findHeaderValue headers (ascii "retry-after") = some value ∧
    DecimalText value seconds ∧ seconds < 2 ^ 32

theorem fromCharsUInt32_whole_iff (s : Bytes) (v : UInt32) :
    fromCharsUInt32 s = some (v, []) ↔ DecimalText s v.toNat := by
  rw [← decimalDigits_whole_iff]
  unfold fromCharsUInt32
  constructor
  · intro h
    cases hdigits : decimalDigits s with
    | none =>
        rw [hdigits] at h
        cases h
    | some p =>
        obtain ⟨n, rest⟩ := p
        rw [hdigits] at h
        dsimp only at h
        by_cases hn : n < 2 ^ 32
        · rw [if_pos hn, Option.some.injEq, Prod.mk.injEq] at h
          obtain ⟨rfl, rfl⟩ := h
          rw [UInt32.toNat_ofNat_of_lt' hn]
        · rw [if_neg hn] at h
          cases h
  · intro h
    rw [h]
    dsimp only
    rw [if_pos v.toNat_lt, UInt32.ofNat_toNat]

theorem parseRetryAfter_iff (headers : List HeaderField) (ms : Int64) :
    parseRetryAfter headers = some ms ↔
      ∃ seconds, WholeSeconds headers seconds ∧ ms = Int64.ofNat seconds * 1000 := by
  unfold parseRetryAfter WholeSeconds
  cases findHeaderValue headers (ascii "retry-after") with
  | none => simp
  | some value =>
      constructor
      · intro h
        rcases hchars : fromCharsUInt32 value with _ | ⟨seconds, _ | rest⟩
        · simp [hchars] at h
        · simp only [hchars, Option.some.injEq] at h
          exact ⟨seconds.toNat,
            ⟨value, rfl, (fromCharsUInt32_whole_iff value seconds).mp hchars, seconds.toNat_lt⟩,
              h.symm⟩
        · simp [hchars] at h
      · rintro ⟨seconds, ⟨value', heq, htext, hlt⟩, rfl⟩
        cases heq
        have hvalue : (UInt32.ofNat seconds).toNat = seconds := UInt32.toNat_ofNat_of_lt' hlt
        have hchars : fromCharsUInt32 value = some (UInt32.ofNat seconds, []) := by
          rw [fromCharsUInt32_whole_iff, hvalue]
          exact htext
        simp only [hchars, hvalue]

/-! ### The retry matrix -/

def Overload (code : Int) : Prop := code = 429 ∨ code = 502 ∨ code = 503 ∨ code = 504

def Successful (code : Int) : Prop := 200 ≤ code ∧ code < 300

/-- Inflating the body stops at the ceiling. -/
def ExceedsCeiling (codec : HttpWireCodec) (result : TransportResult) : Prop :=
  result.responseBody ≠ [] ∧
    findHeaderValue result.responseHeaders (ascii "content-encoding") = some (ascii "gzip") ∧
    codec.gzip.decompress result.responseBody codec.maxDecompressedBytes = .error .tooLarge

/-- The body is in a coding the codec does not know, or is no gzip stream under
that label. -/
def Undecodable (codec : HttpWireCodec) (result : TransportResult) : Prop :=
  result.responseBody ≠ [] ∧
    ∃ encoding, findHeaderValue result.responseHeaders (ascii "content-encoding") = some encoding ∧
      encoding ≠ [] ∧ encoding ≠ ascii "identity" ∧
      (encoding = ascii "gzip" →
        codec.gzip.decompress result.responseBody codec.maxDecompressedBytes = .error .corrupt)

/-- The rows of the matrix for an answer that arrived. -/
structure ByMatrix (codec : HttpWireCodec) (result : TransportResult)
    (out : WireResult × List CodecDrop) : Prop where
  overload : Overload (parseStatusCode result.responseHeaders) → ¬ ExceedsCeiling codec result →
    out.1.success = false ∧ out.1.retryable = true ∧ CodecDrop.malformedResponse ∉ out.2 ∧
      ∀ ms, out.1.retryAfter = some ms ↔
        ∃ seconds, WholeSeconds result.responseHeaders seconds ∧ ms = Int64.ofNat seconds * 1000
  success : Successful (parseStatusCode result.responseHeaders) →
    (out.1.success = true ↔ ∃ body,
      decodeBody codec.gzip result codec.maxDecompressedBytes = .ok body ∧
        (body = [] ∨ Proto.WellFormed body))
  final : ¬ Overload (parseStatusCode result.responseHeaders) →
    ¬ Successful (parseStatusCode result.responseHeaders) →
      out.1.success = false ∧ out.1.retryable = false

theorem decodeBody_tooLarge_iff (codec : HttpWireCodec) (result : TransportResult) :
    decodeBody codec.gzip result codec.maxDecompressedBytes = .error .tooLarge ↔
      ExceedsCeiling codec result := by
  unfold decodeBody ExceedsCeiling
  dsimp only
  cases findHeaderValue result.responseHeaders (ascii "content-encoding") with
  | none => simp
  | some encoding =>
      by_cases hplain : encoding = [] ∨ encoding = ascii "identity" ∨ result.responseBody = []
      · simp only [if_pos hplain, Option.some.injEq]
        refine iff_of_false (by simp) ?_
        rintro ⟨hbody, rfl, -⟩
        rcases hplain with h | h | h
        · exact absurd h (by decide)
        · exact absurd h (by decide)
        · exact hbody h
      · simp only [if_neg hplain, Option.some.injEq]
        push Not at hplain
        by_cases hgzip : encoding = ascii "gzip"
        · simp only [hgzip, ne_eq, not_true_eq_false, if_false, true_and]
          cases hinflate : codec.gzip.decompress result.responseBody codec.maxDecompressedBytes with
          | ok inflated => simp
          | error e => cases e <;> simp [hplain.2.2]
        · simp [hgzip]

theorem decodeBody_malformed_iff (codec : HttpWireCodec) (result : TransportResult) :
    decodeBody codec.gzip result codec.maxDecompressedBytes = .error .malformed ↔
      Undecodable codec result := by
  unfold decodeBody Undecodable
  dsimp only
  cases findHeaderValue result.responseHeaders (ascii "content-encoding") with
  | none => simp
  | some encoding =>
      by_cases hplain : encoding = [] ∨ encoding = ascii "identity" ∨ result.responseBody = []
      · simp only [if_pos hplain, Option.some.injEq]
        refine iff_of_false (by simp) ?_
        rintro ⟨hbody, _, rfl, hne, hidentity, -⟩
        rcases hplain with h | h | h
        · exact hne h
        · exact hidentity h
        · exact hbody h
      · simp only [if_neg hplain, Option.some.injEq, exists_eq_left']
        push Not at hplain
        by_cases hgzip : encoding = ascii "gzip"
        · simp only [hgzip, ne_eq, not_true_eq_false, if_false, true_imp_iff]
          have hne : ascii "gzip" ≠ [] := by decide
          have hidentity : ascii "gzip" ≠ ascii "identity" := by decide
          cases hinflate : codec.gzip.decompress result.responseBody codec.maxDecompressedBytes with
          | ok inflated => simp
          | error e => cases e <;> simp [hplain.2.2, hne, hidentity]
        · simp [hgzip, hplain.1, hplain.2.1, hplain.2.2]

/-! ### The codec -/

theorem classifyStatus_successful {code : Int} (h : Successful code) (headers : List HeaderField) :
    classifyStatus code headers = { success := true } := by
  have hrange : kHttpSuccessMin ≤ code ∧ code < kHttpSuccessMax := h
  unfold classifyStatus
  rw [if_pos hrange]

theorem classifyStatus_overload {code : Int} (h : Overload code) (headers : List HeaderField) :
    classifyStatus code headers = { retryable := true, retryAfter := parseRetryAfter headers } := by
  have hrange : ¬ (kHttpSuccessMin ≤ code ∧ code < kHttpSuccessMax) := by
    rcases h with rfl | rfl | rfl | rfl <;> decide
  have hcodes : code = kHttpTooManyRequests ∨ code = kHttpBadGateway ∨
      code = kHttpServiceUnavailable ∨ code = kHttpGatewayTimeout := h
  unfold classifyStatus
  rw [if_neg hrange, if_pos hcodes]

theorem classifyStatus_other {code : Int} (h : ¬ Overload code) (h' : ¬ Successful code)
    (headers : List HeaderField) : (classifyStatus code headers).success = false ∧
      (classifyStatus code headers).retryable = false := by
  have hrange : ¬ (kHttpSuccessMin ≤ code ∧ code < kHttpSuccessMax) := h'
  have hcodes : ¬ (code = kHttpTooManyRequests ∨ code = kHttpBadGateway ∨
      code = kHttpServiceUnavailable ∨ code = kHttpGatewayTimeout) := h
  unfold classifyStatus
  rw [if_neg hrange, if_neg hcodes]
  exact ⟨rfl, rfl⟩

theorem Overload.not_successful {code : Int} (h : Overload code) : ¬ Successful code := by
  rintro ⟨hmin, hmax⟩
  rcases h with h | h | h | h <;> omega

namespace HttpWireCodec

variable {codec : HttpWireCodec} {result : TransportResult}

theorem classifyResponse_error {e : BodyError}
    (h : decodeBody codec.gzip result codec.maxDecompressedBytes = .error e) :
    codec.classifyResponse result = bodyFailure e := by
  unfold classifyResponse
  rw [h]

theorem bodyFailure_final (e : BodyError) :
    (bodyFailure e).1.success = false ∧ (bodyFailure e).1.retryable = false := by
  cases e <;> exact ⟨rfl, rfl⟩

/-- Of a decoded body only the excerpt is kept, unless the status is a success. -/
theorem classifyResponse_failure {body : Bytes}
    (h : decodeBody codec.gzip result codec.maxDecompressedBytes = .ok body)
    (hcode : ¬ Successful (parseStatusCode result.responseHeaders)) :
    codec.classifyResponse result =
      ({ classifyStatus (parseStatusCode result.responseHeaders) result.responseHeaders with
          responseExcerpt := buildExcerpt body }, []) := by
  have hstatus : (classifyStatus (parseStatusCode result.responseHeaders)
      result.responseHeaders).success = false := by
    by_cases hover : Overload (parseStatusCode result.responseHeaders)
    · rw [classifyStatus_overload hover]
    · exact (classifyStatus_other hover hcode _).1
  unfold classifyResponse
  rw [h]
  simp only [hstatus, Bool.false_and, Bool.false_eq_true, if_false]

theorem classifyResponse_success {body : Bytes}
    (h : decodeBody codec.gzip result codec.maxDecompressedBytes = .ok body)
    (hcode : Successful (parseStatusCode result.responseHeaders)) :
    (codec.classifyResponse result).1.success = true ↔ body = [] ∨ Proto.WellFormed body := by
  have hstatus := classifyStatus_successful hcode result.responseHeaders
  have hparses := Proto.unparseable_iff body
  unfold classifyResponse
  rw [h]
  simp only [hstatus, Bool.true_and]
  cases body with
  | nil => simp
  | cons b body =>
      simp only [List.isEmpty_cons, Bool.not_false, if_true, reduceCtorEq, false_or]
      by_cases hbad : (Proto.parseRejectedSpans (b :: body)).outcome = .unparseable
      · simp only [if_pos hbad]
        exact iff_of_false (by decide) (hparses.mp hbad)
      · simp only [if_neg hbad]
        exact iff_of_true trivial (not_not.mp fun hnot => hbad (hparses.mpr hnot))

/-- The matrix holds of every answer but an overload in a coding that cannot be
undone. -/
theorem classifyResponse_byMatrix_iff (codec : HttpWireCodec) (result : TransportResult) :
    ByMatrix codec result (codec.classifyResponse result) ↔
      ¬ (Overload (parseStatusCode result.responseHeaders) ∧ Undecodable codec result) := by
  constructor
  · rintro hmatrix ⟨hover, hbad⟩
    have hdecode := (decodeBody_malformed_iff codec result).mpr hbad
    have hceiling : ¬ ExceedsCeiling codec result := by
      rw [← decodeBody_tooLarge_iff, hdecode]
      simp
    obtain ⟨-, hretry, -⟩ := hmatrix.overload hover hceiling
    rw [classifyResponse_error hdecode, (bodyFailure_final .malformed).2] at hretry
    cases hretry
  · intro hgood
    constructor
    · intro hover hceiling
      cases hdecode : decodeBody codec.gzip result codec.maxDecompressedBytes with
      | error e =>
          cases e with
          | malformed =>
              exact absurd ⟨hover, (decodeBody_malformed_iff codec result).mp hdecode⟩ hgood
          | tooLarge => exact absurd ((decodeBody_tooLarge_iff codec result).mp hdecode) hceiling
      | ok body =>
          rw [classifyResponse_failure hdecode hover.not_successful, classifyStatus_overload hover]
          exact ⟨rfl, rfl, by simp, parseRetryAfter_iff result.responseHeaders⟩
    · intro hcode
      cases hdecode : decodeBody codec.gzip result codec.maxDecompressedBytes with
      | error e =>
          rw [classifyResponse_error hdecode, (bodyFailure_final e).1]
          simp
      | ok body =>
          rw [classifyResponse_success hdecode hcode]
          simp
    · intro hover hcode
      cases hdecode : decodeBody codec.gzip result codec.maxDecompressedBytes with
      | error e =>
          rw [classifyResponse_error hdecode]
          exact bodyFailure_final e
      | ok body =>
          rw [classifyResponse_failure hdecode hcode]
          exact classifyStatus_other hover hcode result.responseHeaders

end HttpWireCodec

/-- A proxy's 503, its page in a coding nobody asked for. -/
def overloadedProxy : TransportResult where
  success := true
  responseHeaders := [⟨ascii ":status", ascii "503"⟩, ⟨ascii "retry-after", ascii "7"⟩,
    ⟨ascii "content-encoding", ascii "br"⟩]
  responseBody := [0x1B]

/-- A codec whose zlib refuses everything. -/
def refusingCodec : HttpWireCodec where
  host := ascii "collector"
  scheme := ascii "https"
  gzip := { compress := fun _ => none, decompress := fun _ _ => .error .corrupt }

/-- It is given up and counted as malformed. -/
theorem classifyResponse_overloadedProxy :
    (refusingCodec.classifyResponse overloadedProxy).1.retryable = false ∧
      CodecDrop.malformedResponse ∈ (refusingCodec.classifyResponse overloadedProxy).2 ∧
      ¬ ByMatrix refusingCodec overloadedProxy
        (refusingCodec.classifyResponse overloadedProxy) := by
  have hdecode : decodeBody refusingCodec.gzip overloadedProxy refusingCodec.maxDecompressedBytes =
      .error .malformed := rfl
  have hover : Overload (parseStatusCode overloadedProxy.responseHeaders) :=
    .inr (.inr (.inl (by decide)))
  have hceiling : ¬ ExceedsCeiling refusingCodec overloadedProxy := by
    rw [← decodeBody_tooLarge_iff, hdecode]
    simp
  rw [HttpWireCodec.classifyResponse_error hdecode]
  refine ⟨rfl, by simp [bodyFailure], ?_⟩
  intro hmatrix
  obtain ⟨-, hretry, -⟩ := hmatrix.overload hover hceiling
  cases hretry

end Microtel.Wire
