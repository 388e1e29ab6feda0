import Microtel.Wire.GrpcWireCodec
import Microtel.Wire.HttpClassification

/-!
When an answer over gRPC is a success. `std::from_chars` stops at the first
character that is no digit and takes a minus sign, and the codec asks for nothing
more, so some texts that are no status code read as the code for success.
-/

namespace Microtel.Wire.Grpc

open Transport Concentrator Octets

/-! ### The status text -/

theorem decimalText_zero_iff (s : Bytes) :
    DecimalText s 0 ↔ s ≠ [] ∧ ∀ c ∈ s, c = 0x30 := by
  have hfold : ∀ (s : Bytes) (n : Nat), (∀ c ∈ s, isDecimal c = true) →
      (s.foldl (fun n c => 10 * n + (c.toNat - 0x30)) n = 0 ↔ n = 0 ∧ ∀ c ∈ s, c = 0x30) := by
    intro s
    induction s with
    | nil => simp
    | cons c s ih =>
        intro n hdigits
        obtain ⟨hc, hs⟩ := List.forall_mem_cons.mp hdigits
        have hzero : c.toNat - 0x30 = 0 ↔ c = 0x30 := by
          unfold isDecimal at hc
          simp only [Bool.and_eq_true, decide_eq_true_eq, UInt8.le_iff_toNat_le] at hc
          have hlow : (0x30 : UInt8).toNat = 48 := rfl
          rw [hlow] at hc
          rw [← UInt8.toNat_inj, hlow]
          omega
        rw [List.foldl_cons, ih _ hs, List.forall_mem_cons, ← and_assoc, ← hzero]
        refine and_congr_left fun _ => ?_
        omega
  constructor
  · rintro ⟨hne, hdigits, hvalue⟩
    rw [← foldl_decimal] at hvalue
    exact ⟨hne, ((hfold s 0 hdigits).mp hvalue).2⟩
  · rintro ⟨hne, hzeros⟩
    have hdigits : ∀ c ∈ s, isDecimal c = true := by
      intro c hc
      rw [hzeros c hc]
      rfl
    refine ⟨hne, hdigits, ?_⟩
    rw [← foldl_decimal]
    exact (hfold s 0 hdigits).mpr ⟨rfl, hzeros⟩

/-- Zeros, and then no digit. -/
def LeadingZeros (s rest : Bytes) : Prop :=
  ∃ zeros, s = zeros ++ rest ∧ DecimalText zeros 0 ∧ ∀ c ∈ rest.head?, isDecimal c = false

theorem decimalDigits_zero_iff (s rest : Bytes) :
    decimalDigits s = some (0, rest) ↔ LeadingZeros s rest := by
  unfold decimalDigits LeadingZeros
  dsimp only
  constructor
  · intro h
    split at h
    · cases h
    · next hne =>
      obtain ⟨hvalue, rfl⟩ := Prod.mk.inj (Option.some.inj h)
      refine ⟨s.takeWhile isDecimal, List.takeWhile_append_dropWhile.symm, ⟨hne, ?_, ?_⟩, ?_⟩
      · intro c hc
        exact List.mem_takeWhile_imp hc
      · rw [← foldl_decimal]
        exact hvalue
      · intro c hc
        have hhead := List.head?_dropWhile_not isDecimal s
        rw [Option.mem_def.mp hc] at hhead
        simpa using hhead
  · rintro ⟨zeros, rfl, hzeros, hrest⟩
    have hstop : rest.takeWhile isDecimal = [] ∧ rest.dropWhile isDecimal = rest := by
      cases rest with
      | nil => exact ⟨rfl, rfl⟩
      | cons c rest =>
          have hc := hrest c rfl
          simp [hc]
    rw [List.takeWhile_append_of_pos hzeros.digits, List.dropWhile_append_of_pos hzeros.digits,
      hstop.1, hstop.2, List.append_nil, if_neg hzeros.nonempty]
    have hvalue := hzeros.value
    rw [← foldl_decimal] at hvalue
    rw [hvalue]

/-- Not a number, but it starts like zero: zeros before something else, or a minus
sign before zeros. -/
def LooseZero (s : Bytes) : Prop :=
  (∃ rest, rest ≠ [] ∧ LeadingZeros s rest) ∨ ∃ digits rest, s = 0x2D :: digits ∧
    LeadingZeros digits rest

theorem LeadingZeros.not_minus {s rest : Bytes} : ¬ LeadingZeros (0x2D :: s) rest := by
  rintro ⟨zeros, hs, hzeros, -⟩
  obtain ⟨hne, hall⟩ := (decimalText_zero_iff zeros).mp hzeros
  cases zeros with
  | nil => exact hne rfl
  | cons c zeros =>
      obtain ⟨rfl, -⟩ := List.cons.inj hs
      exact absurd (hall 0x2D List.mem_cons_self) (by decide)

theorem fromCharsInt_zero_iff (s rest : Bytes) : fromCharsInt s = some (0, rest) ↔
    LeadingZeros s rest ∨ ∃ digits, s = 0x2D :: digits ∧ LeadingZeros digits rest := by
  unfold fromCharsInt
  split
  · next digits =>
    have hright : (LeadingZeros (0x2D :: digits) rest ∨
        ∃ digits', 0x2D :: digits = 0x2D :: digits' ∧ LeadingZeros digits' rest) ↔
        decimalDigits digits = some (0, rest) := by
      rw [decimalDigits_zero_iff]
      constructor
      · rintro (h | ⟨digits', heq, h⟩)
        · exact absurd h LeadingZeros.not_minus
        · rwa [(List.cons.inj heq).2]
      · exact fun h => .inr ⟨digits, rfl, h⟩
    rw [hright]
    cases hread : decimalDigits digits with
    | none => simp
    | some p =>
        obtain ⟨n, rest'⟩ := p
        dsimp only
        split
        · simp only [Option.some.injEq, Prod.mk.injEq]
          refine and_congr_left fun _ => ?_
          omega
        · next hlarge =>
          simp only [reduceCtorEq, false_iff, Option.some.injEq, Prod.mk.injEq]
          rintro ⟨rfl, -⟩
          omega
  · next hminus =>
    have hright : (LeadingZeros s rest ∨ ∃ digits, s = 0x2D :: digits ∧ LeadingZeros digits rest) ↔
        decimalDigits s = some (0, rest) := by
      rw [decimalDigits_zero_iff]
      refine or_iff_left ?_
      rintro ⟨digits, rfl, -⟩
      exact hminus digits rfl
    rw [hright]
    cases hread : decimalDigits s with
    | none => simp
    | some p =>
        obtain ⟨n, rest'⟩ := p
        dsimp only
        split
        · simp only [Option.some.injEq, Prod.mk.injEq]
          refine and_congr_left fun _ => ?_
          omega
        · next hlarge =>
          simp only [reduceCtorEq, false_iff, Option.some.injEq, Prod.mk.injEq]
          rintro ⟨rfl, -⟩
          omega

/-- Without what follows, the zeros are the whole text. -/
theorem leadingZeros_nil_iff (s : Bytes) : LeadingZeros s [] ↔ DecimalText s 0 := by
  constructor
  · rintro ⟨zeros, rfl, hzeros, -⟩
    rwa [List.append_nil]
  · intro h
    exact ⟨s, (List.append_nil s).symm, h, by simp⟩

theorem statusCode_zero_iff (s : Bytes) : statusCode s = 0 ↔ DecimalText s 0 ∨ LooseZero s := by
  have hread : statusCode s = 0 ↔ ∃ rest, fromCharsInt s = some (0, rest) := by
    unfold statusCode
    cases fromCharsInt s with
    | none => simp [kGrpcStatusUnparsed]
    | some p => simp [Prod.ext_iff]
  rw [hread]
  simp only [fromCharsInt_zero_iff, ← leadingZeros_nil_iff]
  constructor
  · rintro ⟨rest, h | ⟨digits, rfl, h⟩⟩
    · by_cases hrest : rest = []
      · subst hrest
        exact .inl h
      · exact .inr (.inl ⟨rest, hrest, h⟩)
    · exact .inr (.inr ⟨digits, rest, rfl, h⟩)
  · rintro (h | ⟨rest, -, h⟩ | ⟨digits, rest, rfl, h⟩)
    · exact ⟨[], .inl h⟩
    · exact ⟨rest, .inl h⟩
    · exact ⟨rest, .inr ⟨digits, rfl, h⟩⟩

/-- A loose text is no number. -/
theorem LooseZero.not_decimal {s : Bytes} {n : Nat} (h : LooseZero s) : ¬ DecimalText s n := by
  intro hs
  rcases h with ⟨rest, hne, zeros, rfl, -, hstop⟩ | ⟨digits, rest, rfl, -⟩
  · cases rest with
    | nil => exact hne rfl
    | cons c rest =>
        have hc := hs.digits c (by simp)
        rw [hstop c rfl] at hc
        cases hc
  · have hminus := hs.digits 0x2D List.mem_cons_self
    cases hminus

/-! ### Frames -/

/-- A body and its message: nothing at all, or one frame of a flag, the length of
what follows in four octets, and the message as it is or compressed. -/
inductive Framed (gzip : Gzip) (maxDecompressed : Nat) : Bytes → Bytes → Prop
  | empty : Framed gzip maxDecompressed [] []
  | plain {size payload : Bytes} (hsize : size.length = 4)
      (hvalue : bigEndian size = payload.length) :
      Framed gzip maxDecompressed (0 :: size ++ payload) payload
  | compressed {size payload message : Bytes} (hsize : size.length = 4)
      (hvalue : bigEndian size = payload.length)
      (hinflate : gzip.decompress payload maxDecompressed = .ok message) :
      Framed gzip maxDecompressed (1 :: size ++ payload) message

variable {gzip : Gzip} {maxDecompressed : Nat}

theorem decodeResponseFrame_frame (flag : UInt8) {size : Bytes} (payload : Bytes)
    (hsize : size.length = 4) :
    decodeResponseFrame gzip (flag :: size ++ payload) maxDecompressed =
      if bigEndian size ≠ payload.length then .error .malformed
      else if flag = 0 then .ok payload
      else if flag ≠ 1 then .error .malformed
      else (gzip.decompress payload maxDecompressed).mapError frameError := by
  obtain _ | ⟨a, _ | ⟨b, _ | ⟨c, _ | ⟨d, _ | ⟨e, size⟩⟩⟩⟩⟩ := size
  · simp at hsize
  · simp at hsize
  · simp at hsize
  · simp at hsize
  · have hlength : (readFrameLength (flag :: [a, b, c, d] ++ payload)).toNat =
        bigEndian [a, b, c, d] := toNat_bigEndian a b c d
    have hlong : ¬ (flag :: [a, b, c, d] ++ payload).length < kGrpcFrameHeaderSize := by
      simp [kGrpcFrameHeaderSize]
    have hmessage : (flag :: [a, b, c, d] ++ payload).drop kGrpcFrameHeaderSize = payload := rfl
    have hflag : (flag :: [a, b, c, d] ++ payload).getD 0 0 = flag := rfl
    unfold decodeResponseFrame
    rw [if_neg (by simp), if_neg hlong]
    simp only [hlength, hmessage, hflag, kGrpcUncompressedFlag, kGrpcCompressedFlag]
  · simp at hsize

/-- Decoding accepts the framed bodies, with their messages. -/
theorem decodeResponseFrame_iff (body message : Bytes) :
    decodeResponseFrame gzip body maxDecompressed = .ok message ↔
      Framed gzip maxDecompressed body message := by
  constructor
  · intro h
    by_cases hempty : body = []
    · subst hempty
      have hmessage : message = [] := (Except.ok.inj h).symm
      subst hmessage
      exact .empty
    · by_cases hshort : body.length < kGrpcFrameHeaderSize
      · unfold decodeResponseFrame at h
        rw [if_neg hempty, if_pos hshort] at h
        cases h
      · obtain _ | ⟨flag, _ | ⟨a, _ | ⟨b, _ | ⟨c, _ | ⟨d, payload⟩⟩⟩⟩⟩ := body
        · exact absurd rfl hempty
        · exact absurd (by simp [kGrpcFrameHeaderSize]) hshort
        · exact absurd (by simp [kGrpcFrameHeaderSize]) hshort
        · exact absurd (by simp [kGrpcFrameHeaderSize]) hshort
        · exact absurd (by simp [kGrpcFrameHeaderSize]) hshort
        · have hsize : [a, b, c, d].length = 4 := rfl
          have hbody : flag :: a :: b :: c :: d :: payload = flag :: [a, b, c, d] ++ payload := rfl
          rw [hbody] at h ⊢
          have hframe := h.symm.trans (decodeResponseFrame_frame flag payload hsize)
          by_cases hvalue : bigEndian [a, b, c, d] = payload.length
          · rw [if_neg (not_not.mpr hvalue)] at hframe
            by_cases hplain : flag = 0
            · subst hplain
              rw [if_pos rfl] at hframe
              obtain rfl := Except.ok.inj hframe
              exact .plain hsize hvalue
            · rw [if_neg hplain] at hframe
              by_cases hflag : flag = 1
              · subst hflag
                rw [if_neg (not_not.mpr rfl)] at hframe
                cases hinflate : gzip.decompress payload maxDecompressed with
                | ok inflated =>
                    rw [hinflate] at hframe
                    obtain rfl := Except.ok.inj hframe
                    exact .compressed hsize hvalue hinflate
                | error e =>
                    rw [hinflate] at hframe
                    cases hframe
              · rw [if_pos hflag] at hframe
                cases hframe
          · rw [if_pos hvalue] at hframe
            cases hframe
  · intro h
    cases h with
    | empty => rfl
    | plain hsize hvalue =>
        rw [decodeResponseFrame_frame 0 _ hsize, if_neg (not_not.mpr hvalue), if_pos rfl]
    | compressed hsize hvalue hinflate =>
        rw [decodeResponseFrame_frame 1 _ hsize, if_neg (not_not.mpr hvalue), if_neg (by decide),
          if_neg (not_not.mpr rfl), hinflate]
        rfl

/-- What a frame carries comes back, if its length fits the frame's four octets. -/
theorem decodeResponseFrame_framePayload {body : Bytes} (compressed : Bool)
    (hlen : body.length < 2 ^ 32) :
    decodeResponseFrame gzip (framePayload body compressed) maxDecompressed =
      if compressed then (gzip.decompress body maxDecompressed).mapError frameError
      else .ok body := by
  have hframe : framePayload body compressed =
      (if compressed then 1 else 0) :: [UInt8.ofNat (body.length >>> 24),
        UInt8.ofNat (body.length >>> 16), UInt8.ofNat (body.length >>> 8),
        UInt8.ofNat body.length] ++ body := rfl
  rw [hframe, decodeResponseFrame_frame _ _ rfl, bigEndian_ofNat hlen, if_neg (not_not.mpr rfl)]
  cases compressed
  · rfl
  · rfl

/-! ### Success -/

/-- The body is a message that parses. -/
def Delivered (gzip : Gzip) (maxDecompressed : Nat) (result : TransportResult) : Prop :=
  ∃ message, Framed gzip maxDecompressed result.responseBody message ∧
    (Proto.parseRejectedSpans message).outcome ≠ .unparseable

/-- Success is the number zero as status and a body that is a message, and comes
with the count of that message. -/
structure ExactSuccess (gzip : Gzip) (maxDecompressed : Nat) (result : TransportResult)
    (out : WireResult) : Prop where
  success_iff : out.success = true ↔
    (∃ status, findStatusField result (ascii "grpc-status") = some status ∧
      DecimalText status 0) ∧ Delivered gzip maxDecompressed result
  rejected : out.success = true → ∀ message,
    Framed gzip maxDecompressed result.responseBody message →
      out.partialSuccessRejected = (Proto.parseRejectedSpans message).rejected

theorem frameFailure_fails (err : FrameError) : (frameFailure err).1.success = false := rfl

theorem classifyGrpcSuccess_iff (result : TransportResult) :
    (classifyGrpcSuccess gzip maxDecompressed result).1.success = true ↔
      Delivered gzip maxDecompressed result := by
  unfold classifyGrpcSuccess Delivered
  simp only [← decodeResponseFrame_iff]
  cases hdecode : decodeResponseFrame gzip result.responseBody maxDecompressed with
  | error err => simp [frameFailure_fails]
  | ok message =>
      simp only [Except.ok.injEq, exists_eq_left']
      split
      · next hbad => simp [frameFailure_fails, hbad]
      · next hgood => simp [hgood]

theorem classifyGrpcSuccess_rejected {result : TransportResult} {message : Bytes}
    (h : (classifyGrpcSuccess gzip maxDecompressed result).1.success = true)
    (hframed : Framed gzip maxDecompressed result.responseBody message) :
    (classifyGrpcSuccess gzip maxDecompressed result).1.partialSuccessRejected =
      (Proto.parseRejectedSpans message).rejected := by
  unfold classifyGrpcSuccess at h ⊢
  rw [(decodeResponseFrame_iff _ _).mpr hframed] at h ⊢
  dsimp only at h ⊢
  split
  · next hbad =>
    rw [if_pos hbad] at h
    cases h
  · rfl

theorem classifyResourceExhausted_fails (result : TransportResult) :
    (classifyResourceExhausted result).success = false := by
  unfold classifyResourceExhausted
  split
  · rfl
  · split
    · rfl
    · rfl

theorem classifyGrpcCode_fails {code : Int} (h : code ≠ 0) (result : TransportResult) :
    (classifyGrpcCode gzip maxDecompressed code result).1.success = false := by
  unfold classifyGrpcCode
  rw [if_neg h]
  split
  · exact classifyResourceExhausted_fails result
  · rfl

/-- The success of an answer that arrived. -/
theorem classifyResponse_success_iff {result : TransportResult} (herror : result.error = none)
    (warned : Bool) :
    (classifyResponse gzip maxDecompressed warned result).result.success = true ↔
      (∃ status, findStatusField result (ascii "grpc-status") = some status ∧
        statusCode status = 0) ∧ Delivered gzip maxDecompressed result := by
  unfold classifyResponse
  rw [herror]
  cases findStatusField result (ascii "grpc-status") with
  | none => simp [classifyMissingGrpcStatus]
  | some status =>
      simp only [Option.some.injEq, exists_eq_left']
      by_cases hcode : statusCode status = 0
      · rw [hcode, ← classifyGrpcSuccess_iff]
        simp [classifyGrpcCode]
      · simp [classifyGrpcCode_fails hcode, hcode]

theorem classifyResponse_rejected {result : TransportResult} (herror : result.error = none)
    (warned : Bool) {message : Bytes}
    (h : (classifyResponse gzip maxDecompressed warned result).result.success = true)
    (hframed : Framed gzip maxDecompressed result.responseBody message) :
    (classifyResponse gzip maxDecompressed warned result).result.partialSuccessRejected =
      (Proto.parseRejectedSpans message).rejected := by
  obtain ⟨⟨status, hstatus, hcode⟩, -⟩ := (classifyResponse_success_iff herror warned).mp h
  have hresult : (classifyResponse gzip maxDecompressed warned result).result =
      (classifyGrpcSuccess gzip maxDecompressed result).1 := by
    unfold classifyResponse
    rw [herror, hstatus]
    simp [hcode, classifyGrpcCode]
  rw [hresult] at h ⊢
  exact classifyGrpcSuccess_rejected h hframed

/-- Success is exact unless the status is no number but starts like zero and the body
would do; frames come back as they were sent. -/
theorem classifyResponse_exact_iff {zlib : Zlib} (C : zlib.Correct) (maxDecompressed : Nat)
    (warned : Bool) (result : TransportResult) (herror : result.error = none) :
    (ExactSuccess zlib.gzip maxDecompressed result
        (classifyResponse zlib.gzip maxDecompressed warned result).result ↔
      ¬ ((∃ status, findStatusField result (ascii "grpc-status") = some status ∧
        LooseZero status) ∧ Delivered zlib.gzip maxDecompressed result)) ∧
    (∀ body : Bytes, body.length < 2 ^ 32 →
      decodeResponseFrame zlib.gzip (framePayload body false) maxDecompressed = .ok body) ∧
    ∀ body z : Bytes, gzipCompress zlib body = some z → body.length ≤ maxDecompressed →
      decodeResponseFrame zlib.gzip (framePayload z true) maxDecompressed = .ok body := by
  have hsuccess : (classifyResponse zlib.gzip maxDecompressed warned result).result.success = true ↔
      (∃ status, findStatusField result (ascii "grpc-status") = some status ∧
        statusCode status = 0) ∧ Delivered zlib.gzip maxDecompressed result :=
    classifyResponse_success_iff herror warned
  refine ⟨⟨?_, ?_⟩, ?_, ?_⟩
  · rintro ⟨hexact, -⟩ ⟨⟨status, hstatus, hloose⟩, hdelivered⟩
    have hcode : statusCode status = 0 := (statusCode_zero_iff status).mpr (.inr hloose)
    obtain ⟨⟨status', hstatus', hdecimal⟩, -⟩ :=
      hexact.mp (hsuccess.mpr ⟨⟨status, hstatus, hcode⟩, hdelivered⟩)
    rw [hstatus] at hstatus'
    obtain rfl := Option.some.inj hstatus'
    exact hloose.not_decimal hdecimal
  · intro hgood
    constructor
    · rw [hsuccess]
      refine and_congr_left fun hdelivered => exists_congr fun status => ?_
      refine and_congr_right fun hstatus => ?_
      rw [statusCode_zero_iff]
      refine or_iff_left fun hloose => ?_
      exact hgood ⟨⟨status, hstatus, hloose⟩, hdelivered⟩
    · intro h message hframed
      exact classifyResponse_rejected herror warned h hframed
  · intro body hlen
    rw [decodeResponseFrame_framePayload false hlen]
    rfl
  · intro body z hz hfits
    have hlen := (gzipCompress_spec C hz).1
    have hinflate : zlib.gzip.decompress z maxDecompressed = .ok body :=
      gzipDecompress_gzipCompress C hz hfits
    have hshort : z.length < 2 ^ 32 := by
      unfold kUIntMax at hlen
      omega
    rw [decodeResponseFrame_framePayload true hshort, if_pos rfl, hinflate]
    rfl

/-! ### A partial success, compressed -/

/-- `partial_success { rejected_spans: 5 }` -/
def fiveMessage : Bytes := [0x0A, 2, 8, 5]

def fiveStream : Bytes :=
  [0x1F, 0x8B, 8, 0, 0, 0, 0, 0, 0, 3, 0xE3, 0x62, 0xE2, 0x60, 5, 0, 0x91, 0x95, 0xCE, 0xF5,
    4, 0, 0, 0]

/-- zlib, as far as that message and its stream go. -/
def fiveZlib : Zlib where
  deflateBound n := n + n / 4096 + n / 16384 + n / 2 ^ 25 + 25
  deflate input room :=
    if input = fiveMessage ∧ fiveStream.length ≤ room then some fiveStream else none
  inflate z := if z = fiveStream then ⟨fiveMessage, some 0⟩ else ⟨[], none⟩

theorem fiveZlib_correct : fiveZlib.Correct := by
  have hpass : ∀ {input room written}, fiveZlib.deflate input room = some written →
      input = fiveMessage ∧ fiveStream.length ≤ room ∧ written = fiveStream := by
    intro input room written h
    unfold fiveZlib at h
    dsimp only at h
    split at h
    · next hguard => exact ⟨hguard.1, hguard.2, (Option.some.inj h).symm⟩
    · cases h
  constructor
  · intro input room written h
    obtain ⟨rfl, -, rfl⟩ := hpass h
    rfl
  · intro input room written h
    obtain ⟨-, hroom, rfl⟩ := hpass h
    exact hroom
  · intro input room written h
    obtain ⟨rfl, -, rfl⟩ := hpass h
    decide
  · intro n
    unfold fiveZlib
    dsimp only
    omega

def fiveAnswer (status : String) : TransportResult where
  success := true
  responseBody := framePayload fiveStream true
  responseTrailers := [⟨ascii "grpc-status", ascii status⟩]

/-- Status zero is a success with its count, and the message comes back. -/
theorem classifyResponse_exact_five :
    (classifyResponse fiveZlib.gzip 4194304 false (fiveAnswer "0")).result.success = true ∧
      ExactSuccess fiveZlib.gzip 4194304 (fiveAnswer "0")
        (classifyResponse fiveZlib.gzip 4194304 false (fiveAnswer "0")).result ∧
      decodeResponseFrame fiveZlib.gzip (framePayload fiveStream true) 4194304 =
        .ok fiveMessage := by
  obtain ⟨hexact, -, hround⟩ :=
    classifyResponse_exact_iff fiveZlib_correct 4194304 false (fiveAnswer "0") rfl
  have hsuccess :
      (classifyResponse fiveZlib.gzip 4194304 false (fiveAnswer "0")).result.success = true := by
    decide +kernel
  have hstatus : findStatusField (fiveAnswer "0") (ascii "grpc-status") = some (ascii "0") := by
    decide
  have hzero : DecimalText (ascii "0") 0 := by
    have htext : ascii "0" = [0x30] := by decide
    rw [htext]
    exact (decimalText_zero_iff _).mpr ⟨List.cons_ne_nil _ _, by simp⟩
  have hgzip : gzipCompress fiveZlib fiveMessage = some fiveStream := by decide +kernel
  refine ⟨hsuccess, hexact.mpr ?_, hround fiveMessage fiveStream hgzip (by decide)⟩
  rintro ⟨⟨status, hfound, hloose⟩, -⟩
  rw [hstatus] at hfound
  obtain rfl := Option.some.inj hfound
  exact hloose.not_decimal hzero

/-- Any text after the zero is a success too. -/
theorem classifyResponse_looseZero :
    (classifyResponse fiveZlib.gzip 4194304 false (fiveAnswer "0x2")).result.success = true ∧
      ¬ ExactSuccess fiveZlib.gzip 4194304 (fiveAnswer "0x2")
        (classifyResponse fiveZlib.gzip 4194304 false (fiveAnswer "0x2")).result := by
  have hsuccess :
      (classifyResponse fiveZlib.gzip 4194304 false (fiveAnswer "0x2")).result.success = true := by
    decide +kernel
  have hstatus : findStatusField (fiveAnswer "0x2") (ascii "grpc-status") = some (ascii "0x2") := by
    decide
  refine ⟨hsuccess, ?_⟩
  rintro ⟨hexact, -⟩
  obtain ⟨⟨status, hfound, hdecimal⟩, -⟩ := hexact.mp hsuccess
  rw [hstatus] at hfound
  obtain rfl := Option.some.inj hfound
  exact absurd (hdecimal.digits 0x78 (by decide)) (by decide)

end Microtel.Wire.Grpc
