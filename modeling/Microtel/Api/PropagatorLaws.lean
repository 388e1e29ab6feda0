import Microtel.Api.Propagator
import Microtel.Api.TraceStateLaws
import Microtel.Lib.Octets

/-!
The grammar of `traceparent`, that `Extract` accepts it and nothing else, and that
a valid context survives `Inject` and `Extract` over any carrier.
-/

namespace Microtel.Api.Propagator

open Octets

/-! ### Hex -/

/-- The tables of the text format: the two ways it writes a digit, and the digit read back. -/
theorem digit_table {n : Nat} (h : n < 16) :
    nibbleToHex (UInt8.ofNat n) = digit n ∧ kLowerHexDigits.getD n 0 = digit n ∧
      isLowerHexDigit (digit n) = true ∧ hexDigitValue (digit n) = UInt8.ofNat n := by
  revert n
  decide

theorem digit_of_lower {b : UInt8} (h : isLowerHexDigit b = true) : Digit b := by
  revert h
  revert b
  apply forall_octet
  unfold Digit
  decide +kernel

/-- Over an octet: the digits it reads, the two ways it writes the octet, and the octet
read back. -/
theorem hex_table (b : UInt8) :
    (isLowerHexDigit b = true → Digit b) ∧
      [nibbleToHex (b >>> kNibbleShift), nibbleToHex (b &&& kLowNibbleMask)] = pair b ∧
      [kLowerHexDigits.getD ((b >>> kNibbleShift) &&& kLowNibbleMask).toNat 0,
        kLowerHexDigits.getD (b &&& kLowNibbleMask).toNat 0] = pair b ∧
      isLowerHexDigit (digit (b.toNat / 16)) = true ∧
      isLowerHexDigit (digit (b.toNat % 16)) = true ∧
      (hexDigitValue (digit (b.toNat / 16)) <<< kNibbleShift) |||
        hexDigitValue (digit (b.toNat % 16)) = b := by
  obtain ⟨hhigh, hhigh', hhighDigit, hhighValue⟩ := digit_table (high_lt b)
  obtain ⟨hlow, hlow', hlowDigit, hlowValue⟩ := digit_table (low_lt b)
  rw [kNibbleShift, kLowNibbleMask, masked_nibble, high_nibble, low_nibble,
    toNat_nibble (high_lt b), toNat_nibble (low_lt b), hhigh, hlow, hhigh', hlow', hhighValue,
    hlowValue]
  exact ⟨digit_of_lower, rfl, rfl, hhighDigit, hlowDigit, or_nibbles b⟩

theorem isLowerHexDigit_iff (c : UInt8) : isLowerHexDigit c = true ↔ Digit c := by
  constructor
  · exact (hex_table c).1
  · rintro ⟨n, hn, rfl⟩
    obtain ⟨-, -, -, -, hlow, -⟩ := hex_table (UInt8.ofNat n)
    have hnat : (UInt8.ofNat n).toNat = n := UInt8.toNat_ofNat_of_lt' (lt_trans hn (by decide))
    rwa [hnat, Nat.mod_eq_of_lt hn] at hlow

theorem appendLowerHex_eq (out : Bytes) (b : UInt8) : appendLowerHex out b = out ++ pair b := by
  obtain ⟨-, hpair, -⟩ := hex_table b
  rw [appendLowerHex, hpair]

theorem bytesToLowerHex_eq (bytes : Bytes) : bytesToLowerHex bytes = hex bytes := by
  have hfold : ∀ out, bytes.foldl appendLowerHex out = out ++ hex bytes := by
    induction bytes with
    | nil => simp
    | cons b bytes ih =>
        intro out
        rw [List.foldl_cons, ih, appendLowerHex_eq, hex_cons, List.append_assoc]
  exact hfold []

/-- The digits of the flags, looked up in the table. -/
theorem flagsText_eq (b : UInt8) :
    [kLowerHexDigits.getD ((b >>> kNibbleShift) &&& kLowNibbleMask).toNat 0,
      kLowerHexDigits.getD (b &&& kLowNibbleMask).toNat 0] = pair b :=
  (hex_table b).2.2.1

theorem decodePairs_pair (b : UInt8) (text : Bytes) :
    decodePairs (pair b ++ text) = (decodePairs text).map (b :: ·) := by
  obtain ⟨-, -, -, hhigh, hlow, hvalue⟩ := hex_table b
  rw [pair, List.cons_append, List.cons_append, List.nil_append, decodePairs, hhigh, hlow, hvalue]
  rfl

theorem decodePairs_hex (bytes : Bytes) : decodePairs (hex bytes) = some bytes := by
  induction bytes with
  | nil => rfl
  | cons b bytes ih => rw [hex_cons, decodePairs_pair, ih, Option.map_some]

theorem digits_of_decodePairs {text bytes : Bytes} {n : Nat} (hlen : text.length = 2 * n)
    (h : decodePairs text = some bytes) : ∀ c ∈ text, Digit c := by
  induction n generalizing text bytes with
  | zero =>
      rw [List.length_eq_zero_iff.mp (by omega : text.length = 0)]
      simp
  | succ n ih =>
      obtain _ | ⟨high, _ | ⟨low, text⟩⟩ := text
      · simp at hlen
      · simp at hlen
        omega
      · have hrest : text.length = 2 * n := by
          simp only [List.length_cons] at hlen
          omega
        rw [decodePairs] at h
        split at h
        · cases h
        · next hpass =>
          obtain ⟨bytes, hbytes, -⟩ := Option.map_eq_some_iff.mp h
          rw [Bool.not_eq_true, Bool.or_eq_false_iff, Bool.not_eq_false',
            Bool.not_eq_false'] at hpass
          rintro c hc
          rcases List.mem_cons.mp hc with rfl | hc
          · exact (isLowerHexDigit_iff _).mp hpass.1
          · rcases List.mem_cons.mp hc with rfl | hc
            · exact (isLowerHexDigit_iff _).mp hpass.2
            · exact ih hrest hbytes c hc

/-- What is parsed is the text of the octets, and only that is. -/
theorem parseLowerHexBytes_iff {n : Nat} (text : Bytes) (v : Vector UInt8 n) :
    parseLowerHexBytes n text = some v ↔ text = hex v.toList := by
  unfold parseLowerHexBytes
  constructor
  · intro h
    split at h
    · cases h
    · next hlen =>
      rw [not_not, kHexCharsPerByte, Nat.mul_comm] at hlen
      obtain ⟨bytes, hbytes, hv⟩ := Option.bind_eq_some_iff.mp h
      obtain ⟨bytes', -, rfl⟩ := exists_hex hlen (digits_of_decodePairs hlen hbytes)
      rw [decodePairs_hex] at hbytes
      cases hbytes
      split at hv
      · cases hv
        rfl
      · cases hv
  · rintro rfl
    rw [if_neg (by simp [kHexCharsPerByte, Nat.mul_comm]), decodePairs_hex, Option.bind_some,
      dif_pos (by simp)]
    rfl

/-! ### Slices -/

theorem drop_past (field : Bytes) (separator : UInt8) (rest : Bytes) (n : Nat) :
    (field ++ separator :: rest).drop (field.length + 1 + n) = rest.drop n := by
  rw [← List.drop_drop, ← List.drop_drop, List.drop_left]
  rfl

theorem substr_append_drop (text : Bytes) (pos count : Nat) :
    substr text pos count ++ text.drop (pos + count) = text.drop pos := by
  rw [substr, ← List.drop_drop, List.take_append_drop]

theorem cons_drop {text : Bytes} {pos : Nat} {c : UInt8} (h : text[pos]? = some c) :
    c :: text.drop (pos + 1) = text.drop pos := by
  obtain ⟨hlt, rfl⟩ := List.getElem?_eq_some_iff.mp h
  exact (List.drop_eq_getElem_cons hlt).symm

/-! ### The grammar -/

/-- A digit text of a given width. -/
def LowerHex (width : Nat) (text : Bytes) : Prop :=
  text.length = width ∧ ∀ c ∈ text, isLowerHexDigit c = true

/-- The parts of a `traceparent` between its dashes, and what follows them. -/
structure Fields where
  version : Bytes
  traceId : Bytes
  spanId : Bytes
  flags : Bytes
  suffix : Bytes

namespace Fields

def text (f : Fields) : Bytes :=
  f.version ++ kFieldSeparator :: (f.traceId ++ kFieldSeparator ::
    (f.spanId ++ kFieldSeparator :: (f.flags ++ f.suffix)))

/-- `0` stands for 0x30, `ff` for 0x66 twice. -/
structure Legal (f : Fields) : Prop where
  version : LowerHex 2 f.version
  allowed : f.version ≠ [0x66, 0x66]
  traceId : LowerHex 32 f.traceId
  someTrace : ∃ c ∈ f.traceId, c ≠ 0x30
  spanId : LowerHex 16 f.spanId
  someSpan : ∃ c ∈ f.spanId, c ≠ 0x30
  flags : LowerHex 2 f.flags
  ends : f.suffix = [] ∨ f.version ≠ kInjectedVersion ∧ f.suffix.head? = some kFieldSeparator

/-- The widths alone. -/
structure Sized (f : Fields) : Prop where
  version : f.version.length = 2
  traceId : f.traceId.length = 32
  spanId : f.spanId.length = 16
  flags : f.flags.length = 2

variable {f : Fields}

namespace Sized

variable (h : f.Sized)
include h

theorem length_text : f.text.length = kTraceparentChars + f.suffix.length := by
  obtain ⟨hv, ht, hs, hf⟩ := h
  simp only [text, List.length_append, List.length_cons, hv, ht, hs, hf]
  simp only [kTraceparentChars, kFlagsOffset, kSpanIdOffset, kTraceIdOffset, kVersionOffset,
    kVersionChars, kTraceIdChars, kSpanIdChars, kFlagsChars, kSeparatorChars, kHexCharsPerByte]
  omega

theorem substr_version : substr f.text kVersionOffset kVersionChars = f.version := by
  rw [substr, kVersionOffset, List.drop_zero, text, kVersionChars, ← h.version, List.take_left]

/-- What stands after the first dash. -/
theorem drop_version (n : Nat) : f.text.drop (3 + n) =
    (f.traceId ++ kFieldSeparator :: (f.spanId ++ kFieldSeparator :: (f.flags ++ f.suffix))).drop
      n := by
  have hpast := drop_past f.version kFieldSeparator
    (f.traceId ++ kFieldSeparator :: (f.spanId ++ kFieldSeparator :: (f.flags ++ f.suffix))) n
  rw [h.version] at hpast
  exact hpast

theorem drop_traceId (n : Nat) : f.text.drop (36 + n) =
    (f.spanId ++ kFieldSeparator :: (f.flags ++ f.suffix)).drop n := by
  have hpast := drop_past f.traceId kFieldSeparator
    (f.spanId ++ kFieldSeparator :: (f.flags ++ f.suffix)) n
  rw [h.traceId] at hpast
  rw [show 36 + n = 3 + (33 + n) by omega, h.drop_version]
  exact hpast

theorem drop_spanId (n : Nat) : f.text.drop (53 + n) = (f.flags ++ f.suffix).drop n := by
  have hpast := drop_past f.spanId kFieldSeparator (f.flags ++ f.suffix) n
  rw [h.spanId] at hpast
  rw [show 53 + n = 36 + (17 + n) by omega, h.drop_traceId]
  exact hpast

theorem substr_traceId : substr f.text kTraceIdOffset kTraceIdChars = f.traceId := by
  rw [substr]
  change (f.text.drop (3 + 0)).take 32 = _
  rw [h.drop_version, List.drop_zero, ← h.traceId, List.take_left]

theorem substr_spanId : substr f.text kSpanIdOffset kSpanIdChars = f.spanId := by
  rw [substr]
  change (f.text.drop (36 + 0)).take 16 = _
  rw [h.drop_traceId, List.drop_zero, ← h.spanId, List.take_left]

theorem substr_flags : substr f.text kFlagsOffset kFlagsChars = f.flags := by
  rw [substr]
  change (f.text.drop (53 + 0)).take 2 = _
  rw [h.drop_spanId, List.drop_zero, ← h.flags, List.take_left]

theorem hasFixedSeparators : hasFixedSeparators f.text = true := by
  have hfirst : f.text[2]? = some kFieldSeparator := by
    rw [← List.head?_drop, text, ← h.version, List.drop_left]
    rfl
  have hsecond : f.text[35]? = some kFieldSeparator := by
    rw [← List.head?_drop, h.drop_version 32, ← h.traceId, List.drop_left]
    rfl
  have hthird : f.text[52]? = some kFieldSeparator := by
    rw [← List.head?_drop, h.drop_traceId 16, ← h.spanId, List.drop_left]
    rfl
  simp only [Propagator.hasFixedSeparators, Bool.and_eq_true, decide_eq_true_eq]
  exact ⟨⟨hfirst, hsecond⟩, hthird⟩

theorem suffix_head : f.text[kTraceparentChars]? = f.suffix.head? := by
  change f.text[53 + 2]? = _
  rw [← List.head?_drop, h.drop_spanId, ← h.flags, List.drop_left]

theorem hasParsableLength_iff (version : UInt8) : hasParsableLength f.text version = true ↔
    f.suffix = [] ∨ version ≠ kVersion00 ∧ f.suffix.head? = some kFieldSeparator := by
  rw [hasParsableLength, h.length_text, h.suffix_head]
  by_cases hsuffix : f.suffix = []
  · simp [hsuffix]
  · simp [hsuffix]

end Sized

/-- The parts by their offsets. -/
def slice (header : Bytes) : Fields where
  version := substr header kVersionOffset kVersionChars
  traceId := substr header kTraceIdOffset kTraceIdChars
  spanId := substr header kSpanIdOffset kSpanIdChars
  flags := substr header kFlagsOffset kFlagsChars
  suffix := header.drop kTraceparentChars

theorem sized_slice {header : Bytes} (hlen : kTraceparentChars ≤ header.length) :
    (slice header).Sized := by
  change 55 ≤ header.length at hlen
  constructor <;>
    simp only [slice, substr, List.length_take, List.length_drop, kFlagsOffset, kSpanIdOffset,
      kTraceIdOffset, kVersionOffset, kVersionChars, kTraceIdChars, kSpanIdChars, kFlagsChars,
      kSeparatorChars, kHexCharsPerByte] <;>
    omega

theorem text_slice {header : Bytes} (h : hasFixedSeparators header = true) :
    (slice header).text = header := by
  simp only [hasFixedSeparators, Bool.and_eq_true, decide_eq_true_eq] at h
  obtain ⟨⟨hfirst, hsecond⟩, hthird⟩ : (header[2]? = some kFieldSeparator ∧
      header[35]? = some kFieldSeparator) ∧ header[52]? = some kFieldSeparator := h
  calc (slice header).text
    _ = substr header 0 2 ++ kFieldSeparator :: (substr header 3 32 ++ kFieldSeparator ::
          (substr header 36 16 ++ kFieldSeparator :: (substr header 53 2 ++ header.drop 55))) := rfl
    _ = substr header 0 2 ++ kFieldSeparator :: (substr header 3 32 ++ kFieldSeparator ::
          (substr header 36 16 ++ kFieldSeparator :: header.drop 53)) := by
        rw [substr_append_drop header 53 2]
    _ = substr header 0 2 ++ kFieldSeparator :: (substr header 3 32 ++ kFieldSeparator ::
          (substr header 36 16 ++ header.drop 52)) := by
        rw [cons_drop hthird]
    _ = header := by
        rw [substr_append_drop header 36 16, cons_drop hsecond, substr_append_drop header 3 32,
          cons_drop hfirst, substr_append_drop header 0 2, List.drop_zero]

end Fields

/-! ### Parsing -/

/-- A text over octets, as `FormatTraceparent` writes version 00. -/
def spelled (version : UInt8) (traceId : TraceId) (spanId : SpanId) (flags : UInt8)
    (suffix : Bytes) :
    Fields where
  version := hex [version]
  traceId := hex traceId.bytes.toList
  spanId := hex spanId.bytes.toList
  flags := hex [flags]
  suffix := suffix

theorem sized_spelled (version : UInt8) (traceId : TraceId) (spanId : SpanId) (flags : UInt8)
    (suffix : Bytes) : (spelled version traceId spanId flags suffix).Sized := by
  constructor <;> simp [spelled]

theorem parse_octet (b : UInt8) : parseLowerHexBytes 1 (hex [b]) = some #v[b] :=
  (parseLowerHexBytes_iff _ _).mpr rfl

theorem octet_of_parse {text : Bytes} {v : Vector UInt8 1}
    (h : parseLowerHexBytes 1 text = some v) : ∃ b, v = #v[b] ∧ text = hex [b] := by
  rw [(parseLowerHexBytes_iff text v).mp h]
  obtain ⟨⟨l⟩, hl⟩ := v
  obtain ⟨b, rfl⟩ := List.length_eq_one_iff.mp hl
  exact ⟨b, rfl, rfl⟩

/-- What the version allows to follow. -/
def Ends (version : UInt8) (suffix : Bytes) : Prop :=
  version ≠ kForbiddenVersion ∧
    (suffix = [] ∨ version ≠ kVersion00 ∧ suffix.head? = some kFieldSeparator)

theorem hasParsableShape_iff {f : Fields} (h : f.Sized) : hasParsableShape f.text = true ↔
    ∃ version, f.version = hex [version] ∧ Ends version f.suffix := by
  have hlen : ¬ f.text.length < kTraceparentChars := by
    rw [h.length_text]
    omega
  rw [hasParsableShape, if_neg hlen, h.hasFixedSeparators, h.substr_version]
  simp only [Bool.not_true, Bool.false_eq_true, if_false]
  constructor
  · intro hshape
    cases hv : parseLowerHexBytes 1 f.version with
    | none => simp [hv] at hshape
    | some v =>
        simp only [hv] at hshape
        split at hshape
        · cases hshape
        · next hallowed =>
          obtain ⟨version, rfl, hversion⟩ := octet_of_parse hv
          exact ⟨version, hversion, hallowed, (h.hasParsableLength_iff _).mp hshape⟩
  · rintro ⟨version, hversion, hallowed, hends⟩
    rw [hversion, parse_octet]
    change (if version = kForbiddenVersion then false else hasParsableLength f.text version) = true
    rw [if_neg hallowed]
    exact (h.hasParsableLength_iff version).mpr hends

theorem parseTraceparent_spelled {version flags : UInt8} {traceId : TraceId} {spanId : SpanId}
    {suffix : Bytes} (out : SpanContext) (hends : Ends version suffix)
    (htrace : traceId.isValid = true) (hspan : spanId.isValid = true) :
    parseTraceparent (spelled version traceId spanId flags suffix).text out =
      some { out with traceId := traceId, spanId := spanId, traceFlags := flags } := by
  have hsized := sized_spelled version traceId spanId flags suffix
  have hshape := (hasParsableShape_iff hsized).mpr ⟨version, rfl, hends⟩
  have hids : parseLowerHexBytes 16 (spelled version traceId spanId flags suffix).traceId =
      some traceId.bytes := (parseLowerHexBytes_iff _ _).mpr rfl
  have hspans : parseLowerHexBytes 8 (spelled version traceId spanId flags suffix).spanId =
      some spanId.bytes := (parseLowerHexBytes_iff _ _).mpr rfl
  have hflags : parseLowerHexBytes 1 (spelled version traceId spanId flags suffix).flags =
      some #v[flags] := parse_octet flags
  rw [parseTraceparent, hshape, hsized.substr_traceId, hsized.substr_spanId, hsized.substr_flags,
    hids, hspans, hflags]
  simp [htrace, hspan]

theorem spelled_of_parse {header : Bytes} {out c : SpanContext}
    (h : parseTraceparent header out = some c) :
    ∃ version suffix, Ends version suffix ∧ c.traceId.isValid = true ∧ c.spanId.isValid = true ∧
      header = (spelled version c.traceId c.spanId c.traceFlags suffix).text := by
  unfold parseTraceparent at h
  split at h
  · cases h
  · next hshape =>
    rw [Bool.not_eq_true, Bool.not_eq_false'] at hshape
    have hlen : kTraceparentChars ≤ header.length := by
      by_contra hshort
      rw [hasParsableShape, if_pos (Nat.not_le.mp hshort)] at hshape
      cases hshape
    have hseparators : hasFixedSeparators header = true := by
      by_contra hnone
      rw [hasParsableShape, if_neg (Nat.not_lt.mpr hlen), if_pos (by simpa using hnone)] at hshape
      cases hshape
    have hsized := Fields.sized_slice hlen
    have htext := Fields.text_slice hseparators
    rw [← htext, hasParsableShape_iff hsized] at hshape
    obtain ⟨version, hversion, hends⟩ := hshape
    split at h
    · next traceBytes spanBytes flags htrace hspan hflags =>
      dsimp only at h
      split at h
      · cases h
      · next hvalid =>
        rw [Bool.not_eq_true, Bool.or_eq_false_iff, Bool.not_eq_false',
          Bool.not_eq_false'] at hvalid
        cases h
        refine ⟨version, (Fields.slice header).suffix, hends, hvalid.1, hvalid.2, ?_⟩
        obtain ⟨octet, rfl, hoctet⟩ := octet_of_parse hflags
        have heq : Fields.slice header = spelled version ⟨traceBytes⟩ ⟨spanBytes⟩ octet
            (Fields.slice header).suffix := by
          rw [spelled, ← hversion, ← hoctet]
          rw [← (parseLowerHexBytes_iff _ _).mp htrace, ← (parseLowerHexBytes_iff _ _).mp hspan]
          rfl
        exact htext.symm.trans (congrArg Fields.text heq)
    · cases h

/-! ### The grammar and the octets -/

theorem lowerHex_hex {bytes : Bytes} {width : Nat} (hlen : 2 * bytes.length = width) :
    LowerHex width (hex bytes) := by
  refine ⟨by rw [length_hex, hlen], ?_⟩
  intro c hc
  exact (isLowerHexDigit_iff c).mpr (digit_hex bytes c hc)

theorem LowerHex.exists_hex {width n : Nat} {text : Bytes} (h : LowerHex width text)
    (hwidth : width = 2 * n) : ∃ bytes : Bytes, bytes.length = n ∧ hex bytes = text := by
  apply Octets.exists_hex (h.1.trans hwidth)
  intro c hc
  exact (isLowerHexDigit_iff c).mp (h.2 c hc)

/-- An id is not all zeros when its text is not. -/
theorem some_digit_iff (bytes : Bytes) :
    (∃ c ∈ hex bytes, c ≠ 0x30) ↔ bytes.any (· ≠ 0) = true := by
  have hzero := hex_zero_iff bytes
  rw [← not_iff_not]
  simpa [digit] using hzero

theorem hex_octet_inj {a b : UInt8} : hex [a] = hex [b] ↔ a = b := by
  constructor
  · intro h
    have hread := decodePairs_hex [a]
    rw [h, decodePairs_hex] at hread
    simpa using hread.symm
  · rintro rfl
    rfl

theorem legal_spelled {version flags : UInt8} {traceId : TraceId} {spanId : SpanId} {suffix : Bytes}
    (hends : Ends version suffix) (htrace : traceId.isValid = true)
    (hspan : spanId.isValid = true) :
    (spelled version traceId spanId flags suffix).Legal where
  version := lowerHex_hex rfl
  allowed := by
    rw [show [(0x66 : UInt8), 0x66] = hex [kForbiddenVersion] from rfl]
    exact fun h => hends.1 (hex_octet_inj.mp h)
  traceId := lowerHex_hex (by simp)
  someTrace := (some_digit_iff _).mpr htrace
  spanId := lowerHex_hex (by simp)
  someSpan := (some_digit_iff _).mpr hspan
  flags := lowerHex_hex rfl
  ends := by
    rcases hends.2 with hnone | ⟨hnew, hdash⟩
    · exact .inl hnone
    · right
      rw [show kInjectedVersion = hex [kVersion00] from rfl]
      exact ⟨fun h => hnew (hex_octet_inj.mp h), hdash⟩

theorem Fields.Legal.exists_spelled {f : Fields} (h : f.Legal) :
    ∃ version traceId spanId flags, f = spelled version traceId spanId flags f.suffix ∧
      Ends version f.suffix ∧ traceId.isValid = true ∧ spanId.isValid = true := by
  obtain ⟨versionBytes, hversionLen, hversion⟩ := h.version.exists_hex (n := 1) rfl
  obtain ⟨traceBytes, htraceLen, htrace⟩ := h.traceId.exists_hex (n := 16) rfl
  obtain ⟨spanBytes, hspanLen, hspan⟩ := h.spanId.exists_hex (n := 8) rfl
  obtain ⟨flagBytes, hflagsLen, hflags⟩ := h.flags.exists_hex (n := 1) rfl
  obtain ⟨version, rfl⟩ := List.length_eq_one_iff.mp hversionLen
  obtain ⟨flags, rfl⟩ := List.length_eq_one_iff.mp hflagsLen
  have hallowed := h.allowed
  have hsomeTrace := h.someTrace
  have hsomeSpan := h.someSpan
  have hends := h.ends
  rw [← hversion] at hallowed hends
  rw [← htrace, some_digit_iff] at hsomeTrace
  rw [← hspan, some_digit_iff] at hsomeSpan
  refine ⟨version, ⟨⟨traceBytes.toArray, by simpa using htraceLen⟩⟩,
    ⟨⟨spanBytes.toArray, by simpa using hspanLen⟩⟩, flags, ?_, ⟨?_, ?_⟩, hsomeTrace, hsomeSpan⟩
  · cases f
    simp only [spelled, Fields.mk.injEq]
    exact ⟨hversion.symm, htrace.symm, hspan.symm, hflags.symm, trivial⟩
  · rintro rfl
    exact hallowed rfl
  · rcases hends with hnone | ⟨hnew, hdash⟩
    · exact .inl hnone
    · refine .inr ⟨?_, hdash⟩
      rintro rfl
      exact hnew rfl

/-! ### Inject and Extract -/

theorem formatTraceparent_eq (c : SpanContext) :
    formatTraceparent c = (spelled kVersion00 c.traceId c.spanId c.traceFlags []).text := by
  rw [formatTraceparent, flagsText_eq, TraceId.toHex, SpanId.toHex, bytesToLowerHex_eq,
    bytesToLowerHex_eq]
  simp [spelled, Fields.text, kInjectedVersion, hex, pair, digit, kVersion00]

/-- Headers by name, as a setter writes and a getter reads them. -/
structure Carrier (σ : Type) where
  empty : σ
  set : σ → Bytes → Bytes → σ
  get : σ → Bytes → Option Bytes
  get_empty : ∀ name, get empty name = none
  get_set_self : ∀ s name value, get s name = none → get (set s name value) name = some value
  get_set_other : ∀ s name value other, other ≠ name → get (set s name value) other = get s other

/-- The trace state that comes with an accepted `traceparent`. -/
def stateOf (get : Bytes → Option Bytes) : TraceState :=
  ((get kTracestateHeader).map TraceState.fromHeader).getD {}

theorem extract_some {get : Bytes → Option Bytes} {header : Bytes} {c : SpanContext}
    (hheader : get kTraceparentHeader = some header) (hparse : parseTraceparent header {} = some c)
    (hfresh : c.traceState = {}) :
    extract (some get) = { c with traceState := stateOf get, remote := true } := by
  simp only [extract, hheader, hparse, stateOf]
  cases get kTracestateHeader with
  | none =>
      cases c
      cases hfresh
      rfl
  | some tracestate => rfl

theorem extract_spelled {get : Bytes → Option Bytes} {version flags : UInt8} {traceId : TraceId}
    {spanId : SpanId} {suffix : Bytes} (hends : Ends version suffix)
    (htrace : traceId.isValid = true) (hspan : spanId.isValid = true)
    (hheader : get kTraceparentHeader =
      some (spelled version traceId spanId flags suffix).text) :
    extract (some get) =
      { traceId, spanId, traceFlags := flags, traceState := stateOf get, remote := true } :=
  extract_some hheader (parseTraceparent_spelled {} hends htrace hspan) rfl

/-- A `traceparent` outside the grammar is not parsed. -/
theorem extract_refused {getter : Option (Bytes → Option Bytes)}
    (h : ¬ ∃ get, getter = some get ∧
      ∃ f : Fields, f.Legal ∧ get kTraceparentHeader = some f.text) : extract getter = {} := by
  cases getter with
  | none => rfl
  | some get =>
      cases hheader : get kTraceparentHeader with
      | none => simp only [extract, hheader]
      | some header =>
          cases hparse : parseTraceparent header {} with
          | none => simp only [extract, hheader, hparse]
          | some c =>
              obtain ⟨version, suffix, hends, htrace, hspan, rfl⟩ := spelled_of_parse hparse
              exact absurd ⟨get, rfl, _, legal_spelled hends htrace hspan, hheader⟩ h

theorem stateOf_inject {σ : Type} (k : Carrier σ) (c : SpanContext)
    (hvalid : c.isValid = true) (hstate : TraceState.Reachable c.traceState) :
    k.get (inject c (some k.set) k.empty) kTraceparentHeader = some (formatTraceparent c) ∧
      stateOf (k.get (inject c (some k.set) k.empty)) = c.traceState := by
  have hround := hstate.valid.fromHeader_toHeader
  have hparent := k.get_set_self k.empty kTraceparentHeader (formatTraceparent c) (k.get_empty _)
  have habsent : k.get (k.set k.empty kTraceparentHeader (formatTraceparent c)) kTracestateHeader =
      none := by
    rw [k.get_set_other _ _ _ _ (by decide), k.get_empty]
  simp only [inject, hvalid, Bool.not_true, Bool.false_eq_true, if_false]
  by_cases hnil : c.traceState.toHeader = []
  · rw [if_neg (not_not.mpr hnil)]
    refine ⟨hparent, ?_⟩
    rw [stateOf, habsent, ← hround, hnil, TraceState.fromHeader_nil]
    rfl
  · rw [if_pos hnil]
    refine ⟨?_, ?_⟩
    · rw [k.get_set_other _ _ _ _ (by decide), hparent]
    · rw [stateOf, k.get_set_self _ _ _ habsent, Option.map_some, hround]
      rfl

/-- A valid context survives `Inject` and `Extract` over any carrier; a
`traceparent` yields a valid context exactly when it is in the grammar, and then the
context it spells; otherwise the result is the default, whatever the `tracestate`. -/
theorem propagation_exact :
    (∀ (σ : Type) (k : Carrier σ) (c : SpanContext), c.isValid = true →
        TraceState.Reachable c.traceState →
        extract (some (k.get (inject c (some k.set) k.empty))) = { c with remote := true }) ∧
      (∀ (get : Bytes → Option Bytes) (header : Bytes), get kTraceparentHeader = some header →
        ((extract (some get)).isValid = true ↔ ∃ f : Fields, f.Legal ∧ header = f.text)) ∧
      (∀ (get : Bytes → Option Bytes) (f : Fields), f.Legal →
        get kTraceparentHeader = some f.text →
          (extract (some get)).traceId.toHex = f.traceId ∧
            (extract (some get)).spanId.toHex = f.spanId ∧
            bytesToLowerHex [(extract (some get)).traceFlags] = f.flags ∧
            (extract (some get)).traceState = stateOf get ∧ (extract (some get)).remote = true) ∧
      ∀ getter : Option (Bytes → Option Bytes),
        (¬ ∃ get, getter = some get ∧
          ∃ f : Fields, f.Legal ∧ get kTraceparentHeader = some f.text) → extract getter = {} := by
  refine ⟨?_, ?_, ?_, fun getter h => extract_refused h⟩
  · intro σ k c hvalid hstate
    obtain ⟨hheader, hkept⟩ := stateOf_inject k c hvalid hstate
    have hids : c.traceId.isValid = true ∧ c.spanId.isValid = true := by
      simpa [SpanContext.isValid] using hvalid
    rw [formatTraceparent_eq] at hheader
    rw [extract_spelled ⟨by decide, .inl rfl⟩ hids.1 hids.2 hheader, hkept]
  · intro get header hheader
    constructor
    · intro hvalid
      by_contra hout
      rw [extract_refused] at hvalid
      · revert hvalid
        decide
      · rintro ⟨get', hget, f, hf, hlegal⟩
        cases hget
        rw [hheader] at hlegal
        exact hout ⟨f, hf, Option.some.inj hlegal⟩
    · rintro ⟨f, hf, rfl⟩
      obtain ⟨version, traceId, spanId, flags, heq, hends, htrace, hspan⟩ := hf.exists_spelled
      rw [heq] at hheader
      rw [extract_spelled hends htrace hspan hheader]
      simp [SpanContext.isValid, htrace, hspan]
  · intro get f hf hheader
    obtain ⟨version, traceId, spanId, flags, heq, hends, htrace, hspan⟩ := hf.exists_spelled
    rw [heq] at hheader
    rw [extract_spelled hends htrace hspan hheader, heq]
    refine ⟨bytesToLowerHex_eq _, bytesToLowerHex_eq _, bytesToLowerHex_eq _, rfl, rfl⟩

/-- A map from names to values. -/
def mapCarrier : Carrier (Bytes → Option Bytes) where
  empty _ := none
  set headers name value := Function.update headers name (some value)
  get headers := headers
  get_empty _ := rfl
  get_set_self headers name value _ := by simp
  get_set_other headers name value other hne := by simp [hne]

/-- Flags `a5` and the state `a=1`. -/
def hopContext : SpanContext where
  traceId := ⟨Vector.replicate 16 0xB7⟩
  spanId := ⟨Vector.replicate 8 0x1C⟩
  traceFlags := 0xA5
  traceState := TraceState.set {} [0x61] [0x31]

/-- Version `cc`, with `-x` after the flags. -/
def laterFields : Fields := spelled 0xCC hopContext.traceId hopContext.spanId 0x01 [0x2D, 0x78]

theorem propagation_exact_hop :
    extract (some (mapCarrier.get (inject hopContext (some mapCarrier.set) mapCarrier.empty))) =
        { hopContext with remote := true } ∧
      (extract (some fun _ => some laterFields.text)).isValid = true ∧
      (extract (some fun _ => some laterFields.text)).spanId.toHex = laterFields.spanId ∧
      extract none = {} := by
  have hlater : laterFields.Legal :=
    legal_spelled ⟨by decide, .inr ⟨by decide, rfl⟩⟩ (by decide +kernel) (by decide +kernel)
  have hstate : TraceState.Reachable hopContext.traceState :=
    TraceState.Reachable.set .default [0x61] [0x31]
  obtain ⟨hround, hvalid, hspells, hrefused⟩ := propagation_exact
  refine ⟨?_, ?_, (hspells _ laterFields hlater rfl).2.1, hrefused none ?_⟩
  · exact hround _ mapCarrier hopContext (by decide +kernel) hstate
  · exact (hvalid (fun _ => some laterFields.text) _ rfl).mpr ⟨laterFields, hlater, rfl⟩
  · rintro ⟨get, hget, -⟩
    cases hget

end Microtel.Api.Propagator
