import Microtel.Concentrator.Resource
import Microtel.Wire.ProtoReader

/-!
`TryDecodeRetryDelay` (`src/wire/grpc/grpc_wire_codec.cpp`): base64, then
google.rpc.Status, google.protobuf.Any, google.rpc.RetryInfo and
google.protobuf.Duration. The last step, from seconds and nanoseconds to a delay, is
a parameter: the codec's own arithmetic is one instance of it.
-/

namespace Microtel.Wire.Grpc

open Concentrator Proto

/-! ### Base64 -/

def kB64AlphaLowerOffset : UInt8 := 26
def kB64DigitOffset : UInt8 := 52
def kB64PlusOrMinus : UInt8 := 62
def kB64SlashOrUnderscore : UInt8 := 63

def b64CharValue (c : UInt8) : Option UInt8 :=
  if 0x41 ≤ c ∧ c ≤ 0x5A then some (c - 0x41)
  else if 0x61 ≤ c ∧ c ≤ 0x7A then some (c - 0x61 + kB64AlphaLowerOffset)
  else if 0x30 ≤ c ∧ c ≤ 0x39 then some (c - 0x30 + kB64DigitOffset)
  else if c = 0x2D ∨ c = 0x2B then some kB64PlusOrMinus
  else if c = 0x5F ∨ c = 0x2F then some kB64SlashOrUnderscore
  else none

def kB64Mask4Bit : UInt8 := 0xF
def kB64Mask2Bit : UInt8 := 0x3

/-- The loop of `Base64UrlDecode`; a character left on its own says nothing. -/
def base64Groups : Bytes → Option Bytes
  | a :: b :: rest =>
      match b64CharValue a, b64CharValue b with
      | some c0, some c1 =>
          let first := (c0 <<< 2) ||| (c1 >>> 4)
          match rest with
          | [] => some [first]
          | c :: rest =>
              match b64CharValue c with
              | none => none
              | some c2 =>
                  let second := ((c1 &&& kB64Mask4Bit) <<< 4) ||| (c2 >>> 2)
                  match rest with
                  | [] => some [first, second]
                  | d :: rest =>
                      match b64CharValue d with
                      | none => none
                      | some c3 =>
                          let third := ((c2 &&& kB64Mask2Bit) <<< 6) ||| c3
                          (base64Groups rest).map ([first, second, third] ++ ·)
      | _, _ => none
  | _ => some []

def base64UrlDecode (sv : Bytes) : Option Bytes :=
  base64Groups (sv.reverse.dropWhile (· = 0x3D)).reverse

/-! ### Messages -/

def kFieldDurationSeconds : UInt32 := 1
def kFieldDurationNanos : UInt32 := 2
def kFieldRetryDelay : UInt32 := 1
def kFieldAnyTypeUrl : UInt32 := 1
def kFieldAnyValue : UInt32 := 2
def kFieldStatusDetails : UInt32 := 3

def kRetryInfoTypeUrl : Bytes := ascii "type.googleapis.com/google.rpc.RetryInfo"

/-- Every loop below reads a tag this way; no field number is refused. -/
def readRawTag (data : Bytes) : Option (UInt32 × UInt32 × Bytes) :=
  match readVarint data with
  | none => none
  | some (tag, data) => some ((tag >>> 3).toUInt32, (tag &&& 0x7).toUInt32, data)

/-- google.protobuf.Duration. -/
structure Duration where
  seconds : Int64 := 0
  nanos : Int32 := 0
  deriving DecidableEq

def parseDurationField (d : Duration) (fn wt : UInt32) (data : Bytes) : Option (Duration × Bytes) :=
  if fn = kFieldDurationSeconds ∧ wt = 0 then
    (readVarint data).map fun (v, data) => ({ d with seconds := v.toInt64 }, data)
  else if fn = kFieldDurationNanos ∧ wt = 0 then
    (readVarint data).map fun (v, data) => ({ d with nanos := v.toUInt32.toInt32 }, data)
  else (skipField data wt).map (d, ·)

/-- google.protobuf.Any. -/
structure AnyFields where
  typeUrl : Bytes := []
  value : Option Bytes := none

def parseAnyField (any : AnyFields) (fn wt : UInt32) (data : Bytes) : Option (AnyFields × Bytes) :=
  if fn = kFieldAnyTypeUrl ∧ wt = 2 then
    (readLenDelim data).map fun (bytes, data) => ({ any with typeUrl := bytes }, data)
  else if fn = kFieldAnyValue ∧ wt = 2 then
    (readLenDelim data).map fun (bytes, data) => ({ any with value := some bytes }, data)
  else (skipField data wt).map (any, ·)

theorem readVarint_shortens {data rest : Bytes} {v : UInt64}
    (h : readVarint data = some (v, rest)) :
    rest.length < data.length :=
  readVarint_exact.shortens (fun _ _ htext => htext.ne_nil) h

theorem readLenDelim_shortens {data rest octets : Bytes}
    (h : readLenDelim data = some (octets, rest)) : rest.length < data.length := by
  refine readLenDelim_exact.shortens ?_ h
  rintro _ _ ⟨size, n, rfl, hsize, -⟩ hnil
  exact hsize.ne_nil (List.append_eq_nil_iff.mp hnil).1

theorem skipField_shortens {data rest : Bytes} {wt : UInt32} (h : skipField data wt = some rest) :
    rest.length ≤ data.length := by
  obtain ⟨text, -, rfl, -⟩ := (skipField_iff _ _ _).mp h
  rw [List.length_append]
  exact Nat.le_add_left _ _

theorem readRawTag_shortens {data rest : Bytes} {fn wt : UInt32}
    (h : readRawTag data = some (fn, wt, rest)) : rest.length < data.length := by
  unfold readRawTag at h
  split at h
  · cases h
  · next hread =>
    cases h
    exact readVarint_shortens hread

/-- One round of a loop over the fields of a message. -/
def readMessageField {σ : Type} (field : σ → UInt32 → UInt32 → Bytes → Option (σ × Bytes)) (s : σ)
    (data : Bytes) : Option (σ × Bytes) :=
  match readRawTag data with
  | none => none
  | some (fn, wt, data) => field s fn wt data

theorem readMessageField_shortens {σ : Type}
    {field : σ → UInt32 → UInt32 → Bytes → Option (σ × Bytes)}
    (hfield : ∀ {s fn wt data s' rest}, field s fn wt data = some (s', rest) →
      rest.length ≤ data.length)
    {s s' : σ} {data rest : Bytes} (h : readMessageField field s data = some (s', rest)) :
    rest.length < data.length := by
  unfold readMessageField at h
  split at h
  · cases h
  · next htag => exact lt_of_le_of_lt (hfield h) (readRawTag_shortens htag)

theorem parseDurationField_shortens {d d' : Duration} {fn wt : UInt32} {data rest : Bytes}
    (h : parseDurationField d fn wt data = some (d', rest)) : rest.length ≤ data.length := by
  unfold parseDurationField at h
  split at h
  · obtain ⟨⟨v, mid⟩, hread, heq⟩ := Option.map_eq_some_iff.mp h
    cases heq
    exact (readVarint_shortens hread).le
  · split at h
    · obtain ⟨⟨v, mid⟩, hread, heq⟩ := Option.map_eq_some_iff.mp h
      cases heq
      exact (readVarint_shortens hread).le
    · obtain ⟨mid, hskip, heq⟩ := Option.map_eq_some_iff.mp h
      cases heq
      exact skipField_shortens hskip

theorem parseAnyField_shortens {any any' : AnyFields} {fn wt : UInt32} {data rest : Bytes}
    (h : parseAnyField any fn wt data = some (any', rest)) : rest.length ≤ data.length := by
  unfold parseAnyField at h
  split at h
  · obtain ⟨⟨v, mid⟩, hread, heq⟩ := Option.map_eq_some_iff.mp h
    cases heq
    exact (readLenDelim_shortens hread).le
  · split at h
    · obtain ⟨⟨v, mid⟩, hread, heq⟩ := Option.map_eq_some_iff.mp h
      cases heq
      exact (readLenDelim_shortens hread).le
    · obtain ⟨mid, hskip, heq⟩ := Option.map_eq_some_iff.mp h
      cases heq
      exact skipField_shortens hskip

def durationReader : Walk.Reader Duration UInt8 where
  read := readMessageField parseDurationField
  shortens := readMessageField_shortens parseDurationField_shortens

def anyReader : Walk.Reader AnyFields UInt8 where
  read := readMessageField parseAnyField
  shortens := readMessageField_shortens parseAnyField_shortens

def parseAny (data : Bytes) : Option (Bytes × Bytes) :=
  match Walk.walk anyReader {} data with
  | none => none
  | some any => any.value.map (any.typeUrl, ·)

section Delay

variable {α : Type} (toDelay : Duration → α)

/-- `ParseDurationMs`. -/
def parseDuration (data : Bytes) : Option α := (Walk.walk durationReader {} data).map toDelay

def readRetryDelayField (data : Bytes) : Option α :=
  match readLenDelim data with
  | none => none
  | some (delayBytes, _) => parseDuration toDelay delayBytes

/-- `ParseRetryInfoMs`. -/
def parseRetryInfo (data : Bytes) : Option α :=
  match _htag : readRawTag data with
  | none => none
  | some (fn, wt, rest) =>
      if fn = kFieldRetryDelay ∧ wt = 2 then readRetryDelayField toDelay rest
      else
        match _hskip : skipField rest wt with
        | none => none
        | some rest' => parseRetryInfo rest'
termination_by data.length
decreasing_by exact lt_of_le_of_lt (skipField_shortens _hskip) (readRawTag_shortens _htag)

def tryParseRetryInfoFromAny (anyBytes : Bytes) : Option α :=
  match parseAny anyBytes with
  | none => none
  | some (typeUrl, value) =>
      if typeUrl ≠ kRetryInfoTypeUrl then none else parseRetryInfo toDelay value

/-- `SearchStatusField`: the search ends with an answer, or goes on with what is left. -/
def searchStatusField (fn wt : UInt32) (data : Bytes) : Option α ⊕ Bytes :=
  if fn = kFieldStatusDetails ∧ wt = 2 then
    match readLenDelim data with
    | none => .inl none
    | some (anyBytes, rest) =>
        match tryParseRetryInfoFromAny toDelay anyBytes with
        | some delay => .inl (some delay)
        | none => .inr rest
  else
    match skipField data wt with
    | none => .inl none
    | some rest => .inr rest

theorem searchStatusField_shortens {fn wt : UInt32} {data rest : Bytes}
    (h : searchStatusField toDelay fn wt data = .inr rest) : rest.length ≤ data.length := by
  unfold searchStatusField at h
  split at h
  · split at h
    · cases h
    · next hread =>
      split at h
      · cases h
      · cases h
        exact (readLenDelim_shortens hread).le
  · split at h
    · cases h
    · next hskip =>
      cases h
      exact skipField_shortens hskip

def parseStatusForRetryInfo (data : Bytes) : Option α :=
  match _htag : readRawTag data with
  | none => none
  | some (fn, wt, rest) =>
      match _hsearch : searchStatusField toDelay fn wt rest with
      | .inl answer => answer
      | .inr rest' => parseStatusForRetryInfo rest'
termination_by data.length
decreasing_by
  exact lt_of_le_of_lt (searchStatusField_shortens toDelay _hsearch) (readRawTag_shortens _htag)

/-- `TryDecodeRetryDelay`. -/
def tryDecodeRetryDelay (detailsBin : Bytes) : Option α :=
  match base64UrlDecode detailsBin with
  | none => none
  | some bytes => if bytes = [] then none else parseStatusForRetryInfo toDelay bytes

end Delay

/-! ### The step from a Duration to a delay -/

theorem readRetryDelayField_map {α : Type} (f : Duration → α) (data : Bytes) :
    readRetryDelayField f data = (readRetryDelayField id data).map f := by
  unfold readRetryDelayField
  cases readLenDelim data with
  | none => rfl
  | some read =>
      simp only [parseDuration, Option.map_map]
      rfl

theorem parseRetryInfo_map {α : Type} (f : Duration → α) (data : Bytes) :
    parseRetryInfo f data = (parseRetryInfo id data).map f := by
  unfold parseRetryInfo
  split
  · rfl
  · next htag =>
    split
    · exact readRetryDelayField_map f _
    · split
      · rfl
      · next rest' hskip =>
        have hlt := lt_of_le_of_lt (skipField_shortens hskip) (readRawTag_shortens htag)
        exact parseRetryInfo_map f rest'
termination_by data.length

theorem tryParseRetryInfoFromAny_map {α : Type} (f : Duration → α) (anyBytes : Bytes) :
    tryParseRetryInfoFromAny f anyBytes = (tryParseRetryInfoFromAny id anyBytes).map f := by
  unfold tryParseRetryInfoFromAny
  cases parseAny anyBytes with
  | none => rfl
  | some any =>
      dsimp only
      split
      · rfl
      · exact parseRetryInfo_map f any.2

theorem searchStatusField_map {α : Type} (f : Duration → α) (fn wt : UInt32) (data : Bytes) :
    searchStatusField f fn wt data = (searchStatusField id fn wt data).map (Option.map f) id := by
  unfold searchStatusField
  split
  · cases readLenDelim data with
    | none => rfl
    | some read =>
        dsimp only
        rw [tryParseRetryInfoFromAny_map f]
        cases tryParseRetryInfoFromAny id read.1 <;> rfl
  · cases skipField data wt <;> rfl

theorem parseStatusForRetryInfo_step {α : Type} {f : Duration → α} {data rest : Bytes}
    {fn wt : UInt32} (htag : readRawTag data = some (fn, wt, rest)) :
    parseStatusForRetryInfo f data =
      match searchStatusField f fn wt rest with
      | .inl answer => answer
      | .inr rest' => parseStatusForRetryInfo f rest' := by
  rw [parseStatusForRetryInfo]
  split
  · next hnone =>
    rw [hnone] at htag
    cases htag
  · next hsome =>
    rw [hsome] at htag
    cases htag
    split
    · next hsearch => rw [hsearch]
    · next hsearch => rw [hsearch]

theorem parseStatusForRetryInfo_none {α : Type} {f : Duration → α} {data : Bytes}
    (htag : readRawTag data = none) : parseStatusForRetryInfo f data = none := by
  rw [parseStatusForRetryInfo]
  split
  · rfl
  · next hsome =>
    rw [hsome] at htag
    cases htag

theorem parseStatusForRetryInfo_map {α : Type} (f : Duration → α) (data : Bytes) :
    parseStatusForRetryInfo f data = (parseStatusForRetryInfo id data).map f := by
  cases htag : readRawTag data with
  | none =>
      rw [parseStatusForRetryInfo_none htag, parseStatusForRetryInfo_none htag, Option.map_none]
  | some tag =>
      obtain ⟨fn, wt, rest⟩ := tag
      rw [parseStatusForRetryInfo_step htag, parseStatusForRetryInfo_step htag,
        searchStatusField_map f]
      cases hsearch : searchStatusField id fn wt rest with
      | inl answer => rfl
      | inr rest' =>
          have hlt := lt_of_le_of_lt (searchStatusField_shortens id hsearch)
            (readRawTag_shortens htag)
          exact parseStatusForRetryInfo_map f rest'
termination_by data.length

theorem tryDecodeRetryDelay_map {α : Type} (f : Duration → α) (detailsBin : Bytes) :
    tryDecodeRetryDelay f detailsBin = (tryDecodeRetryDelay id detailsBin).map f := by
  unfold tryDecodeRetryDelay
  cases base64UrlDecode detailsBin with
  | none => rfl
  | some bytes =>
      dsimp only
      split
      · rfl
      · exact parseStatusForRetryInfo_map f bytes

end Microtel.Wire.Grpc
