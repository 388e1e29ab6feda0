import Microtel.Pipeline.RetryArithmetic
import Microtel.Wire.Base64Decoding

/-!
The readers of google.rpc.Status, google.protobuf.Any, google.rpc.RetryInfo and
google.protobuf.Duration on well-formed messages, and the delay they find in the
encoding of a status.
-/

namespace Microtel.Wire.Grpc

open ProtoWire Proto Base64 Signed64 Pipeline.RetryEngine

/-! ### One field -/

/-- A tag that announces a content of a 32-bit field number. -/
theorem readRawTag_field {text : Bytes} {f : Field} (h : FieldText text f) (rest : Bytes) :
    ∃ content, ContentText content f.content ∧
      readRawTag (text ++ rest) = some (UInt32.ofNat f.number, UInt32.ofNat f.content.wireType,
        content ++ rest) := by
  cases h with
  | @field tag content v _ htag hv hpos hmax hcontent =>
      have hbound : f.number ≤ 2 ^ 29 - 1 := hmax
      have htype := f.content.wireType_lt
      have hfield : (v >>> 3).toUInt32 = UInt32.ofNat f.number := by
        apply UInt32.toNat_inj.mp
        have hshift : (v >>> 3).toNat = v.toNat / 8 := toNat_field v
        rw [UInt64.toNat_toUInt32, hshift, UInt32.toNat_ofNat']
        omega
      have hwire : (v &&& 0x7).toUInt32 = UInt32.ofNat f.content.wireType := by
        apply UInt32.toNat_inj.mp
        have hmask : (v &&& 0x7).toNat = v.toNat % 8 := toNat_wireType v
        rw [UInt64.toNat_toUInt32, hmask, UInt32.toNat_ofNat']
        omega
      refine ⟨content, hcontent, ?_⟩
      unfold readRawTag
      rw [List.append_assoc, readVarint_exact.accepts htag]
      simp only [hfield, hwire]

theorem skipField_content {text : Bytes} {c : Content} (h : ContentText text c) (rest : Bytes) :
    skipField (text ++ rest) (UInt32.ofNat c.wireType) = some rest := by
  refine (skipField_iff _ _ _).mpr ⟨text, c, rfl, h, ?_⟩
  have htype := c.wireType_lt
  rw [UInt32.toNat_ofNat']
  omega

theorem readLenDelim_content {text octets : Bytes} (h : ContentText text (.len octets))
    (rest : Bytes) : readLenDelim (text ++ rest) = some (octets, rest) := by
  cases h with
  | len hsize hlen => exact readLenDelim_exact.accepts ⟨_, _, rfl, hsize, hlen⟩ rest

theorem readVarint_content {text : Bytes} {v : UInt64} (h : ContentText text (.varint v))
    (rest : Bytes) : readVarint (text ++ rest) = some (v, rest) := by
  cases h with
  | varint h => exact readVarint_exact.accepts h rest

theorem ofNat_eq_iff {n : Nat} (h : n < 2 ^ 32) (k : UInt32) :
    UInt32.ofNat n = k ↔ n = k.toNat := by
  rw [← UInt32.toNat_inj, UInt32.toNat_ofNat_of_lt' h]

theorem FieldText.number_lt {text : Bytes} {f : Field} (h : FieldText text f) :
    f.number < 2 ^ 32 := by
  cases h with
  | field _ _ _ hmax _ =>
      have hbound : f.number ≤ 2 ^ 29 - 1 := hmax
      omega

/-- Whether a field has the number and the type of content a reader looks for. -/
theorem tag_iff {text : Bytes} {f : Field} (h : FieldText text f) (number wireType : UInt32) :
    (UInt32.ofNat f.number = number ∧ UInt32.ofNat f.content.wireType = wireType) ↔
      f.number = number.toNat ∧ f.content.wireType = wireType.toNat := by
  have htype := f.content.wireType_lt
  rw [ofNat_eq_iff (FieldText.number_lt h), ofNat_eq_iff (by omega)]

/-! ### Messages -/

/-- What a field of google.protobuf.Duration sets. -/
def durationStep (d : Duration) : Field → Duration
  | ⟨1, .varint v⟩ => { d with seconds := v.toInt64 }
  | ⟨2, .varint v⟩ => { d with nanos := v.toUInt32.toInt32 }
  | _ => d

/-- What a field of google.protobuf.Any sets. -/
def anyStep (any : AnyFields) : Field → AnyFields
  | ⟨1, .len octets⟩ => { any with typeUrl := octets }
  | ⟨2, .len octets⟩ => { any with value := some octets }
  | _ => any

theorem varint_of_wireType {c : Content} (h : c.wireType = 0) : ∃ v, c = .varint v := by
  cases c with
  | varint v => exact ⟨v, rfl⟩
  | fixed64 | len | fixed32 => cases h

theorem len_of_wireType {c : Content} (h : c.wireType = 2) : ∃ octets, c = .len octets := by
  cases c with
  | len octets => exact ⟨octets, rfl⟩
  | varint | fixed64 | fixed32 => cases h

theorem durationStep_other {d : Duration} {f : Field}
    (h1 : ¬ (f.number = 1 ∧ f.content.wireType = 0))
    (h2 : ¬ (f.number = 2 ∧ f.content.wireType = 0)) : durationStep d f = d := by
  unfold durationStep
  split
  · exact absurd ⟨rfl, rfl⟩ h1
  · exact absurd ⟨rfl, rfl⟩ h2
  · rfl

theorem anyStep_other {any : AnyFields} {f : Field}
    (h1 : ¬ (f.number = 1 ∧ f.content.wireType = 2))
    (h2 : ¬ (f.number = 2 ∧ f.content.wireType = 2)) : anyStep any f = any := by
  unfold anyStep
  split
  · exact absurd ⟨rfl, rfl⟩ h1
  · exact absurd ⟨rfl, rfl⟩ h2
  · rfl

theorem readDurationField {d : Duration} {text : Bytes} {f : Field} (rest : Bytes)
    (h : FieldText text f) :
    durationReader.read d (text ++ rest) = some (durationStep d f, rest) := by
  obtain ⟨content, hcontent, htag⟩ := readRawTag_field h rest
  change readMessageField parseDurationField d (text ++ rest) = _
  unfold readMessageField parseDurationField
  rw [htag]
  dsimp only
  have hfirst : (UInt32.ofNat f.number = kFieldDurationSeconds ∧
    UInt32.ofNat f.content.wireType = 0) ↔
      f.number = 1 ∧ f.content.wireType = 0 := tag_iff h _ _
  have hsecond : (UInt32.ofNat f.number = kFieldDurationNanos ∧
    UInt32.ofNat f.content.wireType = 0) ↔
      f.number = 2 ∧ f.content.wireType = 0 := tag_iff h _ _
  rw [if_congr hfirst rfl rfl, if_congr hsecond rfl rfl]
  by_cases h1 : f.number = 1 ∧ f.content.wireType = 0
  · obtain ⟨number, c⟩ := f
    obtain ⟨rfl, hc⟩ := h1
    obtain ⟨v, rfl⟩ := varint_of_wireType hc
    rw [if_pos ⟨rfl, rfl⟩, readVarint_content hcontent rest]
    rfl
  · rw [if_neg h1]
    by_cases h2 : f.number = 2 ∧ f.content.wireType = 0
    · obtain ⟨number, c⟩ := f
      obtain ⟨rfl, hc⟩ := h2
      obtain ⟨v, rfl⟩ := varint_of_wireType hc
      rw [if_pos ⟨rfl, rfl⟩, readVarint_content hcontent rest]
      rfl
    · rw [if_neg h2, skipField_content hcontent rest, durationStep_other h1 h2]
      rfl

theorem readAnyField {any : AnyFields} {text : Bytes} {f : Field} (rest : Bytes)
    (h : FieldText text f) : anyReader.read any (text ++ rest) = some (anyStep any f, rest) := by
  obtain ⟨content, hcontent, htag⟩ := readRawTag_field h rest
  change readMessageField parseAnyField any (text ++ rest) = _
  unfold readMessageField parseAnyField
  rw [htag]
  dsimp only
  have hfirst : (UInt32.ofNat f.number = kFieldAnyTypeUrl ∧ UInt32.ofNat f.content.wireType = 2) ↔
      f.number = 1 ∧ f.content.wireType = 2 := tag_iff h _ _
  have hsecond : (UInt32.ofNat f.number = kFieldAnyValue ∧ UInt32.ofNat f.content.wireType = 2) ↔
      f.number = 2 ∧ f.content.wireType = 2 := tag_iff h _ _
  rw [if_congr hfirst rfl rfl, if_congr hsecond rfl rfl]
  by_cases h1 : f.number = 1 ∧ f.content.wireType = 2
  · obtain ⟨number, c⟩ := f
    obtain ⟨rfl, hc⟩ := h1
    obtain ⟨octets, rfl⟩ := len_of_wireType hc
    rw [if_pos ⟨rfl, rfl⟩, readLenDelim_content hcontent rest]
    rfl
  · rw [if_neg h1]
    by_cases h2 : f.number = 2 ∧ f.content.wireType = 2
    · obtain ⟨number, c⟩ := f
      obtain ⟨rfl, hc⟩ := h2
      obtain ⟨octets, rfl⟩ := len_of_wireType hc
      rw [if_pos ⟨rfl, rfl⟩, readLenDelim_content hcontent rest]
      rfl
    · rw [if_neg h2, skipField_content hcontent rest, anyStep_other h1 h2]
      rfl

section Messages

variable {α : Type} {toDelay : Duration → α} {text : Bytes} {fields : List Field}

theorem parseDuration_message (h : MessageText text fields) :
    parseDuration toDelay text = some (toDelay (fields.foldl durationStep {})) := by
  unfold parseDuration
  rw [Walk.walk_of_sequence (G := FieldText) readDurationField h, Option.map_some]

theorem parseAny_message (h : MessageText text fields) :
    parseAny text =
      (fields.foldl anyStep {}).value.map ((fields.foldl anyStep {}).typeUrl, ·) := by
  unfold parseAny
  rw [Walk.walk_of_sequence (G := FieldText) readAnyField h]

/-- What a field carries if it is `number` and of the length-delimited type. -/
def lenOf (number : Nat) : Field → Option Bytes
  | ⟨n, .len octets⟩ => if n = number then some octets else none
  | _ => none

theorem lenOf_eq_some {number : Nat} {f : Field} {octets : Bytes}
    (h : lenOf number f = some octets) :
    f = ⟨number, .len octets⟩ := by
  obtain ⟨n, c⟩ := f
  cases c with
  | len o =>
      simp only [lenOf, Option.ite_none_right_eq_some, Option.some.injEq] at h
      rw [h.1, h.2]
  | varint v => cases h
  | fixed64 o => cases h
  | fixed32 o => cases h

theorem lenOf_eq_none {number : Nat} {f : Field} (h : lenOf number f = none) :
    ¬ (f.number = number ∧ f.content.wireType = 2) := by
  obtain ⟨n, c⟩ := f
  rintro ⟨hn, hc⟩
  cases c with
  | len o => simp [lenOf, show n = number from hn] at h
  | varint v => cases hc
  | fixed64 o => cases hc
  | fixed32 o => cases hc

theorem parseRetryInfo_nil : parseRetryInfo toDelay [] = none := by
  rw [parseRetryInfo]
  rfl

theorem parseRetryInfo_step {data rest : Bytes} {fn wt : UInt32}
    (htag : readRawTag data = some (fn, wt, rest)) :
    parseRetryInfo toDelay data =
      if fn = kFieldRetryDelay ∧ wt = 2 then readRetryDelayField toDelay rest
      else (skipField rest wt).bind (parseRetryInfo toDelay) := by
  rw [parseRetryInfo]
  split
  · next hnone =>
    rw [hnone] at htag
    cases htag
  · next hsome =>
    rw [hsome] at htag
    cases htag
    split
    · rfl
    · split
      · next hskip => rw [hskip]; rfl
      · next hskip => rw [hskip]; rfl

/-- The first `retry_delay` is the one. -/
theorem parseRetryInfo_message (h : MessageText text fields) :
    parseRetryInfo toDelay text = (fields.findSome? (lenOf 1)).bind (parseDuration toDelay) := by
  induction h with
  | nil => exact parseRetryInfo_nil
  | @cons text rest f fields hf hrest ih =>
      obtain ⟨content, hcontent, htag⟩ := readRawTag_field hf rest
      have htype : (UInt32.ofNat f.number = kFieldRetryDelay ∧
          UInt32.ofNat f.content.wireType = 2) ↔ f.number = 1 ∧ f.content.wireType = 2 :=
        tag_iff hf _ _
      rw [parseRetryInfo_step htag, if_congr htype rfl rfl]
      cases hlen : lenOf 1 f with
      | some octets =>
          obtain rfl := lenOf_eq_some hlen
          have hread := readLenDelim_content hcontent rest
          rw [if_pos ⟨rfl, rfl⟩, List.findSome?_cons_of_isSome (by rw [hlen]; rfl), hlen]
          unfold readRetryDelayField
          rw [hread]
          rfl
      | none =>
          rw [if_neg (lenOf_eq_none hlen), skipField_content hcontent rest,
            List.findSome?_cons_of_isNone (by rw [hlen]; rfl), Option.bind_some, ih]

/-- The first detail that gives a delay. -/
theorem parseStatus_message (h : MessageText text fields) :
    parseStatusForRetryInfo toDelay text =
      (fields.filterMap (lenOf 3)).findSome? (tryParseRetryInfoFromAny toDelay) := by
  induction h with
  | nil => exact parseStatusForRetryInfo_none rfl
  | @cons text rest f fields hf hrest ih =>
      obtain ⟨content, hcontent, htag⟩ := readRawTag_field hf rest
      have htype : (UInt32.ofNat f.number = kFieldStatusDetails ∧
          UInt32.ofNat f.content.wireType = 2) ↔ f.number = 3 ∧ f.content.wireType = 2 :=
        tag_iff hf _ _
      rw [parseStatusForRetryInfo_step htag]
      unfold searchStatusField
      rw [if_congr htype rfl rfl]
      cases hlen : lenOf 3 f with
      | some octets =>
          obtain rfl := lenOf_eq_some hlen
          have hread := readLenDelim_content hcontent rest
          rw [if_pos ⟨rfl, rfl⟩, hread, List.filterMap_cons_some hlen, List.findSome?_cons]
          dsimp only
          cases tryParseRetryInfoFromAny toDelay octets with
          | some delay => rfl
          | none => exact ih
      | none =>
          rw [if_neg (lenOf_eq_none hlen), skipField_content hcontent rest,
            List.filterMap_cons_none hlen]
          exact ih

end Messages

/-! ### Statuses and their encodings -/

/-- A scalar field, left out at its default. -/
def varintField (number : Nat) (v : UInt64) : List Field :=
  if v = 0 then [] else [⟨number, .varint v⟩]

def lenField (number : Nat) (octets : Bytes) : List Field :=
  if octets = [] then [] else [⟨number, .len octets⟩]

def Duration.fields (d : Duration) : List Field :=
  varintField 1 d.seconds.toUInt64 ++ varintField 2 d.nanos.toInt64.toUInt64

/-- google.rpc.RetryInfo: a message field is there whenever it is set. -/
def retryInfoFields : Option Duration → List Field
  | none => []
  | some delay => [⟨1, .len (encodeMessage delay.fields)⟩]

/-- A detail of a status: a RetryInfo, or a message of another type. -/
inductive Detail
  | retryInfo (delay : Option Duration)
  | other (typeUrl value : Bytes) (h : typeUrl ≠ kRetryInfoTypeUrl)

def Detail.typeUrl : Detail → Bytes
  | retryInfo _ => kRetryInfoTypeUrl
  | other typeUrl _ _ => typeUrl

def Detail.value : Detail → Bytes
  | retryInfo delay => encodeMessage (retryInfoFields delay)
  | other _ value _ => value

def Detail.delay? : Detail → Option Duration
  | retryInfo delay => delay
  | other _ _ _ => none

/-- google.protobuf.Any. -/
def Detail.fields (detail : Detail) : List Field :=
  lenField 1 detail.typeUrl ++ lenField 2 detail.value

/-- google.rpc.Status. -/
structure RpcStatus where
  code : Int32
  message : Bytes
  details : List Detail

def RpcStatus.fields (status : RpcStatus) : List Field :=
  varintField 1 status.code.toInt64.toUInt64 ++ lenField 2 status.message ++
    status.details.map fun detail => ⟨3, .len (encodeMessage detail.fields)⟩

def RpcStatus.encode (status : RpcStatus) : Bytes := encodeMessage status.fields

/-- The delay of the first RetryInfo that has one. -/
def RpcStatus.firstDelay (status : RpcStatus) : Option Duration :=
  status.details.findSome? Detail.delay?

/-! ### Reading an encoding -/

/-- Fields numbered one to three that are no fixed-width ones. -/
def Plain (f : Field) : Prop :=
  1 ≤ f.number ∧ f.number ≤ 3 ∧
    ((∃ v, f.content = .varint v) ∨ ∃ octets, f.content = .len octets)

theorem plain_varintField {number : Nat} {v : UInt64} (h1 : 1 ≤ number) (h3 : number ≤ 3) :
    ∀ f ∈ varintField number v, Plain f := by
  unfold varintField
  split
  · simp
  · intro f hf
    obtain rfl := List.mem_singleton.mp hf
    exact ⟨h1, h3, .inl ⟨v, rfl⟩⟩

theorem plain_lenField {number : Nat} {octets : Bytes} (h1 : 1 ≤ number) (h3 : number ≤ 3) :
    ∀ f ∈ lenField number octets, Plain f := by
  unfold lenField
  split
  · simp
  · intro f hf
    obtain rfl := List.mem_singleton.mp hf
    exact ⟨h1, h3, .inr ⟨octets, rfl⟩⟩

/-- A message whose encoding has a 64-bit length is a well-formed text. -/
theorem messageText_plain {fields : List Field} (hplain : ∀ f ∈ fields, Plain f)
    (hsize : (encodeMessage fields).length < 2 ^ 64) :
    MessageText (encodeMessage fields) fields := by
  apply messageText_encodeMessage
  intro f hf
  obtain ⟨h1, h3, hcontent⟩ := hplain f hf
  have hmax : 3 ≤ maxFieldNumber := by decide
  obtain ⟨number, content⟩ := f
  refine ⟨h1, h3.trans hmax, ?_⟩
  rcases hcontent with ⟨v, rfl⟩ | ⟨octets, rfl⟩
  · trivial
  · exact lt_of_le_of_lt (length_le_encodeMessage hf) hsize

/-- A sign-extended value is cut back to itself. -/
theorem toInt32_toUInt64 (v : Int32) : v.toInt64.toUInt64.toUInt32.toInt32 = v := by
  have hwidth : (v.toBitVec.signExtend 64).setWidth 32 = v.toBitVec := by
    apply BitVec.eq_of_getLsbD_eq
    intro i hi
    rw [BitVec.getLsbD_setWidth, BitVec.getLsbD_signExtend]
    simp [hi]
    omega
  apply Int32.toBitVec_inj.mp
  simpa using hwidth

theorem foldl_durationFields (d : Duration) : d.fields.foldl durationStep {} = d := by
  have hseconds : ∀ v : UInt64,
      (varintField 1 v).foldl durationStep {} = { seconds := v.toInt64 } := by
    intro v
    unfold varintField
    split
    · next hzero => rw [hzero]; rfl
    · rfl
  have hnanos : ∀ (s : Int64) (v : UInt64),
      (varintField 2 v).foldl durationStep { seconds := s } =
        { seconds := s, nanos := v.toUInt32.toInt32 } := by
    intro s v
    unfold varintField
    split
    · next hzero => rw [hzero]; rfl
    · rfl
  unfold Duration.fields
  rw [List.foldl_append, hseconds, hnanos, toInt32_toUInt64]
  rfl

theorem foldl_anyFields (typeUrl value : Bytes) :
    (lenField 1 typeUrl ++ lenField 2 value).foldl anyStep {} =
      { typeUrl, value := if value = [] then none else some value } := by
  unfold lenField
  by_cases hurl : typeUrl = []
  · by_cases hvalue : value = []
    · simp [hurl, hvalue]
    · simp [hurl, hvalue, anyStep]
  · by_cases hvalue : value = []
    · simp [hurl, hvalue, anyStep]
    · simp [hurl, hvalue, anyStep]

theorem Duration.plain (d : Duration) : ∀ f ∈ d.fields, Plain f :=
  List.forall_mem_append.mpr
    ⟨plain_varintField (by decide) (by decide), plain_varintField (by decide) (by decide)⟩

theorem Detail.plain (detail : Detail) : ∀ f ∈ detail.fields, Plain f :=
  List.forall_mem_append.mpr
    ⟨plain_lenField (by decide) (by decide), plain_lenField (by decide) (by decide)⟩

theorem RpcStatus.plain (status : RpcStatus) : ∀ f ∈ status.fields, Plain f := by
  refine List.forall_mem_append.mpr ⟨List.forall_mem_append.mpr
    ⟨plain_varintField (by decide) (by decide), plain_lenField (by decide) (by decide)⟩, ?_⟩
  intro f hf
  obtain ⟨detail, -, rfl⟩ := List.mem_map.mp hf
  exact ⟨show 1 ≤ 3 by decide, Nat.le_refl 3, .inr ⟨_, rfl⟩⟩

section Reading

variable {α : Type} (toDelay : Duration → α)

theorem parseRetryInfo_value {delay : Option Duration}
    (hsize : (encodeMessage (retryInfoFields delay)).length < 2 ^ 64) :
    parseRetryInfo toDelay (encodeMessage (retryInfoFields delay)) = delay.map toDelay := by
  cases delay with
  | none => exact parseRetryInfo_nil
  | some d =>
      have hplain : ∀ f ∈ retryInfoFields (some d), Plain f := by
        intro f hf
        obtain rfl := List.mem_singleton.mp hf
        exact ⟨Nat.le_refl 1, show 1 ≤ 3 by decide, .inr ⟨_, rfl⟩⟩
      have hinner : (encodeMessage d.fields).length < 2 ^ 64 :=
        lt_of_le_of_lt (length_le_encodeMessage (List.mem_singleton.mpr rfl)) hsize
      have hdelay : parseDuration toDelay (encodeMessage d.fields) =
          some (toDelay (d.fields.foldl durationStep {})) :=
        parseDuration_message (messageText_plain d.plain hinner)
      rw [parseRetryInfo_message (messageText_plain hplain hsize)]
      change parseDuration toDelay (encodeMessage d.fields) = _
      rw [hdelay, foldl_durationFields]
      rfl

/-- A detail gives the delay of its RetryInfo, if it is one and has one. -/
theorem tryParseRetryInfoFromAny_detail {detail : Detail}
    (hsize : (encodeMessage detail.fields).length < 2 ^ 64) :
    tryParseRetryInfoFromAny toDelay (encodeMessage detail.fields) =
      detail.delay?.map toDelay := by
  have hany : parseAny (encodeMessage detail.fields) =
      (if detail.value = [] then none else some detail.value).map (detail.typeUrl, ·) := by
    rw [parseAny_message (messageText_plain detail.plain hsize)]
    unfold Detail.fields
    rw [foldl_anyFields]
  unfold tryParseRetryInfoFromAny
  rw [hany]
  by_cases hvalue : detail.value = []
  · rw [if_pos hvalue]
    cases detail with
    | other typeUrl value h => rfl
    | retryInfo delay =>
        cases delay with
        | none => rfl
        | some d =>
            have hlong : 0 < (encodeMessage (retryInfoFields (some d))).length := by
              simp [retryInfoFields, encodeMessage, Field.text, Content.text,
                List.length_pos_iff, (encodeVarint_text _).ne_nil]
            have hnil : encodeMessage (retryInfoFields (some d)) = [] := hvalue
            rw [hnil] at hlong
            cases hlong
  · rw [if_neg hvalue, Option.map_some]
    dsimp only
    cases detail with
    | other typeUrl value h => exact if_pos h
    | retryInfo delay =>
        have hmem : (⟨2, .len (Detail.retryInfo delay).value⟩ : Field) ∈
            (Detail.retryInfo delay).fields := by
          unfold Detail.fields lenField
          rw [if_neg hvalue]
          exact List.mem_append_right _ (List.mem_singleton.mpr rfl)
        have hinner := lt_of_le_of_lt (length_le_encodeMessage hmem) hsize
        rw [if_neg (by exact not_not.mpr rfl)]
        exact parseRetryInfo_value toDelay hinner

theorem filterMap_details (status : RpcStatus) : status.fields.filterMap (lenOf 3) =
    status.details.map fun detail => encodeMessage detail.fields := by
  have hscalar : ∀ v, (varintField 1 v).filterMap (lenOf 3) = [] := by
    intro v
    unfold varintField
    split <;> rfl
  have hmessage : ∀ octets, (lenField 2 octets).filterMap (lenOf 3) = [] := by
    intro octets
    unfold lenField
    split <;> rfl
  have hdetails : lenOf 3 ∘
    (fun detail : Detail => (⟨3, .len (encodeMessage detail.fields)⟩ : Field)) =
      fun detail => some (encodeMessage detail.fields) := by
    funext detail
    rfl
  unfold RpcStatus.fields
  rw [List.filterMap_append, List.filterMap_append, hscalar, hmessage, List.filterMap_map, hdetails,
    List.filterMap_eq_map']
  rfl

/-- The search finds the delay of the first RetryInfo that has one. -/
theorem parseStatus_encode {status : RpcStatus} (hsize : status.encode.length < 2 ^ 64) :
    parseStatusForRetryInfo toDelay status.encode = status.firstDelay.map toDelay := by
  have hdetail : ∀ detail ∈ status.details,
      tryParseRetryInfoFromAny toDelay (encodeMessage detail.fields) =
        detail.delay?.map toDelay := by
    intro detail hmem
    have hfield : (⟨3, .len (encodeMessage detail.fields)⟩ : Field) ∈ status.fields :=
      List.mem_append_right _ (List.mem_map_of_mem hmem)
    exact tryParseRetryInfoFromAny_detail toDelay
      (lt_of_le_of_lt (length_le_encodeMessage hfield) hsize)
  unfold RpcStatus.firstDelay
  rw [RpcStatus.encode, parseStatus_message (messageText_plain status.plain hsize),
    filterMap_details, List.findSome?_map]
  generalize status.details = details at hdetail
  induction details with
  | nil => rfl
  | cons detail details ih =>
      obtain ⟨hfirst, hrest⟩ := List.forall_mem_cons.mp hdetail
      rw [List.findSome?_cons, List.findSome?_cons, Function.comp_apply, hfirst]
      cases detail.delay? with
      | some d => rfl
      | none => exact ih hrest

theorem tryDecodeRetryDelay_text {status : RpcStatus} (hsize : status.encode.length < 2 ^ 64)
    (alphabet : Alphabet) (padded : Bool) :
    tryDecodeRetryDelay toDelay (text alphabet padded status.encode) =
      status.firstDelay.map toDelay := by
  have hparse := parseStatus_encode toDelay hsize
  unfold tryDecodeRetryDelay
  rw [base64UrlDecode_text]
  dsimp only
  split
  · next hnil =>
    rw [← hparse, hnil]
    exact (parseStatusForRetryInfo_none rfl).symm
  · exact hparse

end Reading

/-! ### The delay of a RetryInfo -/

/-- Up to ten thousand years. -/
def Duration.Bounded (d : Duration) : Prop :=
  0 ≤ d.seconds.toInt ∧ d.seconds.toInt ≤ 315576000000 ∧
    0 ≤ d.nanos.toInt ∧ d.nanos.toInt ≤ 999999999

instance (d : Duration) : Decidable d.Bounded := inferInstanceAs (Decidable (_ ∧ _))

/-- The delay of the first RetryInfo whose delay is bounded. -/
def RpcStatus.firstBounded (status : RpcStatus) : Option Duration :=
  status.details.findSome? fun detail => detail.delay?.filter fun d => d.Bounded

/-- The delay found is that of the first RetryInfo with a bounded one, in whole
milliseconds, and none is found where no RetryInfo has one. -/
structure RecoveredDelay (status : RpcStatus) (found : Option Int64) : Prop where
  delay : ∀ d, status.firstBounded = some d → ∃ ms, found = some ms ∧ ms.toInt = exactMs d
  none : (∀ detail ∈ status.details, detail.delay? = none) → found = none

theorem toInt_durationMs_wrap (d : Duration) : (durationMs d).toInt = wrap (exactMs d) := by
  have hdiv : (d.nanos / kNanosPerMilli).toInt64.toInt = d.nanos.toInt.tdiv 1000000 := by
    rw [Int32.toInt_toInt64, Int32.toInt_div_of_ne_right _ _ (by decide)]
    rfl
  rw [durationMs, Int64.toInt_add, Int64.toInt_mul, hdiv]
  exact Int.bmod_add_bmod

theorem exactMs_inRange {d : Duration} (h : d.Bounded) : InRange (exactMs d) := by
  obtain ⟨hs, hs', hn, hn'⟩ := h
  unfold exactMs
  rw [Int.tdiv_eq_ediv_of_nonneg hn]
  constructor <;> omega

theorem RpcStatus.firstDelay_of_firstBounded {status : RpcStatus} {d : Duration}
    (h : status.firstBounded = some d) : ∃ first, status.firstDelay = some first := by
  obtain ⟨detail, hmem, hdetail⟩ := List.exists_of_findSome?_eq_some h
  obtain ⟨hdelay, -⟩ := Option.filter_eq_some_iff.mp hdetail
  apply Option.isSome_iff_exists.mp
  exact List.findSome?_isSome_iff.mpr ⟨detail, hmem, by rw [hdelay]; rfl⟩

theorem RpcStatus.bounded_of_firstBounded {status : RpcStatus} {d : Duration}
    (h : status.firstBounded = some d) : d.Bounded := by
  obtain ⟨detail, -, hdetail⟩ := List.exists_of_findSome?_eq_some h
  exact of_decide_eq_true (Option.filter_eq_some_iff.mp hdetail).2

/-- Where every delay is bounded, the first bounded one is the first. -/
theorem RpcStatus.firstBounded_eq {status : RpcStatus}
    (h : ∀ detail ∈ status.details, ∀ d, detail.delay? = some d → d.Bounded) :
    status.firstBounded = status.firstDelay := by
  have hkeep : ∀ detail ∈ status.details,
      detail.delay?.filter (fun d => d.Bounded) = detail.delay? := by
    intro detail hmem
    cases hdelay : detail.delay? with
    | none => rfl
    | some d => exact Option.filter_some_pos (decide_eq_true (h detail hmem d hdelay))
  unfold firstBounded firstDelay
  generalize status.details = details at hkeep
  induction details with
  | nil => rfl
  | cons detail details ih =>
      obtain ⟨hfirst, hrest⟩ := List.forall_mem_cons.mp hkeep
      rw [List.findSome?_cons, List.findSome?_cons, hfirst, ih hrest]

/-- An earlier delay out of bounds does not matter if it comes to the same number of
milliseconds in 64 bits. -/
def RpcStatus.FirstStands (status : RpcStatus) : Prop :=
  ∀ d first, status.firstBounded = some d → status.firstDelay = some first →
    wrap (exactMs first) = exactMs d

theorem RpcStatus.firstStands_of_bounded {status : RpcStatus}
    (h : ∀ detail ∈ status.details, ∀ d, detail.delay? = some d → d.Bounded) :
    status.FirstStands := by
  intro d first hd hfirst
  have hbounded := bounded_of_firstBounded hd
  rw [firstBounded_eq h, hfirst] at hd
  obtain rfl := Option.some.inj hd
  exact wrap_of_inRange (exactMs_inRange hbounded)

theorem recoveredDelay_iff (status : RpcStatus) :
    RecoveredDelay status (status.firstDelay.map durationMs) ↔ status.FirstStands := by
  constructor
  · rintro ⟨hdelay, -⟩ d first hd hfirst
    obtain ⟨ms, hms, hvalue⟩ := hdelay d hd
    rw [hfirst] at hms
    obtain rfl := Option.some.inj hms
    rw [← hvalue, toInt_durationMs_wrap]
  · intro hstands
    constructor
    · intro d hd
      obtain ⟨first, hfirst⟩ := RpcStatus.firstDelay_of_firstBounded hd
      refine ⟨durationMs first, by rw [hfirst]; rfl, ?_⟩
      rw [toInt_durationMs_wrap, hstands d first hd hfirst]
    · intro hnone
      have hfirst : status.firstDelay = none := List.findSome?_eq_none_iff.mpr hnone
      rw [hfirst]
      rfl

/-- From the text of any status the delay of its first RetryInfo with one is
recovered, which is the first bounded one unless one out of bounds comes before it;
and what is no base64 is refused, but for a last character on its own. -/
theorem retryInfo_recovered_iff (status : RpcStatus) (alphabet : Alphabet) (padded : Bool)
    (hsize : (text alphabet padded status.encode).length < 2 ^ 64) (sv : Bytes) :
    tryDecodeRetryDelay durationMs (text alphabet padded status.encode) =
        status.firstDelay.map durationMs ∧
      (RecoveredDelay status
          (tryDecodeRetryDelay durationMs (text alphabet padded status.encode)) ↔
        status.FirstStands) ∧
      ((NotBase64 sv → base64UrlDecode sv = none) ↔
        ¬ ((unpadded sv).length % 4 = 1 ∧ ∀ c ∈ (unpadded sv).dropLast, IsChar c)) := by
  have hlen : status.encode.length < 2 ^ 64 :=
    lt_of_le_of_lt (length_le_text alphabet padded status.encode) hsize
  have hfound := tryDecodeRetryDelay_text durationMs hlen alphabet padded
  refine ⟨hfound, ?_, base64UrlDecode_rejects_iff sv⟩
  rw [hfound]
  exact recoveredDelay_iff status

/-- An overload that is over in two and a half seconds, among other details. -/
def overloadStatus : RpcStatus where
  code := 8
  message := Concentrator.ascii "slow down"
  details :=
    [.other (Concentrator.ascii "type.googleapis.com/google.rpc.DebugInfo")
        (Concentrator.ascii "queue") (by decide),
      .retryInfo none, .retryInfo (some ⟨2, 500000000⟩)]

theorem retryInfo_recovered_overload :
    RecoveredDelay overloadStatus
        (tryDecodeRetryDelay durationMs (text .urlSafe false overloadStatus.encode)) ∧
      tryDecodeRetryDelay durationMs (text .urlSafe false overloadStatus.encode) = some 2500 := by
  have hsize : (text .urlSafe false overloadStatus.encode).length < 2 ^ 64 := by decide +kernel
  obtain ⟨hfound, hrecovered, -⟩ :=
    retryInfo_recovered_iff overloadStatus .urlSafe false hsize []
  have hfirst : overloadStatus.firstDelay = some ⟨2, 500000000⟩ := rfl
  refine ⟨hrecovered.mpr (RpcStatus.firstStands_of_bounded ?_), ?_⟩
  · intro detail hmem d hd
    have hall : ∀ detail ∈ overloadStatus.details, ∀ d ∈ detail.delay?, d.Bounded := by
      decide +kernel
    exact hall detail hmem d hd
  · rw [hfound, hfirst]
    decide

/-- A fifth character is not looked at. -/
theorem base64UrlDecode_loneCharacter :
    NotBase64 (Concentrator.ascii "QUJD!") ∧
      base64UrlDecode (Concentrator.ascii "QUJD!") = some (Concentrator.ascii "ABC") ∧
      ¬ (NotBase64 (Concentrator.ascii "QUJD!") →
        base64UrlDecode (Concentrator.ascii "QUJD!") = none) := by
  have hdecode : base64UrlDecode (Concentrator.ascii "QUJD!") =
      some (Concentrator.ascii "ABC") := by
    decide +kernel
  have hlone : NotBase64 (Concentrator.ascii "QUJD!") := .inr (by decide +kernel)
  refine ⟨hlone, hdecode, ?_⟩
  intro hrefused
  rw [hrefused hlone] at hdecode
  cases hdecode

end Microtel.Wire.Grpc
