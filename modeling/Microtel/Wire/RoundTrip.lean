import Microtel.Wire.OtlpTraceDecoder

/-!
Decoding what the trace encoder wrote. The decoder returns the batch's spans in
order, each in a normal form: OTLP carries neither the flags, the state and the
origin of a context nor the trace id of a parent, a status without a code has
no description, and an empty array has no element type.
-/

namespace Microtel

/-! ### Normal forms -/

def AttributeValue.normalized : AttributeValue → AttributeValue
  | .bools [] | .ints [] | .doubles [] => .strings []
  | v => v

def KeyValue.normalized (kv : KeyValue) : KeyValue := ⟨kv.key, kv.value.normalized⟩

def SpanEvent.normalized (ev : SpanEvent) : SpanEvent :=
  { ev with attributes := ev.attributes.map KeyValue.normalized }

def SpanLink.normalized (lnk : SpanLink) : SpanLink where
  linkedContext := { traceId := lnk.linkedContext.traceId, spanId := lnk.linkedContext.spanId }
  attributes := lnk.attributes.map KeyValue.normalized

variable {ρ ρ' : Type}

def SpanRecord.normalized (record : SpanRecord ρ) : SpanRecord ρ' where
  context := { traceId := record.context.traceId, spanId := record.context.spanId }
  parentContext :=
    if record.parentContext.isValid then
      { traceId := record.context.traceId, spanId := record.parentContext.spanId }
    else {}
  name := record.name
  kind := record.kind
  statusCode := record.statusCode
  statusDescription := if record.statusCode = .unset then [] else record.statusDescription
  startTime := record.startTime
  endTime := record.endTime
  attributes := record.attributes.map KeyValue.normalized
  events := record.events.map SpanEvent.normalized
  links := record.links.map SpanLink.normalized
  resource := none

/-- What a batch decodes to. -/
def BatchHandle.decoding (batch : BatchHandle (List KeyValue)) : DecodedResourceSpans ρ' where
  resource := batch.resource.map KeyValue.normalized
  scopes := [{ scope := batch.scope, spans := batch.records.map SpanRecord.normalized }]
  droppedSpanAttributes := 0
  droppedResourceAttributes := 0

/-! ### Times and strings -/

/-- A time point that is not before the epoch; `system_clock` counts in `int64_t`. -/
def NonNegativeTime (t : Int) : Prop := 0 ≤ t ∧ t ≤ 2 ^ 63 - 1

structure SpanRecord.NonNegativeTimes (record : SpanRecord ρ) : Prop where
  startTime : NonNegativeTime record.startTime
  endTime : NonNegativeTime record.endTime
  events : ∀ ev ∈ record.events, NonNegativeTime ev.timestamp

def AttributeValue.texts : AttributeValue → List Bytes
  | .string v => [v]
  | .strings vs => vs
  | _ => []

def KeyValue.texts (kv : KeyValue) : List Bytes := kv.key :: kv.value.texts

def SpanRecord.texts (record : SpanRecord ρ) : List Bytes :=
  [record.name, record.statusDescription] ++ record.attributes.flatMap KeyValue.texts ++
    (record.events.flatMap fun ev => ev.name :: ev.attributes.flatMap KeyValue.texts) ++
    record.links.flatMap fun lnk => lnk.attributes.flatMap KeyValue.texts

/-- The strings of a batch that the encoder reads. -/
def BatchHandle.texts (batch : BatchHandle (List KeyValue)) : List Bytes :=
  [batch.scope.name, batch.scope.version] ++ batch.resource.flatMap KeyValue.texts ++
    batch.records.flatMap SpanRecord.texts

namespace Wire

/-! ### Scalars and attributes -/

theorem toTime_toNanos {t : Int} (h : NonNegativeTime t) : toTime (toNanos t) = some t := by
  obtain ⟨hlow, hhigh⟩ := h
  have hmod : t % 2 ^ 64 = t := Int.emod_eq_of_lt hlow (by omega)
  have hnat : (toNanos t).toNat = t.toNat := by
    unfold toNanos UInt64.ofInt
    rw [hmod, UInt64.toNat_ofNat']
    apply Nat.mod_eq_of_lt
    omega
  unfold toTime
  rw [hnat, if_neg (by omega), Int.toNat_of_nonneg hlow]

theorem toId_toList {size : Nat} (v : Vector UInt8 size) : toId size v.toList = some v := by
  unfold toId
  rw [dif_pos (by simp)]
  simp [Vector.toList]

theorem convertKind_mapKind (kind : SpanKind) : convertKind (mapKind kind) = some kind := by
  cases kind <;> rfl

theorem convertStatusCode_mapStatusCode (code : StatusCode) :
    convertStatusCode (mapStatusCode code) = some code := by
  cases code <;> rfl

/-- An array of one element type reads back, for each of the four. -/
theorem collectArray_map {T : Type} {get : AttributeValue → Option T}
    {wrap : List T → AttributeValue}
    {scalar : T → Upb.AnyValue} (hscalar : ∀ v, (convertScalar (scalar v)).bind get = some v)
    (vs : List T) : collectArray get wrap (vs.map scalar) = some (wrap vs) := by
  have hread : (vs.map scalar).mapM (fun v => (convertScalar v).bind get) = some vs := by
    induction vs with
    | nil => rfl
    | cons v vs ih => simp [List.mapM_cons, hscalar, ih]
  unfold collectArray
  rw [hread]
  rfl

theorem convertValue_encode (v : AttributeValue) :
    convertValue (some (encodeAttrValue v)) = some v.normalized := by
  cases v with
  | bool v => rfl
  | int v => rfl
  | double bits => rfl
  | string v => rfl
  | bools vs =>
      cases vs with
      | nil => rfl
      | cons v vs => exact collectArray_map (fun _ => rfl) (v :: vs)
  | ints vs =>
      cases vs with
      | nil => rfl
      | cons v vs => exact collectArray_map (fun _ => rfl) (v :: vs)
  | doubles vs =>
      cases vs with
      | nil => rfl
      | cons v vs => exact collectArray_map (fun _ => rfl) (v :: vs)
  | strings vs =>
      cases vs with
      | nil => rfl
      | cons v vs => exact collectArray_map (fun _ => rfl) (v :: vs)

theorem convertAttributes_encode (attrs : List KeyValue) :
    convertAttributes (encodeAttributes attrs) = (attrs.map KeyValue.normalized, 0) := by
  induction attrs with
  | nil => rfl
  | cons kv attrs ih =>
      unfold encodeAttributes at ih ⊢
      rw [List.map_cons, convertAttributes, ih, convertValue_encode]
      rfl

/-! ### Spans -/

/-- Conversions that undo an encoding element by element undo it on lists. -/
theorem convertAll_map {α β γ : Type} {convert : β → Option (γ × UInt64)} {encode : α → β}
    {normalized : α → γ} {xs : List α}
    (h : ∀ x ∈ xs, convert (encode x) = some (normalized x, 0)) :
    convertAll convert (xs.map encode) = some (xs.map normalized, 0) := by
  induction xs with
  | nil => rfl
  | cons x xs ih =>
      have hhead := h x (List.mem_cons_self ..)
      have htail := ih fun y hy => h y (List.mem_cons_of_mem x hy)
      rw [List.map_cons, convertAll, hhead, htail]
      rfl

theorem convertEvent_encode {ev : SpanEvent} (h : NonNegativeTime ev.timestamp) :
    convertEvent (encodeEvent ev) = some (ev.normalized, 0) := by
  unfold convertEvent encodeEvent
  dsimp only
  rw [toTime_toNanos h, convertAttributes_encode]
  rfl

theorem convertLink_encode (lnk : SpanLink) :
    convertLink (encodeLink lnk) = some (lnk.normalized, 0) := by
  unfold convertLink encodeLink
  dsimp only
  rw [toId_toList, toId_toList, convertAttributes_encode]
  rfl

variable {ρ ρ' : Type}

theorem convertParent_encode (record : SpanRecord ρ) :
    convertParent record.context.traceId (encodeSpan record).parentSpanId =
      some (if record.parentContext.isValid then
        { traceId := record.context.traceId, spanId := record.parentContext.spanId } else {}) := by
  unfold convertParent encodeSpan
  dsimp only
  split
  · rw [if_neg (by simp), toId_toList]
    rfl
  · rfl

theorem convertStatus_encode (record : SpanRecord ρ) :
    convertStatus (encodeStatus record) = some (record.statusCode,
      if record.statusCode = .unset then [] else record.statusDescription) := by
  unfold encodeStatus
  split
  · next hunset =>
    rw [hunset]
    rfl
  · unfold convertStatus
    dsimp only
    rw [convertStatusCode_mapStatusCode]
    cases record.statusDescription <;> rfl

theorem convertHeader_encode {record : SpanRecord ρ} (h : record.NonNegativeTimes) :
    (convertHeader (encodeSpan record) : Option (SpanRecord ρ')) =
      some { record.normalized with attributes := [], events := [], links := [] } := by
  have hparent := convertParent_encode record
  have hstatus := convertStatus_encode record
  unfold encodeSpan at hparent
  unfold convertHeader encodeSpan
  dsimp only at hparent ⊢
  rw [toId_toList, toId_toList, Option.bind_eq_bind, Option.bind_some, Option.bind_eq_bind,
    Option.bind_some, hparent, convertKind_mapKind, toTime_toNanos h.startTime,
    toTime_toNanos h.endTime, hstatus]
  rfl

theorem convertSpan_encode {record : SpanRecord ρ} (h : record.NonNegativeTimes) :
    (convertSpan (encodeSpan record) : Option (SpanRecord ρ' × UInt64)) =
      some (record.normalized, 0) := by
  have hevents : convertAll convertEvent (encodeSpan record).events =
      some (record.events.map SpanEvent.normalized, 0) :=
    convertAll_map fun ev hev => convertEvent_encode (h.events ev hev)
  have hlinks : convertAll convertLink (encodeSpan record).links =
      some (record.links.map SpanLink.normalized, 0) :=
    convertAll_map fun lnk _ => convertLink_encode lnk
  have hattributes : convertAttributes (encodeSpan record).attributes =
      (record.attributes.map KeyValue.normalized, 0) := convertAttributes_encode record.attributes
  unfold convertSpan
  rw [convertHeader_encode h, hattributes, hevents, hlinks]
  rfl

theorem convertResourceSpans_encode {batch : BatchHandle (List KeyValue)}
    (h : ∀ record ∈ batch.records, record.NonNegativeTimes) :
    ((encodeRequest batch).resourceSpans.mapM convertResourceSpans :
      Option (List (DecodedResourceSpans ρ'))) = some [batch.decoding] := by
  have hspans : convertAll convertSpan (batch.records.map encodeSpan) =
      some (batch.records.map (fun record => (record.normalized : SpanRecord ρ')), 0) :=
    convertAll_map fun record hrecord => convertSpan_encode (h record hrecord)
  unfold encodeRequest
  simp only [List.mapM_cons, List.mapM_nil, convertResourceSpans,
    convertAttributes_encode, convertAll, convertScopeSpans, hspans]
  rfl

/-! ### The strings of a request -/

theorem encodeAttrValue_texts (v : AttributeValue) : (encodeAttrValue v).texts = v.texts := by
  have hnone : ∀ {T : Type} {scalar : T → Upb.AnyValue} (vs : List T),
      (∀ v, (scalar v).texts = []) → Upb.AnyValue.arrayTexts (vs.map scalar) = [] := by
    intro T scalar vs hscalar
    rw [Upb.AnyValue.arrayTexts_eq, List.flatMap_map]
    simp [hscalar]
  cases v with
  | bools vs => exact hnone vs fun _ => rfl
  | ints vs => exact hnone vs fun _ => rfl
  | doubles vs => exact hnone vs fun _ => rfl
  | strings vs =>
      change Upb.AnyValue.arrayTexts (vs.map .string) = vs
      rw [Upb.AnyValue.arrayTexts_eq, List.flatMap_map]
      exact List.flatMap_singleton' vs
  | _ => rfl

theorem encodeAttributes_texts (attrs : List KeyValue) :
    Upb.AnyValue.kvlistTexts (encodeAttributes attrs) = attrs.flatMap KeyValue.texts := by
  induction attrs with
  | nil => rfl
  | cons kv attrs ih =>
      unfold encodeAttributes at ih ⊢
      rw [List.map_cons, Upb.AnyValue.kvlistTexts, ih, encodeAttrValue_texts]
      rfl

theorem encodeSpan_texts (record : SpanRecord ρ) : (encodeSpan record).texts ⊆ record.texts := by
  have hstatus : ∀ text ∈ ((encodeStatus record).map Upb.Status.message).toList,
      text = record.statusDescription := by
    unfold encodeStatus
    cases hdesc : record.statusDescription <;> split <;> simp
  have hevents : (record.events.map encodeEvent).flatMap Upb.Event.texts =
      record.events.flatMap fun ev => ev.name :: ev.attributes.flatMap KeyValue.texts := by
    simp only [List.flatMap_map, Upb.Event.texts, encodeEvent, encodeAttributes_texts]
  have hlinks : (record.links.map encodeLink).flatMap Upb.Link.texts =
      record.links.flatMap fun lnk => lnk.attributes.flatMap KeyValue.texts := by
    simp only [List.flatMap_map, Upb.Link.texts, encodeLink, encodeAttributes_texts]
  intro text htext
  simp only [Upb.Span.texts, encodeSpan, encodeAttributes_texts, hevents, hlinks, List.cons_append,
    List.mem_cons, List.mem_append] at htext
  simp only [SpanRecord.texts, List.cons_append, List.mem_cons, List.mem_append, List.nil_append]
  rcases htext with hname | ((hattrs | hevent) | hlink) | hdesc
  · exact Or.inl hname
  · exact Or.inr (Or.inr (Or.inl (Or.inl hattrs)))
  · exact Or.inr (Or.inr (Or.inl (Or.inr hevent)))
  · exact Or.inr (Or.inr (Or.inr hlink))
  · exact Or.inr (Or.inl (hstatus text hdesc))

theorem encodeRequest_texts (batch : BatchHandle (List KeyValue)) :
    (encodeRequest batch).texts ⊆ batch.texts := by
  intro text htext
  simp only [Upb.Request.texts, encodeRequest, Upb.ResourceSpans.texts, Upb.ScopeSpans.texts,
    List.flatMap_cons, List.flatMap_nil, List.append_nil, Option.getD_some, Option.map_some,
    encodeAttributes_texts, List.mem_append, Upb.Scope.texts, encodeScope, List.flatMap_map,
    List.mem_flatMap] at htext
  simp only [BatchHandle.texts, List.mem_append, List.mem_flatMap]
  rcases htext with hresource | hscope | ⟨record, hrecord, hspan⟩
  · exact Or.inl (Or.inr hresource)
  · exact Or.inl (Or.inl hscope)
  · exact Or.inr ⟨record, hrecord, encodeSpan_texts record hspan⟩

/-! ### Batches -/

/-- upb decodes the concatenation of what it serialized to the messages'
repeated fields in order, if their strings are UTF-8 and no limit is reached. -/
def UpbRuntime.Lawful (upb : UpbRuntime) : Prop :=
  ∀ (reqs : List Upb.Request) (maxDepth : UInt16) (maxArenaBytes : Nat),
    (∀ req ∈ reqs, ∀ text ∈ req.texts, Upb.validUtf8 text = true) →
    upb.decode (reqs.flatMap upb.serialize) maxDepth maxArenaBytes =
        .ok ⟨reqs.flatMap Upb.Request.resourceSpans⟩ ∨
      upb.decode (reqs.flatMap upb.serialize) maxDepth maxArenaBytes = .error .outOfMemory ∨
      upb.decode (reqs.flatMap upb.serialize) maxDepth maxArenaBytes = .error .maxDepthExceeded

/-- A batch of the kind the encoder is for. -/
structure Encodable (batch : BatchHandle (List KeyValue)) : Prop where
  nonempty : batch.records ≠ []
  times : ∀ record ∈ batch.records, record.NonNegativeTimes
  utf8 : ∀ text ∈ batch.texts, Upb.validUtf8 text = true

/-- The payload of so many spans reaches none of the decode limits. -/
structure WithinLimits (upb : UpbRuntime) (payload : Bytes) (spans : Nat) (limits : DecodeLimits) :
    Prop where
  spans : spans ≤ limits.maxSpans.toNat
  arena : upb.decode payload limits.maxDepth limits.maxArenaBytes ≠ .error .outOfMemory
  depth : upb.decode payload limits.maxDepth limits.maxArenaBytes ≠ .error .maxDepthExceeded

theorem encode_eq (upb : UpbRuntime) {batch : BatchHandle (List KeyValue)} (E : Encodable batch) :
    encode upb batch = upb.serialize (encodeRequest batch) := by
  unfold encode
  rw [if_neg (by simpa using E.nonempty)]

theorem countSpans_encode (batches : List (BatchHandle (List KeyValue))) :
    countSpans ((batches.map encodeRequest).flatMap Upb.Request.resourceSpans) =
      (batches.map fun batch => batch.records.length).sum := by
  induction batches with
  | nil => rfl
  | cons batch batches ih =>
      rw [List.map_cons, List.flatMap_cons]
      unfold countSpans at ih ⊢
      rw [List.map_append, List.sum_append, ih]
      simp [encodeRequest]

/-- Requests that convert one by one convert together. -/
theorem mapM_encode {batches : List (BatchHandle (List KeyValue))}
    (h : ∀ batch ∈ batches, Encodable batch) :
    (((batches.map encodeRequest).flatMap Upb.Request.resourceSpans).mapM convertResourceSpans :
      Option (List (DecodedResourceSpans ρ'))) = some (batches.map BatchHandle.decoding) := by
  induction batches with
  | nil => rfl
  | cons batch batches ih =>
      have hhead : (_ : Option (List (DecodedResourceSpans ρ'))) = _ :=
        convertResourceSpans_encode (h batch (List.mem_cons_self ..)).times
      have htail := ih fun b hb => h b (List.mem_cons_of_mem batch hb)
      rw [List.map_cons, List.flatMap_cons, List.mapM_append, hhead, htail]
      rfl

theorem decode_concatenate (upb : UpbRuntime) (hupb : upb.Lawful) (limits : DecodeLimits)
    {batches : List (BatchHandle (List KeyValue))} (h : ∀ batch ∈ batches, Encodable batch)
    (hwithin : WithinLimits upb (concatenateTraceRequests (batches.map (encode upb)))
      (batches.map fun batch => batch.records.length).sum limits) :
    decode upb (concatenateTraceRequests (batches.map (encode upb))) limits =
      .ok (batches.map fun batch => (batch.decoding : DecodedResourceSpans ρ')) := by
  have hbytes : concatenateTraceRequests (batches.map (encode upb)) =
      (batches.map encodeRequest).flatMap upb.serialize := by
    rw [concatenateTraceRequests_eq, List.flatMap_map, ← List.flatMap_def]
    exact List.flatMap_congr fun batch hbatch => encode_eq upb (h batch hbatch)
  have hutf8 : ∀ req ∈ batches.map encodeRequest, ∀ text ∈ req.texts,
      Upb.validUtf8 text = true := by
    intro req hreq text htext
    obtain ⟨batch, hbatch, rfl⟩ := List.mem_map.mp hreq
    exact (h batch hbatch).utf8 text (encodeRequest_texts batch htext)
  have hdecoded : upb.decode (concatenateTraceRequests (batches.map (encode upb))) limits.maxDepth
      limits.maxArenaBytes =
        .ok ⟨(batches.map encodeRequest).flatMap Upb.Request.resourceSpans⟩ := by
    have hlaw := hupb (batches.map encodeRequest) limits.maxDepth limits.maxArenaBytes hutf8
    rw [← hbytes] at hlaw
    rcases hlaw with hok | hmemory | hdepth
    · exact hok
    · exact absurd hmemory hwithin.arena
    · exact absurd hdepth hwithin.depth
  unfold decode
  rw [hdecoded]
  dsimp only
  rw [countSpans_encode, if_neg (Nat.not_lt.mpr hwithin.spans), mapM_encode h]

/-- The codec: one batch decodes to one ResourceSpans with one ScopeSpans that
hold its normal form, and concatenated requests to the concatenation. -/
theorem trace_codec_round_trip (upb : UpbRuntime) (hupb : upb.Lawful) (limits : DecodeLimits) :
    (∀ batch, Encodable batch →
      WithinLimits upb (encode upb batch) batch.records.length limits →
      decode upb (encode upb batch) limits = .ok [(batch.decoding : DecodedResourceSpans ρ')]) ∧
    ∀ batches : List (BatchHandle (List KeyValue)), (∀ batch ∈ batches, Encodable batch) →
      WithinLimits upb (concatenateTraceRequests (batches.map (encode upb)))
        (batches.map fun batch => batch.records.length).sum limits →
      decode upb (concatenateTraceRequests (batches.map (encode upb))) limits =
        .ok (batches.map fun batch => (batch.decoding : DecodedResourceSpans ρ')) := by
  constructor
  · intro batch E hwithin
    have hsum : ([batch].map fun b => b.records.length).sum = batch.records.length := by simp
    apply decode_concatenate upb hupb limits (fun b hb => List.mem_singleton.mp hb ▸ E)
    rw [hsum]
    exact hwithin
  · intro batches h hwithin
    exact decode_concatenate upb hupb limits h hwithin

/-! ### A span with a remote parent -/

/-- One span whose parent came from a propagator, with an empty array and a
description without a status. -/
def remoteParent : BatchHandle (List KeyValue) where
  records :=
    [{ context := { traceId := ⟨Vector.replicate 16 1⟩, spanId := ⟨Vector.replicate 8 2⟩ }
       parentContext :=
        { traceId := ⟨Vector.replicate 16 1⟩, spanId := ⟨Vector.replicate 8 3⟩, remote := true }
       name := [115]
       statusDescription := [100]
       attributes := [⟨[107], .ints []⟩] }]
  resource := []
  scope := ⟨[], []⟩

/-- Its request on the wire. -/
def remoteParentBytes : Bytes :=
  [0x0A, 60, 0x0A, 0, 0x12, 56, 0x0A, 0, 0x12, 52, 0x0A, 16] ++ List.replicate 16 1 ++ [0x12, 8] ++
    List.replicate 8 2 ++ [0x22, 8] ++ List.replicate 8 3 ++
    [0x2A, 1, 115, 0x30, 1, 0x4A, 7, 0x0A, 1, 107, 0x12, 2, 0x2A, 0]

open Classical in
/-- A runtime with room for that one request. -/
noncomputable def remoteParentRuntime : UpbRuntime where
  serialize req := if req = encodeRequest remoteParent then remoteParentBytes else [0]
  decode payload _ _ :=
    if payload = remoteParentBytes then .ok (encodeRequest remoteParent) else .error .outOfMemory

theorem remoteParentRuntime_serialize :
    remoteParentRuntime.serialize (encodeRequest remoteParent) = remoteParentBytes := if_pos rfl

theorem remoteParentRuntime_decode (maxDepth : UInt16) (maxArenaBytes : Nat) :
    remoteParentRuntime.decode remoteParentBytes maxDepth maxArenaBytes =
      .ok (encodeRequest remoteParent) := by
  simp [remoteParentRuntime]

theorem remoteParentRuntime_lawful : remoteParentRuntime.Lawful := by
  intro reqs maxDepth maxArenaBytes _
  by_cases hbytes : reqs.flatMap remoteParentRuntime.serialize = remoteParentBytes
  · left
    rw [hbytes, remoteParentRuntime_decode]
    cases reqs with
    | nil => cases hbytes
    | cons req reqs =>
        rw [List.flatMap_cons] at hbytes
        by_cases hreq : req = encodeRequest remoteParent
        · subst hreq
          rw [remoteParentRuntime_serialize] at hbytes
          have hrest : reqs.flatMap remoteParentRuntime.serialize = [] :=
            List.append_right_eq_self.mp hbytes
          cases reqs with
          | nil => simp
          | cons req reqs =>
              rw [List.flatMap_cons, List.append_eq_nil_iff] at hrest
              have hsome : remoteParentRuntime.serialize req ≠ [] := by
                unfold remoteParentRuntime
                dsimp only
                split
                · decide
                · decide
              exact absurd hrest.1 hsome
        · have hother : remoteParentRuntime.serialize req = [0] := if_neg hreq
          rw [hother] at hbytes
          cases hbytes
  · exact Or.inr (Or.inl (if_neg hbytes))

def roomy : DecodeLimits where
  maxSpans := 512
  maxDepth := 16
  maxArenaBytes := 65536

theorem remoteParent_encodable : Encodable remoteParent where
  nonempty := by simp [remoteParent]
  times := by
    intro record hrecord
    rw [List.mem_singleton.mp hrecord]
    exact ⟨⟨by decide, by decide⟩, ⟨by decide, by decide⟩, by simp⟩
  utf8 := by decide

theorem remoteParent_within :
    WithinLimits remoteParentRuntime (encode remoteParentRuntime remoteParent) 1 roomy := by
  rw [encode_eq _ remoteParent_encodable, remoteParentRuntime_serialize]
  refine ⟨by decide, ?_, ?_⟩
  · rw [remoteParentRuntime_decode]
    simp
  · rw [remoteParentRuntime_decode]
    simp

theorem trace_codec_round_trip_remoteParent :
    decode remoteParentRuntime (encode remoteParentRuntime remoteParent) roomy =
        .ok [(remoteParent.decoding : DecodedResourceSpans Unit)] ∧
      (remoteParent.decoding : DecodedResourceSpans Unit).scopes.map (·.spans.length) = [1] :=
  ⟨(trace_codec_round_trip remoteParentRuntime remoteParentRuntime_lawful roomy).1 remoteParent
    remoteParent_encodable remoteParent_within, rfl⟩

/-- The origin of a context is reset too: with a normal form that keeps it, the
round trip fails. -/
theorem remote_not_carried : ¬ ∀ (upb : UpbRuntime), upb.Lawful → ∀ (limits : DecodeLimits)
    (batch : BatchHandle (List KeyValue)), Encodable batch →
    WithinLimits upb (encode upb batch) batch.records.length limits →
    ∃ rs : DecodedResourceSpans Unit, decode upb (encode upb batch) limits = .ok [rs] ∧
      rs.scopes.flatMap (fun scope => scope.spans.map (·.parentContext.remote)) =
        batch.records.map (·.parentContext.remote) := by
  intro hclaim
  obtain ⟨rs, hdecode, hremote⟩ := hclaim remoteParentRuntime remoteParentRuntime_lawful roomy
    remoteParent remoteParent_encodable remoteParent_within
  have hdecoding : decode remoteParentRuntime (encode remoteParentRuntime remoteParent) roomy =
      .ok [(remoteParent.decoding : DecodedResourceSpans Unit)] := by
    exact decode_concatenate remoteParentRuntime remoteParentRuntime_lawful roomy
      (fun b hb => List.mem_singleton.mp hb ▸ remoteParent_encodable) remoteParent_within
  rw [hdecoding] at hdecode
  cases hdecode
  cases hremote

end Wire

end Microtel
