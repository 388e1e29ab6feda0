import Microtel.Concentrator.AdmissionRule
import Microtel.Leaf.Readings
import Microtel.Wire.LeafMessage

/-!
What a leaf encodes is what a concentrator takes: the header `build_batch` writes is read
back as it was, and passes the checks of `Admit` together with the spans.
-/

namespace Microtel.Concentrator

open Wire (leafMessage leafSpans leafRecord keyValue TimesFit)
open Leaf (LeafParams LeafVars Callbacks payloadMode timeOffset readClock reservedAttrs)

/-! ### The wire header -/

def leafMode : Leaf.TimeMode → LeafTimeMode
  | .concentratorStamped => .concentratorStamped
  | .syncRelative => .syncRelative
  | .bootRelative => .bootRelative

/-- The header `build_batch` adds to the Resource. -/
def leafHeader (p : LeafParams) (v : LeafVars) (env : Callbacks) : LeafWireInfo where
  proto := some Leaf.wireProtoVersion
  timeMode := some (Int64.ofNat (payloadMode p v).code)
  encodeTime := if p.hasClock then some (readClock p env + timeOffset p v).toInt64 else none
  syncAge :=
    if payloadMode p v = .syncRelative then some (readClock p env - v.syncLeaf).toInt64 else none
  bootId := if payloadMode p v = .bootRelative then some (p.bootId.toUInt64).toInt64 else none
  droppedSpans :=
    if 0 < v.counters.droppedSpans then some (v.counters.droppedSpans.toUInt64).toInt64 else none
  droppedItems :=
    let items := v.counters.droppedAttributes.toUInt64 + v.counters.droppedEvents.toUInt64
    if 0 < items then some items.toInt64 else none
  declared := true

/-- Attributes of the application leave the header as it is. -/
theorem foldl_read_own {resource : List Leaf.Attr}
    (hown : ∀ a ∈ resource, isReserved a.key = false) (info : LeafWireInfo) :
    (resource.map keyValue).foldl LeafWireInfo.read info = info := by
  induction resource generalizing info with
  | nil => rfl
  | cons a resource ih =>
      have hread : info.read (keyValue a) = info := by
        have hkey : isReserved (keyValue a).key = false := hown a List.mem_cons_self
        rw [LeafWireInfo.read, hkey]
        rfl
      rw [List.map_cons, List.foldl_cons, hread]
      exact ih (fun b hb => hown b (List.mem_cons_of_mem a hb)) info

theorem read_slot {key : Bytes} {slot : Slot} (hkey : slotFor key = some slot)
    (info : LeafWireInfo) (v : Int64) :
    info.read (keyValue (Leaf.intAttr key v)) =
      LeafWireInfo.fill { info with declared := true } v slot := by
  have hreserved : isReserved key = true := by
    apply isReserved_of_slotFor
    rw [hkey]
    rfl
  unfold LeafWireInfo.read keyValue Leaf.intAttr
  dsimp only
  rw [hreserved, hkey]
  rfl

/-- A reserved attribute that is written under a condition. -/
theorem foldl_read_optional {key : Bytes} {slot : Slot} (hkey : slotFor key = some slot)
    {c : Prop} [Decidable c] {info : LeafWireInfo} (hdeclared : info.declared = true) (v : Int64) :
    ((if c then [Leaf.intAttr key v] else []).map keyValue).foldl LeafWireInfo.read info =
      if c then info.fill v slot else info := by
  have hinfo : { info with declared := true } = info := by
    rw [← hdeclared]
  by_cases hc : c
  · rw [if_pos hc, if_pos hc, List.map_singleton, List.foldl_cons, List.foldl_nil,
      read_slot hkey, hinfo]
  · rw [if_neg hc, if_neg hc]
    rfl

theorem declared_optional {c : Prop} [Decidable c] {info : LeafWireInfo}
    (hdeclared : info.declared = true) (v : Int64) (slot : Slot) :
    (if c then info.fill v slot else info).declared = true := by
  by_cases hc : c
  · rw [if_pos hc, (fill_flags info v slot).2]
    exact hdeclared
  · rw [if_neg hc]
    exact hdeclared

/-- `ReadWireInfo` reads back what `build_batch` wrote. -/
theorem readWireInfo_leaf {resource : List Leaf.Attr}
    (hown : ∀ a ∈ resource, isReserved a.key = false) (p : LeafParams) (v : LeafVars)
    (env : Callbacks) :
    readWireInfo ((resource ++ reservedAttrs p v env).map keyValue) = leafHeader p v env := by
  have hproto : slotFor Leaf.keyProto = some .proto := by decide
  have htimeMode : slotFor Leaf.keyTimeMode = some .timeMode := by decide
  have hencode : slotFor Leaf.keyEncodeTime = some .encodeTime := by decide
  have hage : slotFor Leaf.keySyncAge = some .syncAge := by decide
  have hboot : slotFor Leaf.keyBootId = some .bootId := by decide
  have hspans : slotFor Leaf.keyDroppedSpans = some .droppedSpans := by decide
  have hitems : slotFor Leaf.keyDroppedItems = some .droppedItems := by decide
  unfold readWireInfo reservedAttrs
  dsimp only
  simp only [List.map_append, List.foldl_append, List.map_cons, List.map_nil, List.foldl_cons,
    List.foldl_nil]
  rw [foldl_read_own hown, read_slot hproto, read_slot htimeMode,
    foldl_read_optional hencode rfl,
    foldl_read_optional hage (declared_optional rfl _ _),
    foldl_read_optional hboot (declared_optional (declared_optional rfl _ _) _ _),
    foldl_read_optional hspans
      (declared_optional (declared_optional (declared_optional rfl _ _) _ _) _ _),
    foldl_read_optional hitems (declared_optional
      (declared_optional (declared_optional (declared_optional rfl _ _) _ _) _ _) _ _)]
  unfold leafHeader
  dsimp only
  split_ifs <;> rfl

/-- The header passes `CheckWireInfo`, in the mode of the payload. -/
theorem checkWireInfo_leaf {p : LeafParams} {v : LeafVars} (env : Callbacks)
    (hclock : payloadMode p v ≠ .concentratorStamped → p.hasClock = true) :
    checkWireInfo (leafHeader p v env) = some (leafMode (payloadMode p v)) := by
  unfold checkWireInfo leafHeader
  cases hmode : payloadMode p v with
  | concentratorStamped => rfl
  | syncRelative =>
      have hsome := hclock (by rw [hmode]; decide)
      rw [hsome]
      rfl
  | bootRelative =>
      have hsome := hclock (by rw [hmode]; decide)
      rw [hsome]
      rfl

/-! ### The spans -/

/-- Two readings that wrap nowhere are as far apart after the conversion as before. -/
theorem converted_sub {x y offset : UInt64} (hx : x.toNat < 2 ^ 63) (hy : y.toNat < 2 ^ 63)
    (hx' : (x + offset).toNat < 2 ^ 63) (hy' : (y + offset).toNat < 2 ^ 63) :
    ((y + offset).toNat : Int) - (x + offset).toNat = y.toNat - x.toNat := by
  rw [UInt64.toNat_add] at hx' hy' ⊢
  rw [UInt64.toNat_add]
  omega

theorem isValid_of_allZero {id : List UInt8} (h : Leaf.allZero id = false) :
    id.any (· ≠ 0) = true := by
  rw [Leaf.allZero, List.all_eq_false] at h
  obtain ⟨b, hb, hne⟩ := h
  rw [List.any_eq_true]
  exact ⟨b, hb, by simpa using hne⟩

section

variable {w : Word32} {st : Leaf.LeafState} {env : Callbacks} {S : Leaf.Store}
  {A : Leaf.AbstractLeaf}

/-- The spans of a batch, with what is known of each. -/
theorem span_of_view (R : Leaf.Reached w st env S A) {s : Leaf.SpanView}
    (hs : s ∈ (Leaf.batchView w st env).spans) :
    ∃ span : Leaf.Span, s = span.view (timeOffset A.toLeafParams A.toLeafVars) ∧
      span.Dated (readClock A.toLeafParams env) ∧ span.ended = true ∧
      Leaf.allZero span.traceId.toList = false ∧ Leaf.allZero span.spanId.toList = false := by
  rw [R.view] at hs
  obtain ⟨span, hmem, rfl⟩ := List.mem_map.mp hs
  obtain ⟨h, hended, hspan⟩ := List.mem_filterMap.mp hmem
  obtain ⟨span', hspan', hdone⟩ := R.models.ended_span R.valid hended
  rw [hspan] at hspan'
  obtain rfl := Option.some.inj hspan'
  have hresolve := R.models.span h
  rw [hspan] at hresolve
  obtain ⟨⟨slot, e⟩, hentry, rfl⟩ := Option.map_eq_some_iff.mp hresolve.symm
  have hvalid := R.valid.entries slot e ((Leaf.Store.resolve_eq_some R.valid).mp hentry).1
  exact ⟨e.toSpan, rfl, R.dated.spans h _ hspan, hdone, hvalid.traceId_ne, hvalid.spanId_ne⟩

theorem convertible_of_view (R : Leaf.Reached w st env S A)
    (hfit : TimesFit (Leaf.batchView w st env)) {s : Leaf.SpanView}
    (hs : s ∈ (Leaf.batchView w st env).spans) : Wire.Convertible s := by
  obtain ⟨hstart, hfinish, hevents⟩ := hfit s hs
  obtain ⟨span, rfl, -⟩ := span_of_view R hs
  refine ⟨⟨span.kind, rfl⟩, ⟨span.code, rfl⟩, fun hplain => ?_, hstart, hfinish, hevents⟩
  have hboth : span.code = .unset ∧ span.message.length = 0 := by
    simpa [Leaf.Span.view] using hplain
  refine ⟨?_, List.length_eq_zero_iff.mp hboth.2⟩
  change span.code.code = 0
  rw [hboth.1]
  rfl

theorem validSpan_of_view (R : Leaf.Reached w st env S A)
    (hbelow : (readClock A.toLeafParams env).toNat < 2 ^ 63)
    (hfit : TimesFit (Leaf.batchView w st env)) {s : Leaf.SpanView}
    (hs : s ∈ (Leaf.batchView w st env).spans) : Receiver.ValidSpan (leafRecord s) := by
  obtain ⟨hstart, hfinish, -⟩ := hfit s hs
  obtain ⟨span, rfl, D, hended, htraceId, hspanId⟩ := span_of_view R hs
  refine ⟨isValid_of_allZero htraceId, isValid_of_allZero hspanId, ?_⟩
  obtain ⟨horder, hpast⟩ := D.finish hended
  have hstartPast := UInt64.le_iff_toNat_le.mp D.start
  have hfinishPast := UInt64.le_iff_toNat_le.mp hpast
  have hraw := UInt64.le_iff_toNat_le.mp horder
  have hsub := converted_sub (by omega) (by omega) hstart hfinish
  change ((span.start + _).toNat : Int) ≤ (span.finish + _).toNat
  omega

theorem readWireInfo_reached (R : Leaf.Reached w st env S A) :
    readWireInfo ((Leaf.batchView w st env).resource.map keyValue) =
      leafHeader st.toLeafParams st.toLeafVars env := by
  have hown : ∀ a ∈ A.resource, isReserved a.key = false := by
    intro a ha
    rw [← R.models.resource] at ha
    exact (R.valid.resource_keys a ha).2
  rw [R.view, R.params, R.vars]
  exact readWireInfo_leaf hown A.toLeafParams A.toLeafVars env

theorem checkWireInfo_reached (R : Leaf.Reached w st env S A) :
    checkWireInfo (leafHeader st.toLeafParams st.toLeafVars env) =
      some (leafMode (payloadMode st.toLeafParams st.toLeafVars)) := by
  apply checkWireInfo_leaf env
  rw [R.params, R.vars]
  intro hmode
  apply R.clocked
  intro hstamped
  apply hmode
  simp [payloadMode, hstamped]

theorem spansValid_reached (R : Leaf.Reached w st env S A)
    (hbelow : (readClock A.toLeafParams env).toNat < 2 ^ 63)
    (hfit : TimesFit (Leaf.batchView w st env)) :
    spansValid (leafSpans (Leaf.batchView w st env)) = true := by
  rw [Receiver.spansValid_iff]
  intro scope hscope span hspan
  obtain rfl := List.mem_singleton.mp hscope
  obtain ⟨s, hs, rfl⟩ := List.mem_map.mp hspan
  exact validSpan_of_view R hbelow hfit hs

/-- The mode of a payload is the one its leaf chose. -/
theorem admittedModes_reached (R : Leaf.Reached w st env S A) :
    Receiver.admittedModes [leafSpans (Leaf.batchView w st env)] =
      if spansValid (leafSpans (Leaf.batchView w st env)) then
        [leafMode (payloadMode st.toLeafParams st.toLeafVars)] else [] := by
  have hheader : readWireInfo (leafSpans (ρ := Resource) (Leaf.batchView w st env)).resource =
      leafHeader st.toLeafParams st.toLeafVars env := readWireInfo_reached R
  rw [Receiver.admittedModes, hheader, checkWireInfo_reached R]
  cases spansValid (leafSpans (Leaf.batchView w st env)) with
  | true => rfl
  | false => rfl

/-! ### Spans or drops -/

theorem toInt64_of_small {n : UInt64} (hsmall : n.toNat < 2 ^ 63) :
    n.toInt64.toInt = n.toNat := by
  change (n.toBitVec).toInt = _
  rw [BitVec.toInt_eq_toNat_of_lt]
  · rfl
  · change 2 * n.toNat < 2 ^ 64
    omega

theorem positive_of_small {n : UInt64} (hpos : 0 < n) (hsmall : n.toNat < 2 ^ 63) :
    Receiver.Positive (some n.toInt64) := by
  refine ⟨_, rfl, ?_⟩
  have hnat : 0 < n.toNat := UInt64.lt_iff_toNat_lt.mp hpos
  rw [Int64.lt_iff_toInt_lt, toInt64_of_small hsmall]
  exact Int.natCast_pos.mpr hnat

theorem positive_of_dropped {p : LeafParams} {v : LeafVars} (env : Callbacks)
    (hdrops : v.counters ≠ .zero) :
    Receiver.Positive (leafHeader p v env).droppedSpans ∨
      Receiver.Positive (leafHeader p v env).droppedItems := by
  rcases hcounters : v.counters with ⟨spans, attributes, events⟩
  have hspansLt := spans.toNat_lt
  have hattributesLt := attributes.toNat_lt
  have heventsLt := events.toNat_lt
  unfold leafHeader
  dsimp only
  rw [hcounters]
  dsimp only
  by_cases hspans : 0 < spans
  · left
    rw [if_pos hspans]
    apply positive_of_small
    · exact UInt64.lt_iff_toNat_lt.mpr (UInt32.lt_iff_toNat_lt.mp hspans)
    · change spans.toNat < 2 ^ 63
      omega
  · right
    have hsum : (attributes.toUInt64 + events.toUInt64).toNat =
        attributes.toNat + events.toNat := by
      rw [UInt64.toNat_add, UInt32.toNat_toUInt64, UInt32.toNat_toUInt64]
      omega
    have hitems : 0 < attributes.toUInt64 + events.toUInt64 := by
      rw [UInt64.lt_iff_toNat_lt, hsum]
      by_contra hnot
      apply hdrops
      rw [hcounters, Leaf.Counters.zero, Leaf.Counters.mk.injEq]
      refine ⟨?_, ?_, ?_⟩
      · apply UInt32.toNat_inj.mp
        have hnone := UInt32.lt_iff_toNat_lt.not.mp hspans
        change spans.toNat = 0
        have hzero : (0 : UInt32).toNat = 0 := rfl
        omega
      · apply UInt32.toNat_inj.mp
        change attributes.toNat = 0
        have hzero : (0 : UInt64).toNat = 0 := rfl
        omega
      · apply UInt32.toNat_inj.mp
        change events.toNat = 0
        have hzero : (0 : UInt64).toNat = 0 := rfl
        omega
    rw [if_pos hitems]
    apply positive_of_small hitems
    omega

/-! ### The payload -/

/-- A request with the message of a batch, room for it, and a leaf id that is not refused. -/
structure Offers (r : Receiver) (upb : Wire.UpbRuntime) (s : Shared) (req : IngestRequest)
    (now : TimePoint) (v : Leaf.BatchView) : Prop where
  decoder : r.deps.decode = Wire.decode upb
  message : upb.decode req.payload r.decodeLimits.maxDepth r.decodeLimits.maxArenaBytes =
    .ok (leafMessage v)
  bytes : req.payload.length ≤ r.options.maxPayloadBytes.toNat
  spans : v.spans.length ≤ r.options.maxSpansPerPayload.toNat
  known : (r.refusedBeforeDecode s req now).2 = false
  transportId : req.leafId.length ≤ maxLeafIdBytes
  leafId : r.settleLeafId req [leafSpans v] ≠ []
  leafIdShort : (r.settleLeafId req [leafSpans v]).length ≤ maxLeafIdBytes

/-- `Admit` passes the payload on in this mode, and `ModesAllowed` lets it through for a leaf
whose mode is left to it. -/
structure Takes (v : Leaf.BatchView) (mode : LeafTimeMode) : Prop where
  admits : ∀ (r : Receiver) (upb : Wire.UpbRuntime) (s : Shared) (req : IngestRequest)
    (received : Int) (now : TimePoint), Offers r upb s req now v →
      (r.admitRequest s req received now).2 = .lookingUp
        { transportId := req.leafId, decoded := [leafSpans v], modes := [mode]
          leafId := r.settleLeafId req [leafSpans v], received, now }
  allows : ∀ (r : Receiver) (settings : LeafSettings) (p : Payload), p.modes = [mode] →
    effectiveMode r.options settings = none → r.modesAllowed p settings = true

theorem Offers.decode {r : Receiver} {upb : Wire.UpbRuntime} {s : Shared} {req : IngestRequest}
    {now : TimePoint} {v : Leaf.BatchView} (h : Offers r upb s req now v)
    (hspans : ∀ span ∈ v.spans, Wire.Convertible span) :
    r.deps.decode req.payload r.decodeLimits = .ok [leafSpans v] := by
  have hcount : Wire.countSpans (leafMessage v).resourceSpans = v.spans.length := by
    simp [Wire.countSpans, leafMessage]
  have hfits : ¬ r.decodeLimits.maxSpans.toNat < Wire.countSpans (leafMessage v).resourceSpans := by
    rw [hcount]
    exact Nat.not_lt.mpr h.spans
  rw [h.decoder, Wire.decode, h.message]
  dsimp only
  rw [if_neg hfits, Wire.convertResourceSpans_leaf hspans]

theorem modesAllowed_leaf (r : Receiver) {settings : LeafSettings} {p : Payload}
    {mode : Leaf.TimeMode} (hmodes : p.modes = [leafMode mode])
    (hauto : effectiveMode r.options settings = none) : r.modesAllowed p settings = true := by
  unfold Receiver.modesAllowed
  rw [hmodes, hauto]
  cases mode with
  | concentratorStamped => rfl
  | syncRelative => rfl
  | bootRelative => rfl

theorem takes_of_wellformed {v : Leaf.BatchView} {mode : Leaf.TimeMode}
    (hconvertible : ∀ s ∈ v.spans, Wire.Convertible s)
    (hmodes : Receiver.admittedModes [leafSpans v] = [leafMode mode])
    (hcarries : carriesSpansOrDrops [leafSpans v] = true) :
    Takes v (leafMode mode) where
  admits r upb s req received now hoffers := by
    have hwell : Receiver.Wellformed [leafSpans v] := by
      refine ⟨List.cons_ne_nil _ _, ?_, hcarries⟩
      rw [hmodes]
      rfl
    rcases r.admitRequest_cases s now received hoffers.bytes (hoffers.decode hconvertible) with
      ⟨-, -, -, -, -, hpassed⟩ | ⟨hnot, -⟩
    · rw [hpassed, hmodes]
    · exact absurd ⟨hoffers.transportId, hoffers.known, hwell, hoffers.leafId,
        hoffers.leafIdShort⟩ hnot
  allows r settings p hmodes hauto := modesAllowed_leaf r hmodes hauto

end

/-- Every payload of a leaf is taken: its header and its spans are decoded as the batch has
them, and pass the checks of the receiver. -/
theorem leafPayload_taken {w : Word32} {leaf st₀ st : Leaf.LeafState} {leafSize bufferSize : Nat}
    {c : Leaf.Config} {buffer buffer' : Option ByteMemory.Mem}
    {calls : List (Callbacks × Leaf.Call)} {os : List Leaf.Outcome} {env : Callbacks}
    (hinit : Leaf.init w leaf leafSize (some c) buffer bufferSize = (.ok, st₀, buffer'))
    (hrun : Leaf.run w st₀ calls = some (st, os)) (hlive : Leaf.checkLeaf st = .ok)
    (hclock : (Leaf.readings st₀.toLeafParams calls env).Pairwise (· ≤ ·))
    (hbelow : ∀ t ∈ Leaf.readings st₀.toLeafParams calls env, t.toNat < 2 ^ 63)
    (hfit : TimesFit (Leaf.batchView w st env))
    (hcarries : st.endedCount ≠ 0 ∨ st.counters ≠ .zero) :
    (leafMessage (Leaf.batchView w st env)).resourceSpans.mapM Wire.convertResourceSpans =
        some [(leafSpans (Leaf.batchView w st env) : DecodedResourceSpans Resource)] ∧
      readWireInfo ((Leaf.batchView w st env).resource.map keyValue) =
        leafHeader st.toLeafParams st.toLeafVars env ∧
      Takes (Leaf.batchView w st env) (leafMode (payloadMode st.toLeafParams st.toLeafVars)) := by
  obtain ⟨S, A, R, hparams, -⟩ := Leaf.reached_of_run hinit hrun hlive hclock
  have hnow : (readClock A.toLeafParams env).toNat < 2 ^ 63 := by
    rw [hparams]
    exact hbelow _ (List.mem_append_right _ (List.mem_singleton.mpr rfl))
  have hconvertible : ∀ s ∈ (Leaf.batchView w st env).spans, Wire.Convertible s :=
    fun s hs => convertible_of_view R hfit hs
  have hheader := readWireInfo_reached R
  refine ⟨Wire.convertResourceSpans_leaf hconvertible, hheader, ?_⟩
  apply takes_of_wellformed hconvertible
  · rw [admittedModes_reached R, if_pos (spansValid_reached R hnow hfit)]
  · rw [Receiver.carriesSpansOrDrops_iff]
    refine ⟨_, List.mem_singleton.mpr rfl, ?_⟩
    rcases hcarries with hended | hdrops
    · left
      refine ⟨_, List.mem_singleton.mpr rfl, fun hnil => ?_⟩
      apply R.ended hended
      rw [← R.view]
      exact List.map_eq_nil_iff.mp hnil
    · right
      have hvalues : ∀ slot, headerValue (leafSpans (ρ := Resource)
          (Leaf.batchView w st env)).resource slot =
            (leafHeader st.toLeafParams st.toLeafVars env).get slot := by
        intro slot
        rw [← hheader]
        exact (readWireInfo_get _ slot).symm
      rw [hvalues, hvalues]
      exact positive_of_dropped env hdrops

/-- A receiver whose decoder finds this message in every payload. -/
def receiverOf (message : Wire.Upb.Request) : Receiver where
  options := {}
  deps :=
    { decode := Wire.decode ⟨fun _ => [], fun _ _ _ => .ok message⟩
      applySpanLimits := fun span => span
      appendAttributes := List.append
      batchProcessor := true }

/-- The short run: a boot-relative leaf with one ended span. -/
theorem leafPayload_taken_pump :
    ∃ st os, Leaf.run Word32.wrap Leaf.pumpInit.2.1 Leaf.pumpCalls = some (st, os) ∧
      readWireInfo ((Leaf.batchView Word32.wrap st Leaf.pumpEnv).resource.map keyValue) =
        leafHeader st.toLeafParams st.toLeafVars Leaf.pumpEnv ∧
      Takes (Leaf.batchView Word32.wrap st Leaf.pumpEnv) .bootRelative ∧
      ∃ r upb s req now, Offers r upb s req now (Leaf.batchView Word32.wrap st Leaf.pumpEnv) := by
  obtain ⟨⟨st, os⟩, hrun⟩ := Leaf.pumpRun_some
  have hstate : ((Leaf.run Word32.wrap Leaf.pumpInit.2.1 Leaf.pumpCalls).map fun r =>
      decide (Leaf.checkLeaf r.1 = .ok ∧ TimesFit (Leaf.batchView Word32.wrap r.1 Leaf.pumpEnv) ∧
        r.1.endedCount ≠ 0 ∧ (Leaf.batchView Word32.wrap r.1 Leaf.pumpEnv).spans.length ≤ 1 ∧
        payloadMode r.1.toLeafParams r.1.toLeafVars = .bootRelative)) = some true := by
    decide +kernel
  rw [hrun] at hstate
  obtain ⟨hlive, hfit, hended, hone, hmode⟩ := of_decide_eq_true (Option.some.inj hstate)
  have hclock : (Leaf.readings Leaf.pumpInit.2.1.toLeafParams Leaf.pumpCalls Leaf.pumpEnv).Pairwise
      (· ≤ ·) := by
    decide +kernel
  have hall : (Leaf.readings Leaf.pumpInit.2.1.toLeafParams Leaf.pumpCalls Leaf.pumpEnv).all
      (fun t => decide (t.toNat < 2 ^ 63)) = true := by
    decide +kernel
  have hbelow : ∀ t ∈ Leaf.readings Leaf.pumpInit.2.1.toLeafParams Leaf.pumpCalls Leaf.pumpEnv,
      t.toNat < 2 ^ 63 :=
    fun t ht => of_decide_eq_true (List.all_eq_true.mp hall t ht)
  obtain ⟨-, hheader, htakes⟩ := leafPayload_taken Leaf.pumpInit_ok hrun hlive hclock hbelow hfit
    (Or.inl hended)
  rw [hmode] at htakes
  let message := leafMessage (Leaf.batchView Word32.wrap st Leaf.pumpEnv)
  let r := receiverOf message
  let req : IngestRequest := { leafId := ascii "pump", payload := [] }
  have hleaf : r.settleLeafId req [leafSpans (Leaf.batchView Word32.wrap st Leaf.pumpEnv)] =
      ascii "pump" := rfl
  have hroom : 1 ≤ r.options.maxSpansPerPayload.toNat :=
    show 1 ≤ ({} : LeafReceiverOptions).maxSpansPerPayload.toNat by decide
  refine ⟨st, os, hrun, hheader, htakes, r, ⟨fun _ => [], fun _ _ _ => .ok message⟩,
    r.init.shared, req, 0, rfl, rfl, Nat.zero_le _, hone.trans hroom, rfl, by decide, ?_, ?_⟩
  · rw [hleaf]
    decide
  · rw [hleaf]
    decide

end Microtel.Concentrator
