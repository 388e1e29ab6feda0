import Microtel.Lib.Offer
import Microtel.Sdk.SpanLimits

/-!
Span limits are one policy: a span built call by call and the same span limited at
once hold the same data and count the same losses. Both are brought to one form,
the first members up to a limit and a charge to the counters.
-/

namespace Microtel.Sdk

open Offer
open Concentrator.Receiver (SamplingResult)

/-! ### Charges -/

/-- The counters after `drops` more losses. -/
def charge (diag : Option Drops) (drops : Drops) : Option Drops := diag.map fun d => d + drops

@[simp]
theorem charge_zero (diag : Option Drops) : charge diag 0 = diag := by
  simp [charge]

@[simp]
theorem charge_charge (diag : Option Drops) (a b : Drops) :
    charge (charge diag a) b = charge diag (a + b) := by
  simp [charge, Function.comp_def, add_assoc]

theorem recordDrop_eq (diag : Option Drops) (reason : LimitReason) (n : Nat) :
    recordDrop diag reason n = charge diag (Pi.single reason n) := by
  unfold recordDrop charge
  congr 1
  funext drops r
  by_cases h : r = reason
  · subst h
    simp
  · simp [h]

theorem count_eq (diag : Option Drops) (reason : LimitReason) (n : Nat) :
    count diag reason n = charge diag (Pi.single reason n) := by
  unfold count
  split
  · exact recordDrop_eq diag reason n
  · next h =>
    obtain rfl : n = 0 := by omega
    simp

theorem sum_single {α : Type} (reason : LimitReason) (f : α → Nat) (xs : List α) :
    (xs.map fun x => (Pi.single reason (f x) : Drops)).sum = Pi.single reason (xs.map f).sum := by
  induction xs with
  | nil => simp
  | cons x xs ih =>
      rw [List.map_cons, List.sum_cons, ih, ← Pi.single_add, List.map_cons, List.sum_cons]

theorem nsmul_single (reason : LimitReason) (n : Nat) :
    n • (Pi.single reason 1 : Drops) = Pi.single reason n := by
  rw [← Pi.single_smul]
  simp

/-! ### Attributes -/

/-- An attribute with its strings clipped. -/
def clip (limit : Nat) (kv : KeyValue) : KeyValue :=
  { kv with value := (truncateStrings kv.value limit).1 }

/-- The strings of an attribute that are clipped. -/
def clips (limit : Nat) (kv : KeyValue) : Nat := (truncateStrings kv.value limit).2

theorem keepFirst_eq {α : Type} (items : List α) (limit : Nat) :
    keepFirst items limit = (items.take limit, items.length - limit) := by
  unfold keepFirst
  split
  · next h => rw [List.take_of_length_le h, Nat.sub_eq_zero_of_le h]
  · rfl

theorem foldl_truncateStrings (attributes : List KeyValue) (limit : Nat) (done : List KeyValue)
    (truncated : Nat) :
    attributes.foldl
        (fun (done, truncated) kv =>
          let (value, n) := truncateStrings kv.value limit
          (done ++ [{ kv with value }], truncated + n))
        (done, truncated) =
      (done ++ attributes.map (clip limit), truncated + (attributes.map (clips limit)).sum) := by
  induction attributes generalizing done truncated with
  | nil => simp
  | cons kv attributes ih =>
      rw [List.foldl_cons, ih]
      simp [clip, clips, add_assoc]

theorem truncateAll_eq (attributes : List KeyValue) (limit : Nat) :
    truncateAll attributes limit =
      (attributes.map (clip limit), (attributes.map (clips limit)).sum) := by
  unfold truncateAll
  rw [foldl_truncateStrings]
  simp

/-- What an attribute list is cut down to, the truncations, and the surplus. -/
def limited (countLimit valueLimit : Nat) (attributes : List KeyValue) : List KeyValue :=
  (attributes.take countLimit).map (clip valueLimit)

def limitedClips (countLimit valueLimit : Nat) (attributes : List KeyValue) : Nat :=
  ((attributes.take countLimit).map (clips valueLimit)).sum

theorem foldl_limited {τ : Type} (attributes : τ → List KeyValue)
    (withAttributes : τ → List KeyValue → τ) (countLimit valueLimit : Nat) (items done : List τ)
    (surplus truncated : Nat) :
    items.foldl
        (fun (done, surplus, truncated) item =>
          (done ++ [withAttributes item (limited countLimit valueLimit (attributes item))],
            surplus + ((attributes item).length - countLimit),
            truncated + limitedClips countLimit valueLimit (attributes item)))
        (done, surplus, truncated) =
      (done ++ items.map fun item =>
          withAttributes item (limited countLimit valueLimit (attributes item)),
        surplus + (items.map fun item => (attributes item).length - countLimit).sum,
        truncated + (items.map fun item =>
          limitedClips countLimit valueLimit (attributes item)).sum) := by
  induction items generalizing done surplus truncated with
  | nil => simp
  | cons item items ih =>
      rw [List.foldl_cons, ih]
      simp [add_assoc]

theorem limitEach_eq {τ : Type} (attributes : τ → List KeyValue)
    (withAttributes : τ → List KeyValue → τ) (countLimit valueLimit : Nat) (items : List τ)
    (truncated : Nat) :
    limitEach attributes withAttributes countLimit valueLimit items truncated =
      (items.map fun item => withAttributes item (limited countLimit valueLimit (attributes item)),
        (items.map fun item => (attributes item).length - countLimit).sum,
        truncated + (items.map fun item =>
          limitedClips countLimit valueLimit (attributes item)).sum) := by
  unfold limitEach
  simp only [keepFirst_eq, truncateAll_eq]
  refine (foldl_limited attributes withAttributes countLimit valueLimit items [] 0 truncated).trans
    ?_
  simp

/-! ### The leaf span -/

/-- The charge of one attribute that is kept. -/
def attributeCost (valueLimit : Nat) (kv : KeyValue) : Drops :=
  Pi.single .attributeValueTruncated (clips valueLimit kv)

def eventCost (limits : SpanLimitOptions) (event : SpanEvent) : Drops :=
  Pi.single .attributeValueTruncated
      (limitedClips limits.eventAttributeCountLimit limits.attributeValueLengthLimit
        event.attributes) +
    Pi.single .eventAttributeLimit (event.attributes.length - limits.eventAttributeCountLimit)

def linkCost (limits : SpanLimitOptions) (link : SpanLink) : Drops :=
  Pi.single .attributeValueTruncated
      (limitedClips limits.linkAttributeCountLimit limits.attributeValueLengthLimit
        link.attributes) +
    Pi.single .linkAttributeLimit (link.attributes.length - limits.linkAttributeCountLimit)

def limitedEvent (limits : SpanLimitOptions) (event : SpanEvent) : SpanEvent :=
  { event with
    attributes :=
      limited limits.eventAttributeCountLimit limits.attributeValueLengthLimit event.attributes }

def limitedLink (limits : SpanLimitOptions) (link : SpanLink) : SpanLink :=
  { link with
    attributes :=
      limited limits.linkAttributeCountLimit limits.attributeValueLengthLimit link.attributes }

theorem charges_attributes (valueLimit room : Nat) (attributes : List KeyValue) :
    charges (attributeCost valueLimit) (Pi.single .spanAttributeLimit 1) room attributes =
      Pi.single .attributeValueTruncated ((attributes.take room).map (clips valueLimit)).sum +
        Pi.single .spanAttributeLimit (attributes.length - room) := by
  unfold charges attributeCost
  rw [sum_single, nsmul_single]

theorem charges_events (limits : SpanLimitOptions) (room : Nat) (events : List SpanEvent) :
    charges (eventCost limits) (Pi.single .spanEventLimit 1) room events =
      Pi.single .attributeValueTruncated ((events.take room).map fun event =>
          limitedClips limits.eventAttributeCountLimit limits.attributeValueLengthLimit
            event.attributes).sum +
        Pi.single .eventAttributeLimit ((events.take room).map fun event =>
          event.attributes.length - limits.eventAttributeCountLimit).sum +
        Pi.single .spanEventLimit (events.length - room) := by
  unfold charges eventCost
  rw [List.sum_map_add, sum_single, sum_single, nsmul_single]

theorem charges_links (limits : SpanLimitOptions) (room : Nat) (links : List SpanLink) :
    charges (linkCost limits) (Pi.single .spanLinkLimit 1) room links =
      Pi.single .attributeValueTruncated ((links.take room).map fun link =>
          limitedClips limits.linkAttributeCountLimit limits.attributeValueLengthLimit
            link.attributes).sum +
        Pi.single .linkAttributeLimit ((links.take room).map fun link =>
          link.attributes.length - limits.linkAttributeCountLimit).sum +
        Pi.single .spanLinkLimit (links.length - room) := by
  unfold charges linkCost
  rw [List.sum_map_add, sum_single, sum_single, nsmul_single]

/-- `ApplySpanLimits` in that form. -/
theorem applySpanLimits_eq {ρ : Type} (record : SpanRecord ρ) (limits : SpanLimitOptions)
    (diag : Option Drops) :
    applySpanLimits record limits diag =
      ({ record with
          attributes := limited limits.attributeCountLimit limits.attributeValueLengthLimit
            record.attributes
          events := (record.events.take limits.eventCountLimit).map (limitedEvent limits)
          links := (record.links.take limits.linkCountLimit).map (limitedLink limits) },
        charge diag
          (charges (attributeCost limits.attributeValueLengthLimit)
              (Pi.single .spanAttributeLimit 1) limits.attributeCountLimit record.attributes +
            charges (eventCost limits) (Pi.single .spanEventLimit 1) limits.eventCountLimit
              record.events +
            charges (linkCost limits) (Pi.single .spanLinkLimit 1) limits.linkCountLimit
              record.links)) := by
  unfold applySpanLimits
  simp only [keepFirst_eq, truncateAll_eq, limitEach_eq, count_eq, charge_charge,
    charges_attributes, charges_events, charges_links, Pi.single_add]
  refine Prod.ext rfl ?_
  dsimp only
  congr 1
  abel

/-- The loop offers the attributes one by one. -/
theorem appendOne_offer (limits : SpanLimitOptions) :
    (fun (attributes, overLimit, truncated) kv =>
      if limits.attributeCountLimit ≤ attributes.length then
        (attributes, overLimit + 1, truncated)
      else
        let (attributes, n) := appendOne attributes kv limits.attributeValueLengthLimit
        (attributes, overLimit, truncated + n)) =
      offer limits.attributeCountLimit (clip limits.attributeValueLengthLimit)
        (fun kv => ((0, clips limits.attributeValueLengthLimit kv) : Nat × Nat)) (1, 0) := by
  funext ⟨attributes, overLimit, truncated⟩ kv
  rfl

theorem appendAttributes_eq (attributes extra : List KeyValue) (limits : SpanLimitOptions)
    (diag : Option Drops) :
    appendAttributes attributes extra limits diag =
      (attributes ++ (extra.take (limits.attributeCountLimit - attributes.length)).map
          (clip limits.attributeValueLengthLimit),
        charge diag (charges (attributeCost limits.attributeValueLengthLimit)
          (Pi.single .spanAttributeLimit 1) (limits.attributeCountLimit - attributes.length)
          extra)) := by
  have hloop := foldl_offer limits.attributeCountLimit (clip limits.attributeValueLengthLimit)
    (fun kv => ((0, clips limits.attributeValueLengthLimit kv) : Nat × Nat)) (1, 0) extra
    attributes (0, 0)
  have hsum : ∀ kvs : List KeyValue,
      (kvs.map fun kv => ((0, clips limits.attributeValueLengthLimit kv) : Nat × Nat)).sum =
        (0, (kvs.map (clips limits.attributeValueLengthLimit)).sum) := by
    intro kvs
    induction kvs with
    | nil => rfl
    | cons kv kvs ih => simp [ih]
  unfold appendAttributes
  rw [appendOne_offer, hloop, charges_attributes]
  simp only [charges, hsum, count_eq, charge_charge, zero_add, Prod.smul_mk, Prod.mk_add_mk,
    smul_eq_mul, mul_one, mul_zero, add_zero]
  rw [add_comm]

/-! ### The span of the SDK -/

theorem clipAttribute_eq (kv : KeyValue) (limit : Nat) (diag : Option Drops) :
    clipAttribute kv limit diag = (clip limit kv, charge diag (attributeCost limit kv)) := by
  have hcount := count_eq diag .attributeValueTruncated (clips limit kv)
  exact Prod.ext rfl hcount

theorem clipWhileRoom_eq (countLimit valueLimit : Nat) (attributes kept : List KeyValue)
    (diag : Option Drops) :
    clipWhileRoom countLimit valueLimit attributes kept diag =
      (kept ++ (attributes.take (countLimit - kept.length)).map (clip valueLimit),
        charge diag (Pi.single .attributeValueTruncated
          ((attributes.take (countLimit - kept.length)).map (clips valueLimit)).sum)) := by
  induction attributes generalizing kept diag with
  | nil => simp [clipWhileRoom]
  | cons kv attributes ih =>
      rw [clipWhileRoom]
      split
      · next hfull =>
        have hroom : countLimit - kept.length = 0 := by omega
        simp [hroom]
      · next hfree =>
        obtain ⟨room, hroom⟩ : ∃ room, countLimit - kept.length = room + 1 :=
          ⟨countLimit - kept.length - 1, by omega⟩
        have hrest : countLimit - (kept ++ [clip valueLimit kv]).length = room := by
          rw [List.length_append, List.length_singleton]
          omega
        rw [clipAttribute_eq]
        dsimp only
        rw [ih, hrest, hroom, charge_charge, attributeCost, ← Pi.single_add]
        simp

theorem buildAttributes_eq (countLimit : Nat) (reason : LimitReason) (attributes : List KeyValue)
    (limits : SpanLimitOptions) (diag : Option Drops) :
    buildAttributes countLimit reason attributes limits diag =
      (limited countLimit limits.attributeValueLengthLimit attributes,
        charge diag
          (Pi.single .attributeValueTruncated
              (limitedClips countLimit limits.attributeValueLengthLimit attributes) +
            Pi.single reason (attributes.length - countLimit))) := by
  have hlength : (limited countLimit limits.attributeValueLengthLimit attributes).length =
      min countLimit attributes.length := by
    simp [limited]
  unfold buildAttributes
  rw [clipWhileRoom_eq]
  dsimp only
  rw [List.nil_append, List.length_nil, Nat.sub_zero, recordDrop_eq, charge_charge]
  change (if (limited countLimit limits.attributeValueLengthLimit attributes).length <
    attributes.length then _ else _) = _
  split
  · next hlost =>
    have hsurplus : attributes.length -
        (limited countLimit limits.attributeValueLengthLimit attributes).length =
        attributes.length - countLimit := by omega
    rw [← hsurplus]
    rfl
  · next hall =>
    have hnone : attributes.length - countLimit = 0 := by omega
    rw [hnone, Pi.single_zero, add_zero]
    rfl

namespace SdkSpan

variable {ρ : Type}

/-- The span with other attributes, further losses charged. -/
def withAttributes (span : SdkSpan ρ) (state : List KeyValue × Drops) : SdkSpan ρ :=
  { span with
    record := { span.record with attributes := state.1 }
    diagnostics := charge span.diagnostics state.2 }

theorem setAttribute_eq (span : SdkSpan ρ) (hlive : span.ended = false)
    (state : List KeyValue × Drops) (kv : KeyValue) :
    (span.withAttributes state).setAttribute kv.key kv.value =
      span.withAttributes
        (offer span.limits.attributeCountLimit (clip span.limits.attributeValueLengthLimit)
          (attributeCost span.limits.attributeValueLengthLimit) (Pi.single .spanAttributeLimit 1)
          state kv) := by
  unfold setAttribute offer withAttributes
  simp only [hlive, Bool.false_eq_true, if_false, recordDrop_eq, charge_charge]
  split
  · rfl
  · have hcount := count_eq (charge span.diagnostics state.2) .attributeValueTruncated
      (clips span.limits.attributeValueLengthLimit kv)
    rw [count, recordDrop_eq, charge_charge, clips] at hcount
    rw [hcount]
    rfl

theorem seedAttributes_eq (span : SdkSpan ρ) (hlive : span.ended = false)
    (attributes : List KeyValue) :
    seedAttributes span attributes =
      span.withAttributes
        (span.record.attributes ++
            (attributes.take (span.limits.attributeCountLimit - span.record.attributes.length)).map
              (clip span.limits.attributeValueLengthLimit),
          charges (attributeCost span.limits.attributeValueLengthLimit)
            (Pi.single .spanAttributeLimit 1)
            (span.limits.attributeCountLimit - span.record.attributes.length) attributes) := by
  have hstart : span = span.withAttributes (span.record.attributes, 0) := by
    simp [withAttributes]
  have hloop := foldl_offer span.limits.attributeCountLimit
    (clip span.limits.attributeValueLengthLimit)
    (attributeCost span.limits.attributeValueLengthLimit) (Pi.single .spanAttributeLimit 1)
    attributes span.record.attributes 0
  rw [zero_add] at hloop
  rw [← hloop]
  unfold seedAttributes
  conv => lhs; rw [hstart]
  exact List.foldl_hom span.withAttributes fun state kv => setAttribute_eq span hlive state kv

end SdkSpan

/-- A later call on a span; an event comes with what the clock reads meanwhile. -/
inductive SpanCall
  | event (event : SpanEvent) (now : Int)
  | link (link : SpanLink)

namespace SpanCall

def event? : SpanCall → Option SpanEvent
  | .event e _ => some e
  | .link _ => none

def link? : SpanCall → Option SpanLink
  | .event _ _ => none
  | .link l => some l

end SpanCall

namespace SdkSpan

variable {ρ : Type}

def add (span : SdkSpan ρ) : SpanCall → SdkSpan ρ
  | .event event now => span.addEvent event.name event.attributes event.timestamp now
  | .link link => span.addLink link.linkedContext link.attributes

def addAll (span : SdkSpan ρ) (calls : List SpanCall) : SdkSpan ρ := calls.foldl add span

/-- The span with other events and links, further losses charged. -/
def withAdded (span : SdkSpan ρ) (events : List SpanEvent × Drops) (links : List SpanLink × Drops) :
    SdkSpan ρ :=
  { span with
    record := { span.record with events := events.1, links := links.1 }
    diagnostics := charge span.diagnostics (events.2 + links.2) }

variable (span : SdkSpan ρ) (hlive : span.ended = false) (events : List SpanEvent × Drops)
  (links : List SpanLink × Drops)
include hlive

theorem addEvent_eq (event : SpanEvent) (now : Int) (hstamp : event.timestamp ≠ 0) :
    (span.withAdded events links).addEvent event.name event.attributes event.timestamp now =
      span.withAdded
        (offer span.limits.eventCountLimit (limitedEvent span.limits) (eventCost span.limits)
          (Pi.single .spanEventLimit 1) events event) links := by
  unfold addEvent buildEvent offer withAdded
  simp only [hlive, Bool.false_eq_true, if_false, recordDrop_eq, buildAttributes_eq, charge_charge,
    if_neg hstamp]
  split
  · rw [add_right_comm]
  · rw [add_right_comm, limitedEvent, eventCost]

theorem addLink_eq (link : SpanLink) :
    (span.withAdded events links).addLink link.linkedContext link.attributes =
      span.withAdded events
        (offer span.limits.linkCountLimit (limitedLink span.limits) (linkCost span.limits)
          (Pi.single .spanLinkLimit 1) links link) := by
  unfold addLink buildLink offer withAdded
  simp only [hlive, Bool.false_eq_true, if_false, recordDrop_eq, buildAttributes_eq, charge_charge]
  split
  · rw [add_assoc]
  · rw [add_assoc, limitedLink, linkCost]

/-- Events and links do not disturb each other, in whatever order they are added. -/
theorem addAll_eq (calls : List SpanCall)
    (hstamps : ∀ event ∈ calls.filterMap SpanCall.event?, event.timestamp ≠ 0) :
    (span.withAdded events links).addAll calls =
      span.withAdded
        ((calls.filterMap SpanCall.event?).foldl
          (offer span.limits.eventCountLimit (limitedEvent span.limits) (eventCost span.limits)
            (Pi.single .spanEventLimit 1)) events)
        ((calls.filterMap SpanCall.link?).foldl
          (offer span.limits.linkCountLimit (limitedLink span.limits) (linkCost span.limits)
            (Pi.single .spanLinkLimit 1)) links) := by
  induction calls generalizing events links with
  | nil => rfl
  | cons call calls ih =>
      cases call with
      | event event now =>
          have hfirst : event.timestamp ≠ 0 := hstamps event (by simp [SpanCall.event?])
          have hstep := addEvent_eq span hlive events links event now hfirst
          refine Eq.trans ?_ (ih _ links fun e he => hstamps e (by
            rw [List.filterMap_cons]
            exact List.mem_cons_of_mem _ he))
          exact congrArg (fun s => s.addAll calls) hstep
      | link link =>
          have hstep := addLink_eq span hlive events links link
          refine Eq.trans ?_ (ih events _ hstamps)
          exact congrArg (fun s => s.addAll calls) hstep

end SdkSpan

/-! ### Agreement -/

/-- A span that holds nothing yet. -/
structure SdkSpan.Fresh {ρ : Type} (span : SdkSpan ρ) : Prop where
  live : span.ended = false
  attributes : span.record.attributes = []
  events : span.record.events = []
  links : span.record.links = []

theorem SdkSpan.Fresh.agree {ρ : Type} {span : SdkSpan ρ} (hfresh : span.Fresh)
    (record : SpanRecord ρ) (extra : List KeyValue) (calls : List SpanCall)
    (hevents : calls.filterMap SpanCall.event? = record.events)
    (hlinks : calls.filterMap SpanCall.link? = record.links)
    (hstamps : ∀ event ∈ record.events, event.timestamp ≠ 0) :
    let built := (seedAttributes (seedAttributes span record.attributes) extra).addAll calls
    let (leaf, diag₁) := applySpanLimits record span.limits span.diagnostics
    let (attributes, diag₂) := appendAttributes leaf.attributes extra span.limits diag₁
    built.record.attributes = attributes ∧ built.record.events = leaf.events ∧
      built.record.links = leaf.links ∧ built.diagnostics = diag₂ := by
  intro built
  have hfirst := seedAttributes_eq span hfresh.live record.attributes
  rw [hfresh.attributes, List.nil_append, List.length_nil, Nat.sub_zero] at hfirst
  have hsecond := seedAttributes_eq (seedAttributes span record.attributes)
    (by rw [hfirst]; exact hfresh.live) extra
  have hadded := addAll_eq (seedAttributes (seedAttributes span record.attributes) extra)
    (by rw [hsecond, hfirst]; exact hfresh.live) ([], 0) ([], 0) calls
    (by rw [hevents]; exact hstamps)
  have hstart : (seedAttributes (seedAttributes span record.attributes) extra).withAdded
      ([], 0) ([], 0) = seedAttributes (seedAttributes span record.attributes) extra := by
    rw [hsecond, hfirst]
    simp [withAdded, withAttributes, hfresh.events, hfresh.links]
  rw [hstart, hevents, hlinks, foldl_offer, foldl_offer] at hadded
  have hbuilt : built = _ := hadded
  rw [applySpanLimits_eq]
  dsimp only
  rw [appendAttributes_eq, hbuilt, hsecond, hfirst]
  refine ⟨rfl, rfl, rfl, ?_⟩
  simp only [withAdded, withAttributes, charge_charge, zero_add, List.length_nil, Nat.sub_zero,
    limited]
  congr 1
  abel

/-- A span started with the record's attributes and given the sampler's, its events
and its links is the leaf span of that record under `ApplySpanLimits` and
`AppendAttributes`. -/
theorem limits_agree {ρ : Type} (limits : SpanLimitOptions) (diag : Option Drops)
    (record : SpanRecord ρ) (sampling : SamplingResult)
    (hsampled : sampling.decision = .recordAndSample)
    (opts : StartSpanOptions) (hopts : opts.attributes = record.attributes)
    (calls : List SpanCall) (hevents : calls.filterMap SpanCall.event? = record.events)
    (hlinks : calls.filterMap SpanCall.link? = record.links)
    (hstamps : ∀ event ∈ record.events, event.timestamp ≠ 0)
    (name : Bytes) (parent : SpanContext) (traceId : TraceId) (spanId : SpanId) (now : Int) :
    ∃ started, startSpan ρ name opts parent traceId spanId sampling now limits diag = some started ∧
      let span := started.addAll calls
      let (leaf, diag₁) := applySpanLimits record limits diag
      let (attributes, diag₂) :=
        appendAttributes leaf.attributes sampling.additionalAttributes limits diag₁
      span.record.attributes = attributes ∧ span.record.events = leaf.events ∧
        span.record.links = leaf.links ∧ span.diagnostics = diag₂ := by
  have hkept : sampling.decision ≠ .drop := by
    rw [hsampled]
    simp
  unfold startSpan
  simp only [if_neg hkept, hopts]
  refine ⟨_, rfl, ?_⟩
  exact SdkSpan.Fresh.agree ⟨rfl, rfl, rfl, rfl⟩ record sampling.additionalAttributes calls
    hevents hlinks hstamps

/-- One attribute and no event allowed, strings of two bytes; the sampler adds an
attribute and the event holds one. -/
theorem limits_agree_small :
    let limits : SpanLimitOptions :=
      { attributeCountLimit := 1, eventCountLimit := 0, attributeValueLengthLimit := 2 }
    let kv : KeyValue := ⟨[0x6B], .strings [[0x61, 0x62, 0x63], [0x61, 0xC3, 0xA9], [0x61]]⟩
    ∃ started,
      startSpan Unit [] { attributes := [kv] } {} default default ⟨.recordAndSample, [kv], none⟩ 7
          limits (some 0) = some started ∧
        let span := started.addAll [.link { attributes := [kv] },
          .event { timestamp := 5, attributes := [kv] } 9]
        span.record.attributes = [⟨[0x6B], .strings [[0x61, 0x62], [0x61], [0x61]]⟩] ∧
          span.record.events = [] ∧
          span.diagnostics.map (fun drops => drops .attributeValueTruncated) = some 4 ∧
          span.diagnostics.map (fun drops => drops .eventAttributeLimit) = some 0 := by
  intro limits kv
  let record : SpanRecord Unit :=
    { attributes := [kv], events := [{ timestamp := 5, attributes := [kv] }]
      links := [{ attributes := [kv] }] }
  obtain ⟨started, hstart, hattributes, hevents, -, hdrops⟩ :=
    limits_agree limits (some 0) record ⟨.recordAndSample, [kv], none⟩ rfl { attributes := [kv] }
      rfl [.link { attributes := [kv] }, .event { timestamp := 5, attributes := [kv] } 9] rfl rfl
      (by simp [record]) [] {} default default 7
  refine ⟨started, hstart, hattributes.trans ?_, hevents.trans ?_, ?_, ?_⟩
  · decide
  · decide
  · rw [hdrops]
    decide
  · rw [hdrops]
    decide

end Microtel.Sdk
