import Microtel.Lib.KeyedList
import Microtel.Sdk.LimitAgreement

/-!
`SetAttribute` sets or updates, by its interface (`include/microtel/span.hpp`): a
record holds each key once, with the value of the last call on it. `SdkSpan` never
looks a key up; it adds until the limit and refuses from then on. The two come to
the same for calls that would update nothing.
-/

namespace Microtel.Sdk

open Concentrator.Receiver (SamplingResult)

/-! ### Set or update -/

/-- The keys that get in, in the order of the first call on each. -/
def acceptedKeys (limit : Nat) (calls : List KeyValue) : List Bytes :=
  (FirstSeen.keys KeyValue.key calls).take limit

def lastCall (calls : List KeyValue) (k : Bytes) : Option KeyValue :=
  KeyedList.find KeyValue.key calls.reverse k

/-- The calls on a key that comes when the limit is reached. -/
def refusedCalls (limit : Nat) (calls : List KeyValue) : Nat :=
  calls.countP fun kv => !(acceptedKeys limit calls).contains kv.key

/-- What the interface promises of a record after these calls, and of the counter. -/
structure SetsOrUpdates (limits : SpanLimitOptions) (calls : List KeyValue)
    (before after : Option Drops) (attributes : List KeyValue) : Prop where
  bounded : attributes.length ≤ limits.attributeCountLimit
  distinct : (attributes.map KeyValue.key).Nodup
  keys : attributes.map KeyValue.key = acceptedKeys limits.attributeCountLimit calls
  values : ∀ kv ∈ attributes,
    (lastCall calls kv.key).map (clip limits.attributeValueLengthLimit) = some kv
  counted : after.map (fun drops => drops .spanAttributeLimit) =
    before.map fun drops =>
      drops .spanAttributeLimit + refusedCalls limits.attributeCountLimit calls

/-- No call has anything to update: the calls that fit name different keys, each with
the value it keeps, and where refusals are counted no later call names one of them. -/
structure UpdatesNothing (limits : SpanLimitOptions) (calls : List KeyValue)
    (before : Option Drops) : Prop where
  distinct : ((calls.take limits.attributeCountLimit).map KeyValue.key).Nodup
  values : ∀ kv ∈ calls.take limits.attributeCountLimit,
    (lastCall calls kv.key).map (clip limits.attributeValueLengthLimit) =
      some (clip limits.attributeValueLengthLimit kv)
  later : before ≠ none → ∀ kv ∈ calls.drop limits.attributeCountLimit,
    kv.key ∉ (calls.take limits.attributeCountLimit).map KeyValue.key

/-! ### What the calls do -/

/-- The calls up to the limit, clipped; every later one is counted. -/
structure Adds (limits : SpanLimitOptions) (calls : List KeyValue) (before after : Option Drops)
    (attributes : List KeyValue) : Prop where
  attributes : attributes =
    (calls.take limits.attributeCountLimit).map (clip limits.attributeValueLengthLimit)
  counted : after.map (fun drops => drops .spanAttributeLimit) =
    before.map fun drops =>
      drops .spanAttributeLimit + (calls.length - limits.attributeCountLimit)

theorem seedAttributes_append {ρ : Type} (span : SdkSpan ρ) (calls calls' : List KeyValue) :
    seedAttributes span (calls ++ calls') = seedAttributes (seedAttributes span calls) calls' :=
  List.foldl_append

/-- The attributes of the options, those of the sampler and the calls that follow are
one list of calls. -/
theorem startSpan_adds {ρ : Type} {name : Bytes} {opts : StartSpanOptions} {parent : SpanContext}
    {traceId : TraceId} {spanId : SpanId} {sampling : SamplingResult} {now : Int}
    {limits : SpanLimitOptions} {diag : Option Drops} {started : SdkSpan ρ}
    (hstart : startSpan ρ name opts parent traceId spanId sampling now limits diag = some started)
    (later : List KeyValue) :
    (seedAttributes started later).ended = false ∧
      Adds limits (opts.attributes ++ sampling.additionalAttributes ++ later) diag
        (seedAttributes started later).diagnostics
        (seedAttributes started later).record.attributes := by
  unfold startSpan at hstart
  by_cases hdrop : sampling.decision = .drop
  · simp [hdrop] at hstart
  · simp only [if_neg hdrop, Option.some.injEq] at hstart
    rw [← hstart, ← seedAttributes_append, ← seedAttributes_append, SdkSpan.seedAttributes_eq _ rfl]
    refine ⟨rfl, ?_, ?_⟩
    · simp [SdkSpan.withAttributes]
    · simp only [SdkSpan.withAttributes, charges_attributes, charge, Option.map_map]
      congr 1
      funext drops
      simp

/-! ### When they agree -/

theorem map_key_clip (limit : Nat) (calls : List KeyValue) :
    (calls.map (clip limit)).map KeyValue.key = calls.map KeyValue.key := by
  rw [List.map_map]
  rfl

variable {limits : SpanLimitOptions} {calls attributes : List KeyValue}
  {before after : Option Drops}

/-- A record with the keys it should have refuses as many calls as it should only if
no call past the limit names one of them. -/
theorem refusedCalls_eq_iff (limit : Nat)
    (hkeys : acceptedKeys limit calls = (calls.take limit).map KeyValue.key) :
    refusedCalls limit calls = calls.length - limit ↔
      ∀ kv ∈ calls.drop limit, kv.key ∉ (calls.take limit).map KeyValue.key := by
  have htaken : (calls.take limit).countP
      (fun kv => !((calls.take limit).map KeyValue.key).contains kv.key) = 0 := by
    rw [List.countP_eq_zero]
    intro kv hkv
    rw [List.contains_iff_mem.mpr (List.mem_map_of_mem hkv)]
    exact Bool.false_ne_true
  have hsplit : refusedCalls limit calls = (calls.drop limit).countP
      fun kv => !((calls.take limit).map KeyValue.key).contains kv.key := by
    unfold refusedCalls
    rw [hkeys]
    conv => lhs; rw [← List.take_append_drop limit calls, List.countP_append]
    rw [List.take_append_drop, htaken, Nat.zero_add]
  rw [hsplit, ← List.length_drop, List.countP_eq_length]
  simp

theorem acceptedKeys_eq (limit : Nat) (h : ((calls.take limit).map KeyValue.key).Nodup) :
    acceptedKeys limit calls = (calls.take limit).map KeyValue.key := by
  unfold acceptedKeys
  by_cases hlong : limit ≤ calls.length
  · have hprefix : (FirstSeen.keys KeyValue.key (calls.take limit)).IsPrefix
        (FirstSeen.keys KeyValue.key (calls.take limit ++ calls.drop limit)) :=
      FirstSeen.keys_prefix (calls.take limit) (calls.drop limit)
    obtain ⟨rest, hrest⟩ := hprefix
    rw [List.take_append_drop, FirstSeen.keys_of_nodup h] at hrest
    have hlength : ((calls.take limit).map KeyValue.key).length = limit := by
      rw [List.length_map, List.length_take, Nat.min_eq_left hlong]
    rw [← hrest, List.take_append_of_le_length (le_of_eq hlength.symm),
      List.take_of_length_le (le_of_eq hlength)]
  · have hshort : calls.length ≤ limit := by omega
    have hkeys : (calls.map KeyValue.key).length ≤ limit := by rwa [List.length_map]
    rw [List.take_of_length_le hshort] at h ⊢
    rw [FirstSeen.keys_of_nodup h, List.take_of_length_le hkeys]

theorem Adds.setsOrUpdates_iff (h : Adds limits calls before after attributes) :
    SetsOrUpdates limits calls before after attributes ↔ UpdatesNothing limits calls before := by
  have hkeys : attributes.map KeyValue.key =
      (calls.take limits.attributeCountLimit).map KeyValue.key := by
    rw [h.attributes, map_key_clip]
  constructor
  · intro S
    have hdistinct := S.distinct
    rw [hkeys] at hdistinct
    refine ⟨hdistinct, ?_, ?_⟩
    · intro kv hkv
      refine S.values (clip limits.attributeValueLengthLimit kv) ?_
      rw [h.attributes]
      exact List.mem_map_of_mem hkv
    · intro hsink
      rw [← refusedCalls_eq_iff _ (acceptedKeys_eq _ hdistinct)]
      have hcounted := h.counted.symm.trans S.counted
      cases before with
      | none => exact absurd rfl hsink
      | some drops =>
          rw [Option.map_some, Option.map_some, Option.some.injEq] at hcounted
          omega
  · intro U
    have haccepted := acceptedKeys_eq _ U.distinct
    refine ⟨?_, ?_, ?_, ?_, ?_⟩
    · rw [h.attributes, List.length_map]
      exact List.length_take_le ..
    · rw [hkeys]
      exact U.distinct
    · rw [hkeys, haccepted]
    · intro kv hkv
      rw [h.attributes] at hkv
      obtain ⟨call, hcall, rfl⟩ := List.mem_map.mp hkv
      exact U.values call hcall
    · rw [h.counted]
      cases before with
      | none => rfl
      | some drops => rw [(refusedCalls_eq_iff _ haccepted).mpr (U.later (by simp))]

/-- With a sink that counts, nothing is updated when no call names a key that is
already there. -/
theorem updatesNothing_iff_of_sink (hsink : before ≠ none) :
    UpdatesNothing limits calls before ↔
      ((calls.take limits.attributeCountLimit).map KeyValue.key).Nodup ∧
        ∀ kv ∈ calls.drop limits.attributeCountLimit,
          kv.key ∉ (calls.take limits.attributeCountLimit).map KeyValue.key := by
  constructor
  · exact fun U => ⟨U.distinct, U.later hsink⟩
  · rintro ⟨hdistinct, hlater⟩
    refine ⟨hdistinct, ?_, fun _ => hlater⟩
    intro kv hkv
    have hdropped : KeyedList.find KeyValue.key (calls.drop limits.attributeCountLimit).reverse
        kv.key = none := by
      rw [← Option.not_isSome_iff_eq_none, KeyedList.find_isSome, List.map_reverse,
        List.mem_reverse]
      intro hmem
      obtain ⟨call, hcall, hkey⟩ := List.mem_map.mp hmem
      apply hlater call hcall
      rw [hkey]
      exact List.mem_map_of_mem hkv
    have htaken : KeyedList.find KeyValue.key (calls.take limits.attributeCountLimit).reverse
        kv.key = some kv := by
      apply KeyedList.find_of_mem
      · rw [List.map_reverse, List.nodup_reverse]
        exact hdistinct
      · rwa [List.mem_reverse]
    unfold lastCall
    rw [← List.take_append_drop limits.attributeCountLimit calls, List.reverse_append]
    unfold KeyedList.find at hdropped htaken ⊢
    rw [List.find?_append, hdropped, Option.none_or, htaken, Option.map_some]

/-- The record a span hands over is set and updated as its interface says exactly
when none of its calls had to update anything. -/
theorem setAttribute_setsOrUpdates_iff {ρ : Type} {name : Bytes} {opts : StartSpanOptions}
    {parent : SpanContext} {traceId : TraceId} {spanId : SpanId} {sampling : SamplingResult}
    {now : Int} {limits : SpanLimitOptions} {diag : Option Drops} {started : SdkSpan ρ}
    (hstart : startSpan ρ name opts parent traceId spanId sampling now limits diag = some started)
    (later : List KeyValue) (endTime endNow : Int) :
    let calls := opts.attributes ++ sampling.additionalAttributes ++ later
    let ended := (later.foldl (fun span kv => span.setAttribute kv.key kv.value) started).endSpan
      endTime endNow
    ∃ record, ended.2 = some record ∧
      (SetsOrUpdates limits calls diag ended.1.diagnostics record.attributes ↔
        UpdatesNothing limits calls diag) := by
  intro calls ended
  obtain ⟨hlive, hadds⟩ := startSpan_adds hstart later
  have hended : ended = (seedAttributes started later).endSpan endTime endNow := rfl
  rw [hended, SdkSpan.endSpan, hlive]
  exact ⟨_, rfl, hadds.setsOrUpdates_iff⟩

/-- One call that fits from each source, and one more. -/
theorem setAttribute_setsOrUpdates_three :
    let limits : SpanLimitOptions := { attributeCountLimit := 2 }
    let a : KeyValue := ⟨[0x61], .int 1⟩
    let b : KeyValue := ⟨[0x62], .int 2⟩
    let c : KeyValue := ⟨[0x63], .int 3⟩
    ∃ started, startSpan Unit [] { attributes := [a] } {} default default
        ⟨.recordAndSample, [b], none⟩ 7 limits (some 0) = some started ∧
      ∃ record, ((started.setAttribute c.key c.value).endSpan 0 9).2 = some record ∧
        SetsOrUpdates limits [a, b, c] (some 0)
          ((started.setAttribute c.key c.value).endSpan 0 9).1.diagnostics record.attributes := by
  intro limits a b c
  refine ⟨_, rfl, ?_⟩
  have hstart : startSpan Unit [] { attributes := [a] } {} default default
      ⟨.recordAndSample, [b], none⟩ 7 limits (some 0) = some _ := rfl
  obtain ⟨record, hrecord, hiff⟩ := setAttribute_setsOrUpdates_iff hstart [c] 0 9
  refine ⟨record, hrecord, hiff.mpr ?_⟩
  rw [updatesNothing_iff_of_sink (by simp)]
  exact ⟨by decide, by decide⟩

/-- One key set twice. -/
def twice : List KeyValue := [⟨[0x6B], .int 1⟩, ⟨[0x6B], .int 2⟩]

/-- Both values are in the record. -/
theorem setAttribute_twice :
    ((startSpan Unit [] { attributes := twice } {} default default ⟨.recordAndSample, [], none⟩ 7 {}
        (some 0)).map fun span => span.record.attributes) = some twice ∧
      ∀ after, ¬ SetsOrUpdates {} twice (some 0) after twice := by
  refine ⟨by decide, ?_⟩
  intro after S
  exact absurd S.distinct (by decide)

end Microtel.Sdk
