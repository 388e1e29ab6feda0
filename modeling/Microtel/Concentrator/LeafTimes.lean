import Microtel.Concentrator.ClampedTime
import Microtel.Concentrator.LeafPayloads

/-!
What becomes of a leaf's times: the readings of its clock, the times it sends, and the times
the concentrator hands on.
-/

namespace Microtel.Concentrator

open Wire (leafMessage leafSpans leafRecord TimesFit)
open Leaf (SpanView payloadMode timeOffset readClock rawSpans)

/-! ### One time -/

/-- The correction neither saturates nor clamps the time. -/
def Unsaturated (t : Int) (c : TimeCorrection) : Prop :=
  0 ≤ t + c.offset ∧ t + c.offset ≤ int64Max

theorem corrected_exact {c : TimeCorrection} {t : Int} (hnone : c.fixed = none)
    (ht : Unsaturated t c) : corrected t c = t + c.offset := by
  obtain ⟨hlow, hhigh⟩ := ht
  rw [corrected, hnone]
  unfold saturatingAdd
  unfold int64Max int64Min at *
  dsimp only
  split_ifs <;> omega

/-- The encode time itself becomes the receive time. -/
theorem corrected_encodeTime {received encodeTime : Int} (hnonneg : 0 ≤ received)
    (hreceived : received ≤ int64Max) (hencode : 0 ≤ encodeTime)
    (hfit : encodeTime ≤ int64Max) :
    corrected encodeTime (concentratorStamped received (some encodeTime)) = received := by
  unfold corrected concentratorStamped saturatingAdd saturatingSub
  unfold int64Max int64Min at *
  dsimp only
  split_ifs <;> omega

theorem correctionFor_stamped (r : Receiver) {table : LeafTable LeafSettings Resource}
    {p : Payload} {mode : LeafTimeMode} {info : LeafWireInfo}
    (h : mode = .concentratorStamped ∨ (r.correctionFor table p mode info).2.2 = true) :
    (r.correctionFor table p mode info).2.1 =
      concentratorStamped p.received (info.encodeTime.map Int64.toInt) := by
  unfold Receiver.correctionFor at *
  cases mode with
  | unix => simp at h
  | concentratorStamped => rfl
  | bootRelative => simp at h
  | syncRelative =>
      dsimp only at h ⊢
      split at h
      · simp at h
      · rfl

/-- A sync that is trusted leaves the times as they are. -/
theorem correctionFor_trusted (r : Receiver) {table : LeafTable LeafSettings Resource}
    {p : Payload} {info : LeafWireInfo}
    (h : (r.correctionFor table p .syncRelative info).2.2 = false) :
    (r.correctionFor table p .syncRelative info).2.1 = ⟨0, none⟩ := by
  unfold Receiver.correctionFor at *
  dsimp only at h ⊢
  split at h
  · next trusted htrusted =>
    obtain ⟨-, heq⟩ := Option.ite_none_left_eq_some.mp htrusted
    exact (Option.some.inj heq).symm
  · simp at h

/-- Only a payload without an encode time gets one fixed time, that of its receipt. -/
theorem correctionFor_fixed (r : Receiver) {table : LeafTable LeafSettings Resource}
    {p : Payload} {mode : LeafTimeMode} {info : LeafWireInfo} {time : Int}
    (h : (r.correctionFor table p mode info).2.1.fixed = some time) :
    info.encodeTime = none ∧ time = max 0 p.received := by
  have hstamped : ∀ encodeTime : Option Int64,
      (concentratorStamped p.received (encodeTime.map Int64.toInt)).fixed = some time →
        encodeTime = none ∧ time = max 0 p.received := by
    intro encodeTime hfixed
    cases encodeTime with
    | none => exact ⟨rfl, (Option.some.inj hfixed).symm⟩
    | some e => cases hfixed
  cases mode with
  | unix => cases h
  | bootRelative => cases h
  | concentratorStamped => exact hstamped _ h
  | syncRelative =>
      cases hfell : (r.correctionFor table p .syncRelative info).2.2 with
      | true =>
          rw [correctionFor_stamped r (Or.inr hfell)] at h
          exact hstamped _ h
      | false =>
          rw [correctionFor_trusted r hfell] at h
          cases h

/-! ### The times of spans -/

def leafTimes (spans : List SpanView) : List UInt64 :=
  spans.flatMap fun s =>
    s.startTimeUnixNano :: s.endTimeUnixNano :: s.events.map Leaf.EventView.timeUnixNano

def recordTimes (spans : List (SpanRecord Resource)) : List Int :=
  spans.flatMap fun s => s.startTime :: s.endTime :: s.events.map SpanEvent.timestamp

/-- The spans of one ResourceSpans, in the order they are enqueued. -/
def payloadSpans (rs : DecodedResourceSpans Resource) : List (SpanRecord Resource) :=
  (Receiver.scopedSpans rs).map Prod.fst

theorem payloadSpans_leaf (v : Leaf.BatchView) :
    payloadSpans (leafSpans v) = v.spans.map leafRecord := by
  unfold payloadSpans Receiver.scopedSpans leafSpans
  simp

theorem leafTimes_view (spans : List Leaf.Span) (offset : UInt64) :
    leafTimes (spans.map fun s => s.view offset) =
      (leafTimes (spans.map fun s => s.view 0)).map (· + offset) := by
  unfold leafTimes
  rw [List.flatMap_map, List.flatMap_map, List.map_flatMap]
  congr 1
  funext s
  simp [Leaf.Span.view]

theorem recordTimes_leafRecord (spans : List SpanView) :
    recordTimes (spans.map leafRecord) = (leafTimes spans).map fun t => (t.toNat : Int) := by
  unfold recordTimes leafTimes
  rw [List.flatMap_map, List.map_flatMap]
  congr 1
  funext s
  simp [leafRecord, Wire.spanEvent]

theorem recordTimes_applied (spans : List (SpanRecord Resource)) (c : TimeCorrection) :
    recordTimes (spans.map fun span => Receiver.applyTimeCorrection span c) =
      (recordTimes spans).map fun t => corrected t c := by
  unfold recordTimes
  rw [List.flatMap_map, List.map_flatMap]
  congr 1
  funext span
  simp [Receiver.applyTimeCorrection]

theorem timesFit_lt {v : Leaf.BatchView} (hfit : TimesFit v) :
    ∀ t ∈ leafTimes v.spans, t.toNat < 2 ^ 63 := by
  intro t ht
  obtain ⟨s, hs, hmem⟩ := List.mem_flatMap.mp ht
  obtain ⟨hstart, hfinish, hevents⟩ := hfit s hs
  rcases List.mem_cons.mp hmem with rfl | hmem
  · exact hstart
  rcases List.mem_cons.mp hmem with rfl | hmem
  · exact hfinish
  obtain ⟨ev, hev, rfl⟩ := List.mem_map.mp hmem
  exact hevents ev hev

section

variable {w : Word32} {st : Leaf.LeafState} {env : Leaf.Callbacks} {S : Leaf.Store}
  {A : Leaf.AbstractLeaf}

/-- No time of a span is later than the reading of the encode. -/
theorem reading_le (R : Leaf.Reached w st env S A) :
    ∀ t ∈ leafTimes (rawSpans w st), t ≤ readClock A.toLeafParams env := by
  intro t ht
  rw [R.raw] at ht
  obtain ⟨s, hs, hmem⟩ := List.mem_flatMap.mp ht
  obtain ⟨span, hspan, rfl⟩ := List.mem_map.mp hs
  obtain ⟨h, hended, hlookup⟩ := List.mem_filterMap.mp hspan
  obtain ⟨span', hspan', hdone⟩ := R.models.ended_span R.valid hended
  rw [hlookup] at hspan'
  obtain rfl := Option.some.inj hspan'
  have D := R.dated.spans h _ hlookup
  simp only [Leaf.Span.view, UInt64.add_zero, List.mem_cons, List.mem_map] at hmem
  rcases hmem with rfl | rfl | ⟨ev, ⟨⟨time, name, attrs⟩, hevent, rfl⟩, rfl⟩
  · exact D.start
  · exact (D.finish hdone).2
  · exact D.events _ hevent

/-- The times of the batch are the clock's answers in the calls of its spans. -/
theorem leafTimes_logged (R : Leaf.Reached w st env S A) :
    leafTimes (rawSpans w st) = A.clockLog.times := by
  have hlookup : A.ended.filterMap (fun h => (A.span h).map Leaf.Span.readings) =
      (A.ended.filterMap A.span).map Leaf.Span.readings := by
    rw [List.map_filterMap]
  rw [R.raw]
  unfold leafTimes Leaf.ClockLog.times Leaf.AbstractLeaf.clockLog
  dsimp only
  rw [hlookup, List.flatMap_map, List.flatMap_map]
  apply List.flatMap_congr
  intro s hs
  obtain ⟨h, hended, hspan⟩ := List.mem_filterMap.mp hs
  obtain ⟨s', hs', hdone⟩ := R.models.ended_span R.valid hended
  rw [hspan] at hs'
  obtain rfl := Option.some.inj hs'
  simp [Leaf.Span.view, Leaf.Span.readings, hdone]

theorem leafTimes_batch (R : Leaf.Reached w st env S A) :
    leafTimes (Leaf.batchView w st env).spans =
      (leafTimes (rawSpans w st)).map (· + timeOffset A.toLeafParams A.toLeafVars) := by
  rw [R.view, R.raw]
  exact leafTimes_view _ _

/-! ### The times of a payload -/

/-- A time of a payload: as the leaf's clock read it, as it is sent, and as it is handed on. -/
structure Timestamp where
  reading : UInt64
  sent : Int
  corrected : Int

def stamp (offset : UInt64) (c : TimeCorrection) (t : UInt64) : Timestamp :=
  ⟨t, (t + offset).toNat, corrected (t + offset).toNat c⟩

/-- What a correction makes of the times of a payload; the clock said `now` at the encode, and
`sync` is what the last sync was told. -/
structure TimesCorrected (ts : List Timestamp) (sync : Option (UInt64 × UInt64)) (now : UInt64)
    (mode : LeafTimeMode) (received : Int) (c : TimeCorrection) (fellBack : Bool) : Prop where
  range : ∀ t ∈ ts, 0 ≤ t.corrected ∧ t.corrected ≤ int64Max
  order : ∀ x ∈ ts, ∀ y ∈ ts, x.sent ≤ y.sent → x.corrected ≤ y.corrected
  /-- Below 2^63 the order is that of the leaf's own clock. -/
  readings : now.toNat < 2 ^ 63 →
    ∀ x ∈ ts, ∀ y ∈ ts, x.reading ≤ y.reading → x.corrected ≤ y.corrected
  exact : now.toNat < 2 ^ 63 → ∀ x ∈ ts, ∀ y ∈ ts, Unsaturated x.sent c → Unsaturated y.sent c →
    y.corrected - x.corrected = y.reading.toNat - x.reading.toNat
  /-- A time read at the encode is the time of the receipt. -/
  stamped : mode = .concentratorStamped ∨ fellBack = true → 0 ≤ received →
    ∀ t ∈ ts, t.reading = now → t.corrected = received
  /-- Where the sync is trusted it is the time since the sync. -/
  trusted : mode = .syncRelative → fellBack = false →
    ∃ syncUnix syncLeaf, sync = some (syncUnix, syncLeaf) ∧
      (now.toNat < 2 ^ 63 → syncUnix.toNat < 2 ^ 63 → ∀ t ∈ ts, t.reading = now →
        t.corrected = syncUnix.toNat + (now.toNat - syncLeaf.toNat : Int))

/-- A leaf without a clock reads zero and sends zero. -/
theorem clockless (R : Leaf.Reached w st env S A)
    (hnone : (leafHeader st.toLeafParams st.toLeafVars env).encodeTime = none) :
    timeOffset A.toLeafParams A.toLeafVars = 0 ∧
      ∀ t ∈ leafTimes (rawSpans w st), t = 0 := by
  have hclock : A.hasClock = false := by
    by_contra hnot
    have hsome : st.hasClock = true := by
      have hparams := congrArg Leaf.LeafParams.hasClock R.params
      rw [hparams]
      simpa using hnot
    simp [leafHeader, hsome] at hnone
  have hmode : A.timeMode = .concentratorStamped := by
    by_contra hnot
    rw [R.clocked hnot] at hclock
    cases hclock
  refine ⟨?_, fun t ht => ?_⟩
  · simp [timeOffset, payloadMode, hmode]
  · have hle := reading_le R t ht
    rw [readClock, hclock] at hle
    exact UInt64.le_zero_iff.mp hle

/-- After a sync the leaf's clock and the time of the sync move together. -/
theorem encodeTime_synced {syncUnix syncLeaf now : UInt64} (hpast : syncLeaf ≤ now)
    (hnow : now.toNat < 2 ^ 63) (hunix : syncUnix.toNat < 2 ^ 63) :
    ((now + (syncUnix - syncLeaf)).toNat : Int) =
      syncUnix.toNat + (now.toNat - syncLeaf.toNat : Int) := by
  have hnat := UInt64.le_iff_toNat_le.mp hpast
  rw [UInt64.toNat_add, UInt64.toNat_sub]
  omega

/-- A sync-relative payload is sent with the offset of a sync that is past. -/
theorem offset_synced (R : Leaf.Reached w st env S A)
    (hmode : leafMode (payloadMode st.toLeafParams st.toLeafVars) = .syncRelative) :
    A.clockLog.sync = some (A.syncUnix, A.syncLeaf) ∧
      A.syncLeaf ≤ readClock A.toLeafParams env ∧
      timeOffset A.toLeafParams A.toLeafVars = A.syncUnix - A.syncLeaf := by
  rw [R.params, R.vars] at hmode
  have hpayload : payloadMode A.toLeafParams A.toLeafVars = .syncRelative := by
    cases hcases : payloadMode A.toLeafParams A.toLeafVars with
    | syncRelative => rfl
    | concentratorStamped => rw [hcases] at hmode; cases hmode
    | bootRelative => rw [hcases] at hmode; cases hmode
  have hsynced : A.synced = true := by
    by_contra hnot
    by_cases hsync : A.timeMode = .syncRelative
    · simp [payloadMode, hsync, hnot] at hpayload
    · simp [payloadMode, hsync] at hpayload
  exact ⟨if_pos hsynced, (R.dated.sync hsynced).2, by rw [timeOffset, if_pos hpayload]⟩

theorem sent_lt (R : Leaf.Reached w st env S A) (hfit : TimesFit (Leaf.batchView w st env)) :
    ∀ t ∈ leafTimes (rawSpans w st),
      (t + timeOffset A.toLeafParams A.toLeafVars).toNat < 2 ^ 63 := by
  intro t ht
  apply timesFit_lt hfit
  rw [leafTimes_batch R]
  exact List.mem_map_of_mem ht

/-- The times sent are as far apart as the readings. -/
theorem sent_sub (R : Leaf.Reached w st env S A) (hfit : TimesFit (Leaf.batchView w st env))
    (hnow : (readClock A.toLeafParams env).toNat < 2 ^ 63) {x y : UInt64}
    (hx : x ∈ leafTimes (rawSpans w st)) (hy : y ∈ leafTimes (rawSpans w st)) :
    ((y + timeOffset A.toLeafParams A.toLeafVars).toNat : Int) -
        (x + timeOffset A.toLeafParams A.toLeafVars).toNat = y.toNat - x.toNat := by
  have hxle := UInt64.le_iff_toNat_le.mp (reading_le R x hx)
  have hyle := UInt64.le_iff_toNat_le.mp (reading_le R y hy)
  exact converted_sub (by omega) (by omega) (sent_lt R hfit x hx) (sent_lt R hfit y hy)

/-- The encode time the header carries, where the payload has a time of that reading. -/
theorem encodeTime_toInt (R : Leaf.Reached w st env S A)
    (hfit : TimesFit (Leaf.batchView w st env))
    (hmem : readClock A.toLeafParams env ∈ leafTimes (rawSpans w st))
    {encodeTime : Int64}
    (hsome : (leafHeader st.toLeafParams st.toLeafVars env).encodeTime = some encodeTime) :
    encodeTime.toInt =
      (readClock A.toLeafParams env + timeOffset A.toLeafParams A.toLeafVars).toNat := by
  rw [R.params, R.vars] at hsome
  obtain ⟨-, heq⟩ := Option.ite_none_right_eq_some.mp hsome
  rw [← Option.some.inj heq]
  exact toInt64_of_small (sent_lt R hfit _ hmem)

/-- A fixed time is for leaves without a clock, and keeps the times together as they were. -/
theorem corrected_apart (R : Leaf.Reached w st env S A)
    (hfit : TimesFit (Leaf.batchView w st env))
    (hnow : (readClock A.toLeafParams env).toNat < 2 ^ 63) {c : TimeCorrection}
    (hfixed : c.fixed ≠ none → (leafHeader st.toLeafParams st.toLeafVars env).encodeTime = none)
    {x y : UInt64} (hx : x ∈ leafTimes (rawSpans w st)) (hy : y ∈ leafTimes (rawSpans w st))
    (hsx : Unsaturated (x + timeOffset A.toLeafParams A.toLeafVars).toNat c)
    (hsy : Unsaturated (y + timeOffset A.toLeafParams A.toLeafVars).toNat c) :
    corrected (y + timeOffset A.toLeafParams A.toLeafVars).toNat c -
        corrected (x + timeOffset A.toLeafParams A.toLeafVars).toNat c =
      y.toNat - x.toNat := by
  cases hcases : c.fixed with
  | none =>
      have hsub := sent_sub R hfit hnow hx hy
      rw [corrected_exact hcases hsx, corrected_exact hcases hsy]
      omega
  | some time =>
      obtain ⟨-, hzero⟩ := clockless R (hfixed (by rw [hcases]; simp))
      rw [hzero x hx, hzero y hy]
      simp

/-- A time read at the encode is stamped with the time of the receipt. -/
theorem corrected_stamped (R : Leaf.Reached w st env S A)
    (hfit : TimesFit (Leaf.batchView w st env))
    (hmem : readClock A.toLeafParams env ∈ leafTimes (rawSpans w st)) {received : Int}
    (hnonneg : 0 ≤ received) (hreceived : received ≤ int64Max) :
    corrected (readClock A.toLeafParams env + timeOffset A.toLeafParams A.toLeafVars).toNat
      (concentratorStamped received
        ((leafHeader st.toLeafParams st.toLeafVars env).encodeTime.map Int64.toInt)) =
      received := by
  have hsent := sent_lt R hfit _ hmem
  cases hencode : (leafHeader st.toLeafParams st.toLeafVars env).encodeTime with
  | none => exact max_eq_right hnonneg
  | some encodeTime =>
      rw [Option.map_some, encodeTime_toInt R hfit hmem hencode]
      apply corrected_encodeTime hnonneg hreceived
      · exact Int.natCast_nonneg _
      · unfold int64Max
        omega

/-- A time read at the encode of a trusted sync is the time since the sync. -/
theorem corrected_synced (R : Leaf.Reached w st env S A)
    (hfit : TimesFit (Leaf.batchView w st env))
    (hmode : leafMode (payloadMode st.toLeafParams st.toLeafVars) = .syncRelative)
    (hmem : readClock A.toLeafParams env ∈ leafTimes (rawSpans w st))
    (hnow : (readClock A.toLeafParams env).toNat < 2 ^ 63)
    (hunix : A.syncUnix.toNat < 2 ^ 63) :
    corrected (readClock A.toLeafParams env + timeOffset A.toLeafParams A.toLeafVars).toNat
        ⟨0, none⟩ =
      A.syncUnix.toNat + ((readClock A.toLeafParams env).toNat - A.syncLeaf.toNat : Int) := by
  obtain ⟨-, hpast, hoffset⟩ := offset_synced R hmode
  have hsent := sent_lt R hfit _ hmem
  rw [corrected_exact rfl, Int.add_zero, hoffset]
  · exact encodeTime_synced hpast hnow hunix
  · unfold Unsaturated int64Max
    dsimp only
    omega

variable {table : LeafTable LeafSettings Resource} {p : Payload} {mode : LeafTimeMode}
  {c : TimeCorrection} {fellBack : Bool}

/-- Every correction the concentrator can choose for a payload of the leaf. -/
theorem timesCorrected_reached (R : Leaf.Reached w st env S A)
    (hfit : TimesFit (Leaf.batchView w st env)) (r : Receiver)
    (hmode : mode = leafMode (payloadMode st.toLeafParams st.toLeafVars))
    (hreceived : p.received ≤ int64Max)
    (hchosen : (r.correctionFor table p mode
      (leafHeader st.toLeafParams st.toLeafVars env)).2 = (c, fellBack)) :
    TimesCorrected
      ((leafTimes (rawSpans w st)).map (stamp (timeOffset A.toLeafParams A.toLeafVars) c))
      A.clockLog.sync (readClock A.toLeafParams env) mode p.received c fellBack := by
  have hc := congrArg Prod.fst hchosen
  have hfell := congrArg Prod.snd hchosen
  dsimp only at hc hfell
  have hfixed : ∀ time, c.fixed = some time →
      (leafHeader st.toLeafParams st.toLeafVars env).encodeTime = none ∧
        time = max 0 p.received := by
    intro time htime
    rw [← hc] at htime
    exact correctionFor_fixed r htime
  constructor
  case range =>
    -- the receive time is in range, and so is what the sums saturate to
    simp only [List.forall_mem_map]
    intro t ht
    have hsent := sent_lt R hfit t ht
    apply corrected_range
    · unfold int64Max
      omega
    · intro time htime
      obtain ⟨-, rfl⟩ := hfixed time htime
      exact ⟨le_max_left _ _, max_le (by decide) hreceived⟩
  case order =>
    simp only [List.forall_mem_map]
    intro x hx y hy hle
    exact corrected_mono c hle
  case readings =>
    intro hnow
    simp only [List.forall_mem_map]
    intro x hx y hy hle
    have hsub := sent_sub R hfit hnow hx hy
    have hraw := UInt64.le_iff_toNat_le.mp hle
    dsimp only [stamp] at hraw
    apply corrected_mono c
    omega
  case exact =>
    intro hnow
    simp only [List.forall_mem_map]
    intro x hx y hy hsx hsy
    apply corrected_apart R hfit hnow _ hx hy hsx hsy
    intro hne
    obtain ⟨time, htime⟩ := Option.ne_none_iff_exists'.mp hne
    exact (hfixed time htime).1
  case stamped =>
    intro hstamped hnonneg
    simp only [List.forall_mem_map]
    intro t ht hnow
    dsimp only [stamp] at hnow ⊢
    rw [hnow] at ht ⊢
    rw [← hfell] at hstamped
    rw [← hc, correctionFor_stamped r hstamped]
    exact corrected_stamped R hfit ht hnonneg hreceived
  case trusted =>
    intro hsync hkept
    subst hsync
    refine ⟨_, _, (offset_synced R hmode.symm).1, fun hbelow hunix => ?_⟩
    simp only [List.forall_mem_map]
    intro t ht hnow
    dsimp only [stamp] at hnow ⊢
    rw [hnow] at ht ⊢
    rw [← hc, correctionFor_trusted r (hfell.trans hkept)]
    exact corrected_synced R hfit hmode.symm ht hbelow hunix

/-- The payload the decoder finds in the message of a leaf. -/
theorem decoded_reached (R : Leaf.Reached w st env S A)
    (hfit : TimesFit (Leaf.batchView w st env)) :
    (leafMessage (Leaf.batchView w st env)).resourceSpans.mapM Wire.convertResourceSpans =
      some [(leafSpans (Leaf.batchView w st env) : DecodedResourceSpans Resource)] :=
  Wire.convertResourceSpans_leaf fun _ hs => convertible_of_view R hfit hs

end

/-- Every time of a payload that is admitted, from what the leaf's clock answered in the
calls of the run to what the concentrator hands on. -/
theorem leafTimes_corrected {w : Word32} {leaf st₀ st : Leaf.LeafState}
    {leafSize bufferSize : Nat} {config : Leaf.Config} {buffer buffer' : Option ByteMemory.Mem}
    {calls : List (Leaf.Callbacks × Leaf.Call)} {os : List Leaf.Outcome} {env : Leaf.Callbacks}
    (hinit : Leaf.init w leaf leafSize (some config) buffer bufferSize = (.ok, st₀, buffer'))
    (hrun : Leaf.run w st₀ calls = some (st, os)) (hlive : Leaf.checkLeaf st = .ok)
    (hclock : (Leaf.clockAnswers config calls env).Pairwise (· ≤ ·))
    {rs : DecodedResourceSpans Resource}
    (hdecoded : (leafMessage (Leaf.batchView w st env)).resourceSpans.mapM
      Wire.convertResourceSpans = some [rs])
    {mode : LeafTimeMode} (hadmitted : Receiver.admittedModes [rs] = [mode]) (r : Receiver)
    (table : LeafTable LeafSettings Resource) {p : Payload} {R : Int64}
    (hreceived : p.received = R.toInt) {c : TimeCorrection} {fellBack : Bool}
    (hchosen : (r.correctionFor table p mode (readWireInfo rs.resource)).2 = (c, fellBack)) :
    ∃ ts : List Timestamp,
      ts.map Timestamp.reading = (Leaf.clockLog config calls os).times ∧
      ts.map Timestamp.sent = recordTimes (payloadSpans rs) ∧
      ts.map Timestamp.corrected = recordTimes
        ((payloadSpans rs).map fun span => Receiver.applyTimeCorrection span c) ∧
      (∀ span ∈ payloadSpans rs,
        (Receiver.applyTimeCorrection span c).startTime ≤
          (Receiver.applyTimeCorrection span c).endTime) ∧
      TimesCorrected ts (Leaf.clockLog config calls os).sync
        (Leaf.clockAnswer config.hasClock env) mode p.received c fellBack := by
  rw [← Leaf.readings_of_init hinit] at hclock
  obtain ⟨S, A, reached, hparams, hlog⟩ := Leaf.reached_of_run hinit hrun hlive hclock
  have hnow : readClock A.toLeafParams env = Leaf.clockAnswer config.hasClock env := by
    rw [hparams]
    exact Leaf.readClock_of_init hinit env
  have hfit := Wire.timesFit_of_decoded hdecoded
  rw [decoded_reached reached hfit] at hdecoded
  obtain ⟨rfl, -⟩ := List.cons.inj (Option.some.inj hdecoded)
  have hvalid : spansValid (leafSpans (Leaf.batchView w st env)) = true := by
    by_contra hnot
    rw [admittedModes_reached reached, if_neg hnot] at hadmitted
    cases hadmitted
  have hmode : mode = leafMode (payloadMode st.toLeafParams st.toLeafVars) := by
    rw [admittedModes_reached reached, if_pos hvalid] at hadmitted
    exact (List.singleton_inj.mp hadmitted).symm
  have hheader : readWireInfo (leafSpans (ρ := Resource) (Leaf.batchView w st env)).resource =
      leafHeader st.toLeafParams st.toLeafVars env := readWireInfo_reached reached
  have hmax : p.received ≤ int64Max := by
    have hlt := R.toInt_lt
    rw [hreceived]
    unfold int64Max
    omega
  rw [hheader] at hchosen
  have hresult := timesCorrected_reached reached hfit r hmode hmax hchosen
  have hsent : recordTimes (payloadSpans (leafSpans (Leaf.batchView w st env))) =
      (leafTimes (rawSpans w st)).map fun t =>
        ((t + timeOffset A.toLeafParams A.toLeafVars).toNat : Int) := by
    rw [payloadSpans_leaf, recordTimes_leafRecord, leafTimes_batch reached, List.map_map]
    rfl
  rw [hnow, hlog] at hresult
  refine ⟨_, ?_, ?_, ?_, ?_, hresult⟩
  · rw [← hlog, ← leafTimes_logged reached, List.map_map]
    exact List.map_id _
  · rw [hsent, List.map_map]
    rfl
  · rw [recordTimes_applied, hsent, List.map_map, List.map_map]
    rfl
  · intro span hspan
    obtain ⟨⟨_, scope⟩, hscoped, rfl⟩ := List.mem_map.mp hspan
    obtain ⟨scope', hscope, hmem⟩ := List.mem_flatMap.mp hscoped
    obtain ⟨span', hspan', heq⟩ := List.mem_map.mp hmem
    obtain ⟨rfl, -⟩ := Prod.mk.inj heq
    have hspanValid := (Receiver.spansValid_iff _).mp hvalid scope' hscope span' hspan'
    exact corrected_mono c hspanValid.2.2

/-- A span with an event: the clock says 100 at its start, 120 at the event and 150 at the
end. -/
def timedCalls : List (Leaf.Callbacks × Leaf.Call) :=
  [(⟨100, [1, 2, 3, 4]⟩, .spanStart false (.items (ascii "read")) (some .internal) none),
    (⟨120, []⟩, .addEvent 0x10000 (.items (ascii "dry")) (.items [])),
    (⟨150, []⟩, .spanEnd 0x10000)]

/-- The run of a boot-relative leaf that is encoded at 160 and received at 1000. -/
theorem leafTimes_corrected_pump :
    ∃ st os rs c fellBack ts,
      Leaf.run Word32.wrap Leaf.pumpInit.2.1 timedCalls = some (st, os) ∧
      (leafMessage (Leaf.batchView Word32.wrap st ⟨160, []⟩)).resourceSpans.mapM
        Wire.convertResourceSpans = some [rs] ∧
      ts.map Timestamp.reading = [100, 150, 120] ∧
      ts.map Timestamp.corrected = recordTimes
        ((payloadSpans rs).map fun span => Receiver.applyTimeCorrection span c) ∧
      TimesCorrected ts none 160 .bootRelative 1000 c fellBack := by
  have hsome : (Leaf.run Word32.wrap Leaf.pumpInit.2.1 timedCalls).isSome = true := by
    decide +kernel
  obtain ⟨⟨st, os⟩, hrun⟩ := Option.isSome_iff_exists.mp hsome
  have hstate : ((Leaf.run Word32.wrap Leaf.pumpInit.2.1 timedCalls).map fun r =>
      decide (Leaf.checkLeaf r.1 = .ok ∧
        TimesFit (Leaf.batchView Word32.wrap r.1 ⟨160, []⟩) ∧
        payloadMode r.1.toLeafParams r.1.toLeafVars = .bootRelative ∧
        (Leaf.clockLog Leaf.pumpConfig timedCalls r.2).times = [100, 150, 120] ∧
        (Leaf.clockLog Leaf.pumpConfig timedCalls r.2).sync = none)) = some true := by
    decide +kernel
  rw [hrun] at hstate
  obtain ⟨hlive, hfit, hmode, hlogged, hsync⟩ := of_decide_eq_true (Option.some.inj hstate)
  have hclock : (Leaf.clockAnswers Leaf.pumpConfig timedCalls ⟨160, []⟩).Pairwise (· ≤ ·) := by
    decide +kernel
  have hbelow : (readClock Leaf.pumpInit.2.1.toLeafParams ⟨160, []⟩).toNat < 2 ^ 63 := by
    decide +kernel
  obtain ⟨S, A, reached, hparams, -⟩ := Leaf.reached_of_run Leaf.pumpInit_ok hrun hlive
    ((Leaf.readings_of_init Leaf.pumpInit_ok).symm ▸ hclock)
  rw [← hparams] at hbelow
  have hdecoded := decoded_reached reached hfit
  have hadmitted := admittedModes_reached reached
  rw [if_pos (spansValid_reached reached hbelow hfit), hmode] at hadmitted
  let r := receiverOf (leafMessage (Leaf.batchView Word32.wrap st ⟨160, []⟩))
  let p : Payload :=
    { transportId := ascii "pump", decoded := [], modes := [], leafId := ascii "pump"
      received := 1000, now := 0 }
  obtain ⟨ts, hreading, -, hcorrected, -, htimes⟩ := leafTimes_corrected Leaf.pumpInit_ok hrun
    hlive hclock hdecoded hadmitted r r.init.shared.table (p := p) (R := 1000) rfl rfl
  rw [hlogged] at hreading
  rw [hsync] at htimes
  exact ⟨st, os, _, _, _, ts, hrun, hdecoded, hreading, hcorrected, htimes⟩

end Microtel.Concentrator
