import Microtel.Concentrator.ReceiverRuns

/-!
What one call of `Ingest` counts, offers to the sampler and hands on, whatever
the other calls do between its steps: nothing but the refusal for a payload
that is refused, and every decoded span once for one that is taken.
-/

namespace Microtel.Concentrator.Receiver

/-! ### What a call has entered -/

/-- The part of the shared state that accounts for payloads and spans. -/
@[ext] structure Books where
  accepted : UInt64 := 0
  rejected : UInt64 := 0
  postShutdown : UInt64 := 0
  outOfMemory : UInt64 := 0
  drops : ReceiverDrop → UInt64 := fun _ => 0
  offered : List ScopedSpan := []
  handed : List ScopedSpan := []

def books (s : Shared) : Books where
  accepted := s.counters.payloadsAccepted
  rejected := s.counters.payloadsRejected
  postShutdown := s.counters.payloadsPostShutdown
  outOfMemory := s.counters.payloadsOutOfMemory
  drops := s.drops
  offered := s.offered
  handed := s.handed

namespace Books

def add (b e : Books) : Books where
  accepted := b.accepted + e.accepted
  rejected := b.rejected + e.rejected
  postShutdown := b.postShutdown + e.postShutdown
  outOfMemory := b.outOfMemory + e.outOfMemory
  drops reason := b.drops reason + e.drops reason
  offered := b.offered ++ e.offered
  handed := b.handed ++ e.handed

/-- What was entered between two states. -/
def since (b b' : Books) : Books where
  accepted := b'.accepted - b.accepted
  rejected := b'.rejected - b.rejected
  postShutdown := b'.postShutdown - b.postShutdown
  outOfMemory := b'.outOfMemory - b.outOfMemory
  drops reason := b'.drops reason - b.drops reason
  offered := b'.offered.drop b.offered.length
  handed := b'.handed.drop b.handed.length

@[simp] theorem add_empty (b : Books) : b.add {} = b := by
  ext <;> simp [add]

@[simp] theorem empty_add (b : Books) : Books.add {} b = b := by
  ext <;> simp [add]

theorem add_add (b e f : Books) : (b.add e).add f = b.add (e.add f) := by
  ext <;> simp [add, Nat.add_assoc]

@[simp] theorem since_add (b e : Books) : b.since (b.add e) = e := by
  have hcancel (x y : UInt64) : x + y - x = y := by
    rw [UInt64.add_comm, UInt64.add_sub_cancel]
  unfold since add
  simp only [hcancel, List.drop_left]

/-- The entry for a payload refused for a reason; after shutdown there is none. -/
def refused : Option ReceiverDrop → Books
  | none => { postShutdown := 1 }
  | some reason => { rejected := 1, drops := Function.update (fun _ => 0) reason 1 }

end Books

variable (r : Receiver)

/-- What the steps of one call enter in a run, in order. -/
def entered (call : Nat) (σ : State) (actions : List Action) : Books :=
  (Machine.trace r.step (fun σ a => if a.call = some call then
    (r.step σ a).map fun σ' => (books σ.shared).since (books σ'.shared) else none) σ actions).foldl
      Books.add {}

/-- The reason a refusal is counted under. -/
def refusal : IngestStatus → Option (Option ReceiverDrop)
  | .malformed => some (some .leafPayloadMalformed)
  | .tooLarge => some (some .leafPayloadTooLarge)
  | .unknownLeaf => some (some .leafUnknown)
  | .shutDown => some none
  | .accepted | .partiallyAccepted | .outOfMemory => none

/-- A span as it is offered to the sampler. -/
def offer (c : TimeCorrection) (span : ScopedSpan) : ScopedSpan := (r.prepared span.1 c, span.2)

/-- The spans of corrected ResourceSpans, in payload order. -/
def offers (taken : List (DecodedResourceSpans Resource × TimeCorrection)) : List ScopedSpan :=
  taken.flatMap fun (rs, c) => (scopedSpans rs).map (r.offer c)

def spanCount (decoded : List (DecodedResourceSpans Resource)) : Nat :=
  (decoded.flatMap scopedSpans).length

def spansOf (result : IngestResult) : Nat :=
  result.spansAccepted.toNat + result.spansSampledOut.toNat + result.spansDropped.toNat

/-! ### What one step enters -/

/-- The call has a payload and no settings yet. -/
inductive Settling (p : Payload) : Job → Prop
  | lookingUp : Settling p (.lookingUp p)
  | checkingUnknown : Settling p (.checkingUnknown p)
  | asking : Settling p (.asking p)
  | refusing : Settling p (.refusing p)
  | adopting (fresh : LeafSettings) : Settling p (.adopting p fresh)

/-- How many steps of the settings lookup may follow. -/
def lookupSteps : Job → Nat
  | .lookingUp _ => 3
  | .checkingUnknown _ => 2
  | .asking _ => 1
  | _ => 0

/-- One more span is in one of the counts. -/
def Counted (result result' : IngestResult) : Prop :=
  result' = { result with spansAccepted := result.spansAccepted + 1 } ∨
    result' = { result with spansSampledOut := result.spansSampledOut + 1 } ∨
    result' = { result with spansDropped := result.spansDropped + 1 }

/-- The steps of a call that has memory, with what each enters. -/
inductive Enters : Job → Books → Job → Prop
  | refusedAtOnce {req : IngestRequest} {received : Int} {now : TimePoint} {status : IngestStatus}
      {reason : ReceiverDrop} : refusal status = some (some reason) →
      Enters (.admitting req received now) (.refused (some reason)) (.finished { status })
  | admitted {req : IngestRequest} {received : Int} {now : TimePoint} {p : Payload} :
      r.deps.decode req.payload r.decodeLimits = .ok p.decoded →
      p.modes.length = p.decoded.length →
      Enters (.admitting req received now) {} (.lookingUp p)
  | refused {job : Job} {p : Payload} {status : IngestStatus} {reason : ReceiverDrop} :
      Settling p job → refusal status = some (some reason) →
      Enters job (.refused (some reason)) (.finished { status })
  | settling {job job' : Job} {p : Payload} : Settling p job → Settling p job' →
      lookupSteps job' < lookupSteps job → Enters job {} job'
  | identified {job : Job} {p : Payload} {settings : LeafSettings} : Settling p job →
      Enters job {} (.enqueueing p { settings, rest := p.decoded.zip p.modes })
  | took {p : Payload} {g : Progress} {rs : DecodedResourceSpans Resource} {mode : LeafTimeMode}
      {rest : List (DecodedResourceSpans Resource × LeafTimeMode)} {fellBack : Bool}
      {c : TimeCorrection} : g.rest = (rs, mode) :: rest →
      Enters (.enqueueing p g)
        { drops := Function.update (fun _ => 0) .spanAttributeLimit rs.droppedSpanAttributes }
        (.finding p { g with rest, fellBack } rs c)
  | resolving {p : Payload} {g : Progress} {rs : DecodedResourceSpans Resource} {c : TimeCorrection}
      {resolved : ResolvedLeafResource} :
      Enters (.finding p g rs c) {} (.inserting p g rs c resolved)
  | found {p : Payload} {g : Progress} {rs : DecodedResourceSpans Resource} {c : TimeCorrection}
      {resource : Option Resource} :
      Enters (.finding p g rs c) {} (.emitting p g rs c resource (scopedSpans rs))
  | inserted {p : Payload} {g : Progress} {rs : DecodedResourceSpans Resource} {c : TimeCorrection}
      {resolved : ResolvedLeafResource} {resource : Option Resource} :
      Enters (.inserting p g rs c resolved) {} (.emitting p g rs c resource (scopedSpans rs))
  | sampled {p : Payload} {g : Progress} {rs : DecodedResourceSpans Resource} {c : TimeCorrection}
      {resource : Option Resource} {span : ScopedSpan} {spans handed : List ScopedSpan}
      {result : IngestResult} : Counted g.result result →
      Enters (.emitting p g rs c resource (span :: spans)) { offered := [r.offer c span], handed }
        (.emitting p { g with result } rs c resource spans)
  | emitted {p : Payload} {g : Progress} {rs : DecodedResourceSpans Resource} {c : TimeCorrection}
      {resource : Option Resource} :
      Enters (.emitting p g rs c resource []) {} (.enqueueing p g)
  | finished {p : Payload} {g : Progress} : g.rest = [] →
      Enters (.enqueueing p g) { accepted := 1 } (.finished { g.result with
        status := if 0 < g.result.spansDropped then .partiallyAccepted else .accepted })

variable {r} {s s' : Shared} {job job' : Job} {a : Action}

theorem update_drops (drops : ReceiverDrop → UInt64) (reason : ReceiverDrop) (n : UInt64) :
    Function.update drops reason (drops reason + n) =
      fun x => drops x + Function.update (fun _ => (0 : UInt64)) reason n x := by
  funext x
  by_cases h : x = reason
  · subst h
    simp
  · simp [Function.update_of_ne h]

theorem books_recordDrop (s : Shared) (reason : ReceiverDrop) (n : UInt64) :
    books (s.recordDrop reason n) =
      (books s).add { drops := Function.update (fun _ => 0) reason n } := by
  simp [Shared.recordDrop, books, Books.add, update_drops]

theorem books_reject (s : Shared) (status : IngestStatus) (reason : ReceiverDrop) :
    books (s.reject status reason).1 = (books s).add (.refused (some reason)) := by
  simp [Shared.reject, Shared.recordDrop, books, Books.add, Books.refused, update_drops]

/-- A step that refuses enters the refusal. -/
theorem reject_enters {status : IngestStatus} {reason : ReceiverDrop} {s₀ : Shared}
    (hstep : s.reject status reason = (s', job')) (hbooks : books s = books s₀)
    (henters : r.Enters job (.refused (some reason)) (.finished { status })) :
    ∃ e, books s' = (books s₀).add e ∧ r.Enters job e job' := by
  refine ⟨.refused (some reason), ?_, ?_⟩
  · rw [← hbooks, ← books_reject s status reason, hstep]
  · obtain rfl : .finished { status } = job' := (Prod.mk.inj hstep).2
    exact henters

theorem admit_enters {req : IngestRequest} {received : Int} {now : TimePoint}
    (h : r.admitRequest s req received now = (s', job')) :
    ∃ e, books s' = (books s).add e ∧ r.Enters (.admitting req received now) e job' := by
  have hrefused : books (r.refusedBeforeDecode s req now).1 = books s := by
    unfold refusedBeforeDecode
    split
    · rfl
    · split <;> rfl
  unfold admitRequest at h
  split at h
  · exact reject_enters h rfl (.refusedAtOnce rfl)
  · split at h
    · exact reject_enters h rfl (.refusedAtOnce rfl)
    · dsimp only at h
      split at h
      · exact reject_enters h hrefused (.refusedAtOnce rfl)
      · split at h
        · exact reject_enters h hrefused (.refusedAtOnce rfl)
        · exact reject_enters h hrefused (.refusedAtOnce rfl)
        · next decoded hdecode =>
          split at h
          · exact reject_enters h hrefused (.refusedAtOnce rfl)
          · next hvalid =>
            unfold identify at h
            dsimp only at h
            split at h
            · exact reject_enters h hrefused (.refusedAtOnce rfl)
            · obtain ⟨rfl, rfl⟩ := Prod.mk.inj h
              refine ⟨{}, ?_, .admitted hdecode ?_⟩
              · rw [Books.add_empty]
                exact hrefused
              · by_contra hne
                exact hvalid (by simp [hne])

theorem identified_enters {p : Payload} {settings : LeafSettings} {s₀ : Shared}
    (h : r.identified s p settings = (s', job')) (hbooks : books s = books s₀)
    (hjob : Settling p job) :
    ∃ e, books s' = (books s₀).add e ∧ r.Enters job e job' := by
  unfold identified at h
  split at h
  · exact reject_enters h hbooks (.refused hjob rfl)
  · obtain ⟨rfl, rfl⟩ := Prod.mk.inj h
    refine ⟨{}, ?_, .identified hjob⟩
    rw [Books.add_empty]
    exact hbooks

/-- A step of the settings lookup that leaves the books alone. -/
theorem settles {p : Payload} {s₀ : Shared} (hbooks : books s = books s₀) (hjob : Settling p job)
    (hjob' : Settling p job') (hless : lookupSteps job' < lookupSteps job) :
    ∃ e, books s = (books s₀).add e ∧ r.Enters job e job' := by
  refine ⟨{}, ?_, .settling hjob hjob' hless⟩
  rw [Books.add_empty]
  exact hbooks

theorem advance_enters (h : r.advance s job = some (s', job')) :
    ∃ e, books s' = (books s).add e ∧ r.Enters job e job' := by
  cases job with
  | admitting req received now => exact admit_enters (Option.some.inj h)
  | lookingUp p =>
      have hlook := Option.some.inj h
      unfold lookUp at hlook
      dsimp only at hlook
      split at hlook
      · exact identified_enters hlook rfl .lookingUp
      · obtain ⟨rfl, rfl⟩ := Prod.mk.inj hlook
        split
        · exact settles rfl .lookingUp .checkingUnknown (by simp [lookupSteps])
        · exact settles rfl .lookingUp .asking (by simp [lookupSteps])
  | checkingUnknown p =>
      have hcheck := Option.some.inj h
      unfold checkUnknown at hcheck
      dsimp only at hcheck
      split at hcheck
      · exact reject_enters hcheck rfl (.refused .checkingUnknown rfl)
      · obtain ⟨rfl, rfl⟩ := Prod.mk.inj hcheck
        exact settles rfl .checkingUnknown .asking (by simp [lookupSteps])
  | asking p => cases h
  | refusing p => exact reject_enters (Option.some.inj h) rfl (.refused .refusing rfl)
  | adopting p fresh =>
      have hadopt := Option.some.inj h
      unfold adopt at hadopt
      dsimp only at hadopt
      split at hadopt
      · exact identified_enters hadopt rfl (.adopting fresh)
      · exact reject_enters hadopt rfl (.refused (.adopting fresh) rfl)
  | enqueueing p g =>
      have henqueue := Option.some.inj h
      unfold enqueue at henqueue
      split at henqueue
      · next hrest =>
        obtain ⟨rfl, rfl⟩ := Prod.mk.inj henqueue
        refine ⟨{ accepted := 1 }, ?_, .finished hrest⟩
        simp [books, Books.add]
      · next rs mode rest hrest =>
        obtain ⟨rfl, rfl⟩ := Prod.mk.inj henqueue
        refine ⟨_, ?_, .took hrest⟩
        exact books_recordDrop s .spanAttributeLimit rs.droppedSpanAttributes
  | finding p g rs c =>
      have hfind := Option.some.inj h
      unfold find at hfind
      dsimp only at hfind
      split at hfind
      · obtain ⟨rfl, rfl⟩ := Prod.mk.inj hfind
        exact ⟨{}, (Books.add_empty _).symm, .found⟩
      · obtain ⟨rfl, rfl⟩ := Prod.mk.inj hfind
        exact ⟨{}, (Books.add_empty _).symm, .resolving⟩
  | inserting p g rs c resolved =>
      obtain ⟨rfl, rfl⟩ := Prod.mk.inj (Option.some.inj h)
      exact ⟨{}, (Books.add_empty _).symm, .inserted⟩
  | emitting p g rs c resource spans =>
      cases spans with
      | nil =>
          obtain ⟨rfl, rfl⟩ := Prod.mk.inj (Option.some.inj h)
          exact ⟨{}, (Books.add_empty _).symm, .emitted⟩
      | cons span spans => cases h
  | finished result => cases h

theorem enqueueSpan_enters (s : Shared) (result : IngestResult) (span : ScopedSpan)
    (c : TimeCorrection) (resource : Option Resource) (sampling : SamplingResult) (queued : Bool) :
    ∃ handed, books (r.enqueueSpan s result span c resource sampling queued).1 =
        (books s).add { offered := [r.offer c span], handed } ∧
      Counted result (r.enqueueSpan s result span c resource sampling queued).2 := by
  unfold enqueueSpan
  dsimp only
  split
  · refine ⟨[], ?_, Or.inr (Or.inl rfl)⟩
    simp [books, Books.add, offer]
  · refine ⟨[(r.kept (r.prepared span.1 c) sampling resource, span.2)], ?_, ?_⟩
    · split <;> simp [books, Books.add, offer]
    · split
      · exact Or.inl rfl
      · exact Or.inr (Or.inr rfl)

/-- What a step of a call enters, where no allocation fails. -/
theorem act_enters (hmem : ∀ call, a ≠ .outOfMemory call) (h : r.act s a job = some (s', job')) :
    ∃ e, books s' = (books s).add e ∧ r.Enters job e job' := by
  cases a with
  | advance call => exact advance_enters h
  | answer call a =>
      cases job with
      | asking p =>
          simp only [act, answer] at h
          split at h
          · cases h
          · have hcases := r.answered_cases s p a
            rw [Option.some.inj h] at hcases
            have hbooks : books (r.answered s p a).1 = books s := rfl
            rw [Option.some.inj h] at hbooks
            rcases hcases with heq | heq
            · obtain rfl : job' = .refusing p := heq
              exact settles hbooks .asking .refusing Nat.zero_lt_one
            · obtain rfl : job' = .adopting p (resolveSettings r.options p.leafId a).1 := heq
              exact settles hbooks .asking (.adopting _) Nat.zero_lt_one
      | _ => cases h
  | sample call sampling queued =>
      cases job with
      | emitting p g rs c resource spans =>
          cases spans with
          | nil => cases h
          | cons span spans =>
              obtain ⟨handed, hbooks, hcounted⟩ :=
                r.enqueueSpan_enters s g.result span c resource sampling queued
              obtain ⟨rfl, rfl⟩ := Prod.mk.inj (Option.some.inj h)
              exact ⟨_, hbooks, .sampled hcounted⟩
      | _ => cases h
  | outOfMemory call => exact absurd rfl (hmem call)
  | ingest call req clock now => cases h
  | markShutDown => cases h

/-! ### What a call has entered by each stage -/

variable {req : IngestRequest} {e f : Books} {p : Payload} {result result' : IngestResult}
  {spans : List ScopedSpan}

variable (r) in
/-- A call that has offered these spans: it has counted each of them, and no
payload yet. -/
structure Sends (req : IngestRequest) (p : Payload) (e : Books) (result : IngestResult)
    (spans : List ScopedSpan) : Prop where
  decode : r.deps.decode req.payload r.decodeLimits = .ok p.decoded
  accepted : e.accepted = 0
  rejected : e.rejected = 0
  postShutdown : e.postShutdown = 0
  outOfMemory : e.outOfMemory = 0
  reasons : ∀ reason, reason ≠ .spanAttributeLimit → e.drops reason = 0
  offered : e.offered = spans
  total : result.spansAccepted + result.spansSampledOut + result.spansDropped =
    UInt32.ofNat spans.length
  exact : spans.length < 2 ^ 32 → spansOf result = spans.length

variable (r) in
/-- What a call has entered for a payload that it has taken. The counts have 32
bits, so they add up exactly below `2 ^ 32` spans. -/
structure Taken (req : IngestRequest) (e : Books) (result : IngestResult)
    (decoded : List (DecodedResourceSpans Resource)) : Prop where
  decode : r.deps.decode req.payload r.decodeLimits = .ok decoded
  status : result.status = if 0 < result.spansDropped then .partiallyAccepted else .accepted
  accepted : e.accepted = 1
  rejected : e.rejected = 0
  postShutdown : e.postShutdown = 0
  outOfMemory : e.outOfMemory = 0
  reasons : ∀ reason, reason ≠ .spanAttributeLimit → e.drops reason = 0
  offered : ∃ corrections : List TimeCorrection, corrections.length = decoded.length ∧
    e.offered = r.offers (decoded.zip corrections)
  total : result.spansAccepted + result.spansSampledOut + result.spansDropped =
    UInt32.ofNat (spanCount decoded)
  exact : spanCount decoded < 2 ^ 32 → spansOf result = spanCount decoded

variable (r) in
/-- The books of a call, by where it is. -/
inductive Booked (req : IngestRequest) (e : Books) : Job → Prop
  | admitting {received : Int} {now : TimePoint} :
      e = {} → Booked req e (.admitting req received now)
  | settling {job : Job} {p : Payload} : Settling p job → e = {} →
      r.deps.decode req.payload r.decodeLimits = .ok p.decoded →
      p.modes.length = p.decoded.length → Booked req e job
  | enqueueing {p : Payload} {g : Progress}
      {taken : List (DecodedResourceSpans Resource × TimeCorrection)} :
      r.Sends req p e g.result (r.offers taken) →
      p.decoded = taken.map Prod.fst ++ g.rest.map Prod.fst → Booked req e (.enqueueing p g)
  | finding {p : Payload} {g : Progress} {rs : DecodedResourceSpans Resource} {c : TimeCorrection}
      {taken : List (DecodedResourceSpans Resource × TimeCorrection)} :
      r.Sends req p e g.result (r.offers taken) →
      p.decoded = taken.map Prod.fst ++ rs :: g.rest.map Prod.fst → Booked req e (.finding p g rs c)
  | inserting {p : Payload} {g : Progress} {rs : DecodedResourceSpans Resource} {c : TimeCorrection}
      {resolved : ResolvedLeafResource}
      {taken : List (DecodedResourceSpans Resource × TimeCorrection)} :
      r.Sends req p e g.result (r.offers taken) →
      p.decoded = taken.map Prod.fst ++ rs :: g.rest.map Prod.fst →
      Booked req e (.inserting p g rs c resolved)
  | emitting {p : Payload} {g : Progress} {rs : DecodedResourceSpans Resource} {c : TimeCorrection}
      {resource : Option Resource} {spans : List ScopedSpan}
      {taken : List (DecodedResourceSpans Resource × TimeCorrection)} (sent : List ScopedSpan) :
      r.Sends req p e g.result (r.offers taken ++ sent.map (r.offer c)) →
      scopedSpans rs = sent ++ spans →
      p.decoded = taken.map Prod.fst ++ rs :: g.rest.map Prod.fst →
      Booked req e (.emitting p g rs c resource spans)
  | refused {status : IngestStatus} {reason : Option ReceiverDrop} : refusal status = some reason →
      e = .refused reason → Booked req e (.finished { status })
  | taken {result : IngestResult} {decoded : List (DecodedResourceSpans Resource)} :
      r.Taken req e result decoded → Booked req e (.finished result)

/-- A step that offers no span and counts no payload. -/
theorem Sends.quiet (h : r.Sends req p e result spans) {n : UInt64} :
    r.Sends req p
      (e.add { drops := Function.update (fun _ => 0) .spanAttributeLimit n }) result spans where
  decode := h.decode
  accepted := by simp [Books.add, h.accepted]
  rejected := by simp [Books.add, h.rejected]
  postShutdown := by simp [Books.add, h.postShutdown]
  outOfMemory := by simp [Books.add, h.outOfMemory]
  reasons reason hne := by simp [Books.add, h.reasons reason hne, Function.update_of_ne hne]
  offered := by simp [Books.add, h.offered]
  total := h.total
  exact := h.exact

theorem Counted.total (h : Counted result result') :
    result'.spansAccepted + result'.spansSampledOut + result'.spansDropped =
      result.spansAccepted + result.spansSampledOut + result.spansDropped + 1 := by
  rcases h with rfl | rfl | rfl <;> dsimp only <;> ac_rfl

theorem Counted.spansOf {n : Nat} (h : Counted result result') (hspans : spansOf result = n)
    (hlt : n + 1 < 2 ^ 32) : spansOf result' = n + 1 := by
  have hsucc (x : UInt32) (hx : x.toNat ≤ n) : (x + 1).toNat = x.toNat + 1 := by
    rw [UInt32.toNat_add, Nat.mod_eq_of_lt]
    · rfl
    · exact Nat.lt_of_le_of_lt (Nat.succ_le_succ hx) hlt
  unfold Receiver.spansOf at hspans ⊢
  rcases h with rfl | rfl | rfl
  · have := hsucc result.spansAccepted (by omega)
    dsimp only
    omega
  · have := hsucc result.spansSampledOut (by omega)
    dsimp only
    omega
  · have := hsucc result.spansDropped (by omega)
    dsimp only
    omega

/-- One span is offered, and counted. -/
theorem Sends.sampled (h : r.Sends req p e result spans) (hcounted : Counted result result')
    (span : ScopedSpan) (handed : List ScopedSpan) :
    r.Sends req p (e.add { offered := [span], handed }) result' (spans ++ [span]) where
  decode := h.decode
  accepted := by simp [Books.add, h.accepted]
  rejected := by simp [Books.add, h.rejected]
  postShutdown := by simp [Books.add, h.postShutdown]
  outOfMemory := by simp [Books.add, h.outOfMemory]
  reasons reason hne := by simp [Books.add, h.reasons reason hne]
  offered := by simp [Books.add, h.offered]
  total := by
    rw [hcounted.total, h.total]
    simp
  exact hlt := by
    rw [List.length_append, List.length_singleton] at hlt ⊢
    exact hcounted.spansOf (h.exact (by omega)) hlt

theorem offers_length (taken : List (DecodedResourceSpans Resource × TimeCorrection)) :
    (r.offers taken).length = spanCount (taken.map Prod.fst) := by
  unfold offers spanCount
  simp [List.length_flatMap, Function.comp_def]

theorem Sends.taken {taken : List (DecodedResourceSpans Resource × TimeCorrection)}
    (h : r.Sends req p e result (r.offers taken)) (hall : p.decoded = taken.map Prod.fst) :
    r.Taken req (e.add { accepted := 1 }) { result with
      status := if 0 < result.spansDropped then .partiallyAccepted else .accepted } p.decoded where
  decode := h.decode
  status := rfl
  accepted := by simp [Books.add, h.accepted]
  rejected := by simp [Books.add, h.rejected]
  postShutdown := by simp [Books.add, h.postShutdown]
  outOfMemory := by simp [Books.add, h.outOfMemory]
  reasons reason hne := by simp [Books.add, h.reasons reason hne]
  offered := by
    refine ⟨taken.map Prod.snd, by simp [hall], ?_⟩
    rw [hall, List.zip_map', List.map_id']
    simp [Books.add, h.offered]
  total := by
    rw [hall, ← offers_length (r := r)]
    exact h.total
  exact := by
    rw [hall, ← offers_length (r := r)]
    exact h.exact

theorem Booked.of_settling (h : r.Booked req e job) (hjob : Settling p job) :
    e = {} ∧ r.deps.decode req.payload r.decodeLimits = .ok p.decoded ∧
      p.modes.length = p.decoded.length := by
  cases hjob with
  | _ =>
      cases h with
      | settling hjob' he hdecode hmodes =>
          cases hjob' with
          | _ => exact ⟨he, hdecode, hmodes⟩

/-- Step lemma: the books of a call after one of its steps. -/
theorem Booked.enters (h : r.Booked req e job) (hstep : r.Enters job f job') :
    r.Booked req (e.add f) job' := by
  cases hstep with
  | refusedAtOnce hstatus =>
      cases h with
      | admitting he =>
          subst he
          exact .refused hstatus (Books.empty_add _)
      | settling hjob => cases hjob
  | admitted hdecode hmodes =>
      cases h with
      | admitting he =>
          subst he
          exact .settling .lookingUp (Books.empty_add _) hdecode hmodes
      | settling hjob => cases hjob
  | refused hjob hstatus =>
      obtain ⟨rfl, -, -⟩ := h.of_settling hjob
      exact .refused hstatus (Books.empty_add _)
  | settling hjob hjob' _ =>
      obtain ⟨rfl, hdecode, hmodes⟩ := h.of_settling hjob
      exact .settling hjob' (Books.empty_add _) hdecode hmodes
  | @identified _ p settings hjob =>
      obtain ⟨rfl, hdecode, hmodes⟩ := h.of_settling hjob
      rw [Books.empty_add]
      have hsends : r.Sends req p {} { status := .accepted } (r.offers []) :=
        ⟨hdecode, rfl, rfl, rfl, rfl, fun _ _ => rfl, rfl, rfl, fun _ => rfl⟩
      refine .enqueueing hsends ?_
      rw [List.map_fst_zip (by omega)]
      rfl
  | took hrest =>
      cases h with
      | settling hjob => cases hjob
      | enqueueing hsends hall =>
          rw [hrest] at hall
          exact .finding hsends.quiet hall
  | resolving =>
      cases h with
      | settling hjob => cases hjob
      | finding hsends hall =>
          rw [Books.add_empty]
          exact .inserting hsends hall
  | @found p g rs c resource =>
      cases h with
      | settling hjob => cases hjob
      | @finding _ _ _ _ taken hsends hall =>
          rw [Books.add_empty]
          refine .emitting [] ?_ rfl hall
          simpa using hsends
  | @inserted p g rs c resolved resource =>
      cases h with
      | settling hjob => cases hjob
      | inserting hsends hall =>
          rw [Books.add_empty]
          refine .emitting [] ?_ rfl hall
          simpa using hsends
  | @sampled p g rs c resource span spans handed result hcounted =>
      cases h with
      | settling hjob => cases hjob
      | emitting sent hsends hspans hall =>
          have hnext := hsends.sampled hcounted (r.offer c span) handed
          refine .emitting (sent ++ [span]) ?_ (by simpa using hspans) hall
          simpa using hnext
  | @emitted p g rs c resource =>
      cases h with
      | settling hjob => cases hjob
      | @emitting _ _ _ _ _ _ taken sent hsends hspans hall =>
          rw [Books.add_empty]
          rw [List.append_nil] at hspans
          have hoffers : r.offers (taken ++ [(rs, c)]) =
              r.offers taken ++ sent.map (r.offer c) := by
            simp [offers, hspans]
          rw [← hoffers] at hsends
          exact .enqueueing hsends (by simpa using hall)
  | finished hrest =>
      cases h with
      | settling hjob => cases hjob
      | enqueueing hsends hall =>
          rw [hrest, List.map_nil, List.append_nil] at hall
          exact .taken (hsends.taken hall)

/-! ### What a run enters -/

variable {σ σ₀ σ' : State} {call : Nat} {actions : List Action}

theorem foldl_add (b : Books) (es : List Books) :
    es.foldl Books.add b = b.add (es.foldl Books.add {}) := by
  induction es generalizing b with
  | nil => exact b.add_empty.symm
  | cons e es ih =>
      rw [List.foldl_cons, List.foldl_cons, ih, ih (Books.add {} e), Books.empty_add, Books.add_add]

theorem entered_own (h : r.step σ a = some σ') (hcall : a.call = some call) :
    r.entered call σ (a :: actions) =
      ((books σ.shared).since (books σ'.shared)).add (r.entered call σ' actions) := by
  unfold entered
  rw [Machine.trace, h]
  simp only [if_pos hcall, Option.map_some, Option.toList_some, List.singleton_append,
    List.foldl_cons, Books.empty_add]
  exact foldl_add _ _

theorem entered_other (h : r.step σ a = some σ') (hcall : a.call ≠ some call) :
    r.entered call σ (a :: actions) = r.entered call σ' actions := by
  unfold entered
  rw [Machine.trace, h]
  simp only [if_neg hcall, Option.toList_none, List.nil_append]

theorem begin_books (s : Shared) (req : IngestRequest) (clock : Int) (now : TimePoint) :
    ∃ e, books (begin s req clock now).1 = (books s).add e ∧
      r.Booked req e (begin s req clock now).2 := by
  unfold begin
  split
  · refine ⟨.refused none, ?_, .refused rfl rfl⟩
    simp [books, Books.add, Books.refused]
  · exact ⟨{}, (Books.add_empty _).symm, .admitting rfl⟩

/-- What a step of the call itself enters. -/
theorem step_enters {job : Job} (h : r.step σ a = some σ') (hcall : a.call = some call)
    (hmem : a ≠ .outOfMemory call) (hjob : σ.jobs call = some job) :
    ∃ e job', books σ'.shared = (books σ.shared).add e ∧ σ'.jobs call = some job' ∧
      r.Enters job e job' := by
  cases step_spec h with
  | begun hfresh =>
      obtain rfl := Option.some.inj hcall
      rw [hfresh] at hjob
      cases hjob
  | @acted _ call' job' next hcall' hjob' hact =>
      obtain rfl := Option.some.inj (hcall'.symm.trans hcall)
      obtain rfl := Option.some.inj (hjob'.symm.trans hjob)
      have hmem' : ∀ call, a ≠ .outOfMemory call := by
        rintro call'' rfl
        cases hcall
        exact hmem rfl
      obtain ⟨e, hbooks, henters⟩ := act_enters hmem' hact
      exact ⟨e, next.2, hbooks, State.put_self .., henters⟩
  | shut => cases hcall

/-! ### A call returns -/

/-- The steps `Enqueue` takes for these ResourceSpans. -/
def enqueueSteps (decoded : List (DecodedResourceSpans Resource)) : Nat :=
  (decoded.map fun rs => (scopedSpans rs).length + 4).sum

variable (r) in
/-- A bound on the steps a call still takes. -/
def stepsLeft : Job → Nat
  | .admitting req _ _ =>
      match r.deps.decode req.payload r.decodeLimits with
      | .ok decoded => enqueueSteps decoded + 6
      | .error _ => 1
  | .enqueueing _ g => enqueueSteps (g.rest.map Prod.fst) + 1
  | .finding _ g rs _ => enqueueSteps (g.rest.map Prod.fst) + (scopedSpans rs).length + 4
  | .inserting _ g rs _ _ => enqueueSteps (g.rest.map Prod.fst) + (scopedSpans rs).length + 3
  | .emitting _ g _ _ _ spans => enqueueSteps (g.rest.map Prod.fst) + spans.length + 2
  | .finished _ => 0
  | job@(.lookingUp p) | job@(.checkingUnknown p) | job@(.asking p) | job@(.refusing p)
  | job@(.adopting p _) => enqueueSteps p.decoded + lookupSteps job + 2

theorem Settling.stepsLeft (h : Settling p job) :
    r.stepsLeft job = enqueueSteps p.decoded + lookupSteps job + 2 := by
  cases h with
  | _ => rfl

theorem enqueueSteps_zip (decoded : List (DecodedResourceSpans Resource))
    (modes : List LeafTimeMode) :
    enqueueSteps ((decoded.zip modes).map Prod.fst) ≤ enqueueSteps decoded := by
  induction decoded generalizing modes with
  | nil => exact Nat.le_refl _
  | cons rs decoded ih =>
      cases modes with
      | nil => exact Nat.zero_le _
      | cons mode modes =>
          have hrest := ih modes
          unfold enqueueSteps at hrest ⊢
          simp only [List.zip_cons_cons, List.map_cons, List.sum_cons]
          omega

theorem Enters.stepsLeft (h : r.Enters job e job') : r.stepsLeft job' < r.stepsLeft job := by
  cases h with
  | refusedAtOnce =>
      unfold Receiver.stepsLeft
      dsimp only
      split <;> omega
  | admitted hdecode hmodes =>
      simp only [Receiver.stepsLeft, hdecode, lookupSteps]
      omega
  | refused hjob =>
      rw [hjob.stepsLeft]
      exact Nat.succ_pos _
  | settling hjob hjob' hless =>
      rw [hjob.stepsLeft, hjob'.stepsLeft]
      omega
  | @identified _ p settings hjob =>
      rw [hjob.stepsLeft]
      have hzip := enqueueSteps_zip p.decoded p.modes
      unfold Receiver.stepsLeft
      dsimp only
      omega
  | took hrest =>
      simp only [Receiver.stepsLeft, hrest, enqueueSteps, List.map_cons, List.sum_cons]
      omega
  | resolving => exact Nat.lt_succ_self _
  | found =>
      unfold Receiver.stepsLeft
      dsimp only
      omega
  | inserted =>
      unfold Receiver.stepsLeft
      dsimp only
      omega
  | sampled =>
      unfold Receiver.stepsLeft
      simp only [List.length_cons]
      omega
  | emitted =>
      unfold Receiver.stepsLeft
      simp
  | finished hrest => exact Nat.succ_pos _

/-- A call that has not finished can take a step. -/
theorem unfinished_enabled (hjob : σ.jobs call = some job) (h : ∀ result, job ≠ .finished result) :
    ∃ a σ', a.call = some call ∧ a ≠ .outOfMemory call ∧ r.step σ a = some σ' := by
  suffices hact : ∃ a, a.call = some call ∧ a ≠ .outOfMemory call ∧ (r.act σ.shared a job).isSome by
    obtain ⟨a, hcall, hne, hsome⟩ := hact
    obtain ⟨next, hnext⟩ := Option.isSome_iff_exists.mp hsome
    exact ⟨a, _, hcall, hne, step_acted hcall hjob hnext⟩
  cases job with
  | asking p => exact ⟨.answer call none, rfl, by simp, by simp [act, answer]⟩
  | emitting p g rs c resource spans =>
      cases spans with
      | nil => exact ⟨.advance call, rfl, by simp, rfl⟩
      | cons span spans => exact ⟨.sample call ⟨.drop, [], none⟩ false, rfl, by simp, rfl⟩
  | finished result => exact absurd rfl (h result)
  | _ => exact ⟨.advance call, rfl, by simp, rfl⟩

/-- The steps a call takes in a run are bounded by what it began with. -/
theorem steps_bounded (hjob : σ.jobs call = some job) (hmem : .outOfMemory call ∉ actions)
    (hrun : Machine.run r.step σ actions = some σ') :
    actions.countP (fun a => a.call = some call) ≤ r.stepsLeft job := by
  induction actions generalizing σ job with
  | nil => exact Nat.zero_le _
  | cons a actions ih =>
      rw [Machine.run_cons, Option.bind_eq_some_iff] at hrun
      obtain ⟨σ₁, hstep, hrest⟩ := hrun
      have hne : a ≠ .outOfMemory call := fun heq => hmem (by simp [heq])
      have hmem' : .outOfMemory call ∉ actions := fun hin => hmem (List.mem_cons_of_mem _ hin)
      rw [List.countP_cons]
      by_cases hcall : a.call = some call
      · obtain ⟨f, job', -, hjob', henters⟩ := step_enters hstep hcall hne hjob
        have hless := henters.stepsLeft
        have hle := ih hjob' hmem' hrest
        simp only [hcall, decide_true, if_true]
        omega
      · simp only [hcall, decide_false, Bool.false_eq_true, if_false, Nat.add_zero]
        exact ih ((step_other hstep hcall).trans hjob) hmem' hrest

/-! ### Every run -/

/-- Run lemma: the books of a call at the end of a run. -/
theorem Booked.run (h : r.Booked req e job) (hjob : σ.jobs call = some job)
    (hmem : .outOfMemory call ∉ actions) (hrun : Machine.run r.step σ actions = some σ') :
    ∃ job', σ'.jobs call = some job' ∧ r.Booked req (e.add (r.entered call σ actions)) job' := by
  induction actions generalizing σ e job with
  | nil =>
      cases hrun
      refine ⟨job, hjob, ?_⟩
      have hnothing : r.entered call σ' [] = {} := rfl
      rw [hnothing, Books.add_empty]
      exact h
  | cons a actions ih =>
      rw [Machine.run_cons, Option.bind_eq_some_iff] at hrun
      obtain ⟨σ₁, hstep, hrest⟩ := hrun
      have hne : a ≠ .outOfMemory call := fun heq => hmem (by simp [heq])
      have hmem' : .outOfMemory call ∉ actions := fun hin => hmem (List.mem_cons_of_mem _ hin)
      by_cases hcall : a.call = some call
      · obtain ⟨f, job', hbooks, hjob', henters⟩ := step_enters hstep hcall hne hjob
        rw [entered_own hstep hcall, hbooks, Books.since_add, ← Books.add_add]
        exact ih (h.enters henters) hjob' hmem' hrest
      · rw [entered_other hstep hcall]
        exact ih h ((step_other hstep hcall).trans hjob) hmem' hrest

/-- The books after a run in which only one call acts. -/
theorem books_alone (hjob : σ.jobs call ≠ none) (hmem : .outOfMemory call ∉ actions)
    (halone : ∀ a ∈ actions, a.call = some call) (hrun : Machine.run r.step σ actions = some σ') :
    books σ'.shared = (books σ.shared).add (r.entered call σ actions) := by
  induction actions generalizing σ with
  | nil =>
      cases hrun
      exact (Books.add_empty _).symm
  | cons a actions ih =>
      rw [Machine.run_cons, Option.bind_eq_some_iff] at hrun
      obtain ⟨σ₁, hstep, hrest⟩ := hrun
      obtain ⟨job, hjob⟩ := Option.ne_none_iff_exists'.mp hjob
      have hcall := halone a (by simp)
      have hne : a ≠ .outOfMemory call := fun heq => hmem (by simp [heq])
      obtain ⟨f, job', hbooks, hjob', -⟩ := step_enters hstep hcall hne hjob
      have hnext : σ₁.jobs call ≠ none := by simp [hjob']
      rw [ih hnext (fun hin => hmem (List.mem_cons_of_mem _ hin))
        (fun b hb => halone b (List.mem_cons_of_mem _ hb)) hrest, entered_own hstep hcall, hbooks,
        Books.since_add, Books.add_add]

/-- Ingest is all or nothing, and its accounting balances. From any state of the
receiver and whatever the other calls do in between, a call that has finished
has entered its refusal and nothing else, or its acceptance and every decoded
span once, in payload order; alone, that is by how much the books have risen. -/
theorem ingest_accounts (r : Receiver) (σ₀ σ : State) (call : Nat) (req : IngestRequest)
    (clock : Int) (now : TimePoint) (actions : List Action) (result : IngestResult)
    (hrun : Machine.run r.step σ₀ (.ingest call req clock now :: actions) = some σ)
    (hmem : .outOfMemory call ∉ actions) (hdone : σ.jobs call = some (.finished result)) :
    (match refusal result.status with
      | some reason => result = { status := result.status } ∧
          r.entered call σ₀ (.ingest call req clock now :: actions) = .refused reason
      | none => ∃ decoded,
          r.Taken req (r.entered call σ₀ (.ingest call req clock now :: actions)) result decoded) ∧
      ((∀ a ∈ actions, a.call = some call) → books σ.shared =
        (books σ₀.shared).add (r.entered call σ₀ (.ingest call req clock now :: actions))) := by
  rw [Machine.run_cons, Option.bind_eq_some_iff] at hrun
  obtain ⟨σ₁, hstep, hrest⟩ := hrun
  obtain ⟨e, hbooks, hbooked⟩ := begin_books (r := r) σ₀.shared req clock now
  obtain ⟨hshared, hjob⟩ : σ₁.shared = (begin σ₀.shared req clock now).1 ∧
      σ₁.jobs call = some (begin σ₀.shared req clock now).2 := by
    cases step_spec hstep with
    | begun hfresh => exact ⟨rfl, State.put_self ..⟩
    | acted _ _ hact => cases hact
  rw [entered_own hstep rfl, hshared, hbooks, Books.since_add]
  constructor
  · obtain ⟨job, hend, hfinal⟩ := hbooked.run hjob hmem hrest
    rw [hdone] at hend
    obtain rfl := Option.some.inj hend
    cases hfinal with
    | settling hsettling => cases hsettling
    | refused hstatus he =>
        dsimp only
        rw [hstatus]
        exact ⟨rfl, he⟩
    | taken htaken =>
        have hstatus : refusal result.status = none := by
          rw [htaken.status]
          split <;> rfl
        rw [hstatus]
        exact ⟨_, htaken⟩
  · intro halone
    rw [books_alone (by simp [hjob]) hmem halone hrest, hshared, hbooks, Books.add_add]

/-- A full node whose payloads all decode to these two spans. -/
def twoSpans : Receiver where
  options := { defaultTimeMode := some .unix }
  deps :=
    { decode := fun _ _ =>
      .ok [{ resource := [], scopes := [⟨⟨[], []⟩, [nodeSpan 1, nodeSpan 2]⟩] }]
      applySpanLimits := id
      appendAttributes := List.append
      batchProcessor := true }
where
  nodeSpan (id : UInt8) : SpanRecord Resource :=
    { context := { traceId := ⟨Vector.replicate 16 id⟩, spanId := ⟨Vector.replicate 8 id⟩ } }

/-- The processor queues the first span and refuses the second. -/
def oneDropped : List Action :=
  [.advance 0, .advance 0, .answer 0 none, .advance 0, .advance 0, .advance 0, .advance 0,
    .sample 0 { decision := .recordAndSample } true,
    .sample 0 { decision := .recordAndSample } false, .advance 0, .advance 0]

theorem ingest_accounts_oneDropped :
    ∃ σ result, Machine.run twoSpans.step twoSpans.init
        (.ingest 0 { leafId := ascii "n", payload := [] } 0 0 :: oneDropped) = some σ ∧
      σ.jobs 0 = some (.finished result) ∧ result.status = .partiallyAccepted ∧
      (books σ.shared).accepted = 1 ∧ spansOf result = 2 := by
  obtain ⟨σ, result, hrun, hdone, hstatus⟩ : ∃ σ result, Machine.run twoSpans.step twoSpans.init
      (.ingest 0 { leafId := ascii "n", payload := [] } 0 0 :: oneDropped) = some σ ∧
      σ.jobs 0 = some (.finished result) ∧ result.status = .partiallyAccepted :=
    ⟨_, _, rfl, rfl, rfl⟩
  obtain ⟨hcase, hbooks⟩ := ingest_accounts twoSpans twoSpans.init σ 0
    { leafId := ascii "n", payload := [] } 0 0 oneDropped result hrun (by simp [oneDropped]) hdone
  rw [hstatus] at hcase
  obtain ⟨decoded, htaken⟩ := hcase
  cases htaken.decode
  refine ⟨σ, result, hrun, hdone, hstatus, ?_, htaken.exact (by decide)⟩
  have hrisen := congrArg Books.accepted (hbooks (by decide))
  rw [hrisen]
  exact congrArg (0 + ·) htaken.accepted

end Microtel.Concentrator.Receiver
