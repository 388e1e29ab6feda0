import Microtel.Pipeline.ProcessorRuns

/-!
What one `Enqueue` of `BatchSpanProcessor` costs the queue. `MakeRoomFor` finds out
that no eviction can help only when nothing is left to evict, so a record that
does not fit an empty queue takes every queued record with it.
-/

namespace Microtel.Pipeline.Processor

variable {ρ : Type}

/-- A record of the size fits behind the queue, under both limits. -/
def HasRoom (opts : BatchOptions) (maxTotalQueueBytes recordBytes : Nat)
    (queue : List (QueuedSpan ρ)) : Prop :=
  queue.length < opts.maxQueueSize ∧ totalBytes queue + recordBytes ≤ maxTotalQueueBytes

section MakeRoom

variable {opts : BatchOptions} {maxTotal recordBytes : Nat}

theorem hasRoom_cons {front : QueuedSpan ρ} {rest : List (QueuedSpan ρ)}
    (h : HasRoom opts maxTotal recordBytes (front :: rest)) :
    HasRoom opts maxTotal recordBytes rest := by
  obtain ⟨hlen, hbytes⟩ := h
  rw [List.length_cons] at hlen
  rw [totalBytes_cons] at hbytes
  exact ⟨by omega, by omega⟩

theorem hasRoom_nil_of {queue : List (QueuedSpan ρ)} (h : HasRoom opts maxTotal recordBytes queue) :
    HasRoom opts maxTotal recordBytes ([] : List (QueuedSpan ρ)) := by
  induction queue with
  | nil => exact h
  | cons front rest ih => exact ih (hasRoom_cons h)

/-- The loop test of `MakeRoomFor`. -/
theorem loopTest_iff {queue : List (QueuedSpan ρ)} {queueBytes : Int}
    (hbytes : queueBytes = totalBytes queue) :
    (opts.maxQueueSize ≤ queue.length ∨ (maxTotal : Int) < queueBytes + recordBytes) ↔
      ¬ HasRoom opts maxTotal recordBytes queue := by
  subst hbytes
  unfold HasRoom
  omega

variable (opts maxTotal recordBytes) in
/-- The loop stops at the first suffix with room, or with an empty queue. -/
theorem makeRoomFor_shortest (queue : List (QueuedSpan ρ)) (queueBytes : Int)
    (drops : DropReason → Nat) (hbytes : queueBytes = totalBytes queue) :
    let room := makeRoomFor opts maxTotal recordBytes queue queueBytes drops
    (∀ j < room.evicted.length, ¬ HasRoom opts maxTotal recordBytes (queue.drop j)) ∧
      (room.fits = true ↔ HasRoom opts maxTotal recordBytes room.queue) ∧
      (room.fits = false → opts.dropPolicy = .dropOldest → room.queue = []) ∧
      (opts.dropPolicy ≠ .dropOldest → room.evicted = []) := by
  induction queue generalizing queueBytes drops with
  | nil =>
      unfold makeRoomFor
      split
      · next hfull =>
        have hnone := (loopTest_iff hbytes).mp hfull
        split
        · exact ⟨by simp, by simp [hnone], fun _ _ => rfl, fun _ => rfl⟩
        · exact ⟨by simp, by simp [hnone], fun _ _ => rfl, fun _ => rfl⟩
      · next hroom =>
        have hfits := not_not.mp (hroom ∘ (loopTest_iff hbytes).mpr)
        exact ⟨by simp, by simp [hfits], by simp, fun _ => rfl⟩
  | cons front rest ih =>
      unfold makeRoomFor
      split
      · next hfull =>
        have hnone := (loopTest_iff hbytes).mp hfull
        split
        · next hnewest =>
            exact ⟨by simp, by simp [hnone], fun _ h => absurd h hnewest, fun _ => rfl⟩
        · next holdest =>
          have hrest : queueBytes - front.bytes = totalBytes rest := by
            rw [hbytes, totalBytes_cons]
            push_cast
            ring
          obtain ⟨hshortest, hfits, hempty, -⟩ :=
            ih (queueBytes - front.bytes) (recordDropped drops .queueFull) hrest
          refine ⟨?_, hfits, hempty, fun h => absurd h holdest⟩
          intro j hj
          cases j with
          | zero => exact hnone
          | succ j => exact hshortest j (by simpa using hj)
      · next hroom =>
        have hfits := not_not.mp (hroom ∘ (loopTest_iff hbytes).mpr)
        exact ⟨by simp, by simp [hfits], by simp, fun _ => rfl⟩

end MakeRoom

/-! ### What an Enqueue may cost -/

/-- The queue and its byte count as they were, and one drop counted. -/
structure Spared (p p' : Processor ρ) : Prop where
  queue : p'.queue = p.queue
  queueBytes : p'.queueBytes = p.queueBytes
  counted : ∃ reason, p'.drops = recordDropped p.drops reason

/-- The record goes behind the first suffix of the queue with room for it. -/
structure Admitted (p p' : Processor ρ) (record : SpanRecord ρ) (scope : InstrumentationScope)
    (evicted : Nat) : Prop where
  queue : p'.queue =
    p.queue.drop evicted ++
      [{ record := record, scope := scope, bytes := estimateRecordBytes record }]
  queueBytes : p'.queueBytes = totalBytes p'.queue
  room : HasRoom p.opts p.maxTotalQueueBytes (estimateRecordBytes record) (p.queue.drop evicted)
  shortest : ∀ j < evicted,
    ¬ HasRoom p.opts p.maxTotalQueueBytes (estimateRecordBytes record) (p.queue.drop j)
  counted : p'.drops = recordDropped p.drops .queueFull evicted
  newest : p.opts.dropPolicy = .dropNewest → evicted = 0

/-- A refusal costs the refused record alone, an admission what it has to. -/
def CostsItsOwn (p : Processor ρ) (record : SpanRecord ρ) (scope : InstrumentationScope) : Prop :=
  ((p.enqueue record scope).2 = false → Spared p (p.enqueue record scope).1) ∧
    ((p.enqueue record scope).2 = true →
      ∃ evicted ≤ p.queue.length, Admitted p (p.enqueue record scope).1 record scope evicted)

/-- The record gets to `MakeRoomFor`. -/
def Measured (p : Processor ρ) (record : SpanRecord ρ) : Prop :=
  p.shutdown = false ∧ estimateRecordBytes record ≤ p.maxRecordBytes

section Enqueue

variable {p : Processor ρ} {record : SpanRecord ρ} (scope : InstrumentationScope)

theorem enqueue_unmeasured (h : ¬ Measured p record) : CostsItsOwn p record scope := by
  unfold CostsItsOwn enqueue
  dsimp only
  split
  · exact ⟨fun _ => ⟨rfl, rfl, _, rfl⟩, by simp⟩
  · next hup =>
    split
    · exact ⟨fun _ => ⟨rfl, rfl, _, rfl⟩, by simp⟩
    · next hsmall => exact absurd ⟨by simpa using hup, by omega⟩ h

/-- Past the tests the record's fate is that of `MakeRoomFor`. -/
theorem enqueue_measured (h : Measured p record) :
    let room := makeRoomFor p.opts p.maxTotalQueueBytes (estimateRecordBytes record) p.queue
      p.queueBytes p.drops
    (p.enqueue record scope).2 = room.fits ∧ (p.enqueue record scope).1.drops = room.drops ∧
      (p.enqueue record scope).1.queue = room.queue ++ (if room.fits then
        [{ record := record, scope := scope, bytes := estimateRecordBytes record }] else []) ∧
      (p.enqueue record scope).1.queueBytes =
        room.queueBytes + if room.fits then (estimateRecordBytes record : Int) else 0 := by
  unfold enqueue
  dsimp only
  rw [if_neg (by simp [h.1]), if_neg (Nat.not_lt.mpr h.2)]
  split
  · next hfits => simp [hfits]
  · next hfits => simp [hfits, refuse]

theorem recordDropped_spec {drops drops' : DropReason → Nat} {n : Nat}
    (h : ∀ reason, drops' reason = drops reason + if reason = .queueFull then n else 0) :
    drops' = recordDropped drops .queueFull n := by
  funext reason
  rw [h, recordDropped_apply]

theorem admitted_of_fits (h : Measured p record) (hbytes : p.queueBytes = totalBytes p.queue)
    (htrue : (p.enqueue record scope).2 = true) :
    ∃ evicted ≤ p.queue.length, Admitted p (p.enqueue record scope).1 record scope evicted := by
  obtain ⟨hfate, hdrops, hqueue, htotal⟩ := enqueue_measured scope h
  obtain ⟨hsplit, hleft, hcounts, -⟩ := makeRoomFor_spec p.opts p.maxTotalQueueBytes
    (estimateRecordBytes record) p.queue p.queueBytes p.drops hbytes
  obtain ⟨hshortest, hroom, -, hnewest⟩ := makeRoomFor_shortest p.opts p.maxTotalQueueBytes
    (estimateRecordBytes record) p.queue p.queueBytes p.drops hbytes
  generalize makeRoomFor p.opts p.maxTotalQueueBytes (estimateRecordBytes record) p.queue
    p.queueBytes p.drops =
      room at hfate hdrops hqueue htotal hsplit hleft hcounts hshortest hroom hnewest
  have hfits : room.fits = true := hfate.symm.trans htrue
  have hdrop : room.queue = p.queue.drop room.evicted.length := by
    rw [hsplit, List.drop_left]
  rw [if_pos hfits] at hqueue htotal
  refine ⟨room.evicted.length, ?_, ?_, ?_, ?_, hshortest, ?_, ?_⟩
  · rw [hsplit, List.length_append]
    omega
  · rw [hqueue, hdrop]
  · rw [htotal, hqueue, totalBytes_append, hleft]
    simp [totalBytes]
  · rw [← hdrop]
    exact hroom.mp hfits
  · rw [hdrops]
    apply recordDropped_spec
    intro reason
    rw [hcounts, hfits]
    rfl
  · intro hpolicy
    rw [hnewest (by rw [hpolicy]; decide)]
    rfl

/-- A refusal under `DropOldest` has emptied the queue, for a record that an empty
queue has no room for. -/
theorem emptied_of_refusal (h : Measured p record) (hbytes : p.queueBytes = totalBytes p.queue)
    (hfalse : (p.enqueue record scope).2 = false) (hpolicy : p.opts.dropPolicy = .dropOldest) :
    (p.enqueue record scope).1.queue = [] ∧
      ¬ HasRoom p.opts p.maxTotalQueueBytes (estimateRecordBytes record)
        ([] : List (QueuedSpan ρ)) := by
  obtain ⟨hfate, -, hqueue, -⟩ := enqueue_measured scope h
  obtain ⟨-, hroom, hempty, -⟩ := makeRoomFor_shortest p.opts p.maxTotalQueueBytes
    (estimateRecordBytes record) p.queue p.queueBytes p.drops hbytes
  generalize makeRoomFor p.opts p.maxTotalQueueBytes (estimateRecordBytes record) p.queue
    p.queueBytes p.drops = room at hfate hqueue hroom hempty
  have hfull : room.fits = false := hfate.symm.trans hfalse
  have hnil := hempty hfull hpolicy
  rw [hfull, hnil] at hqueue hroom
  exact ⟨hqueue, fun hfits => Bool.false_ne_true (hroom.mpr hfits)⟩

/-- A refusal that evicts nothing. -/
theorem spared_of_refusal (h : Measured p record) (hbytes : p.queueBytes = totalBytes p.queue)
    (hfalse : (p.enqueue record scope).2 = false)
    (hnone : p.opts.dropPolicy = .dropNewest ∨ p.queue = []) :
    Spared p (p.enqueue record scope).1 := by
  obtain ⟨hfate, hdrops, hqueue, htotal⟩ := enqueue_measured scope h
  obtain ⟨hsplit, hleft, hcounts, -⟩ := makeRoomFor_spec p.opts p.maxTotalQueueBytes
    (estimateRecordBytes record) p.queue p.queueBytes p.drops hbytes
  obtain ⟨-, -, -, hnewest⟩ := makeRoomFor_shortest p.opts p.maxTotalQueueBytes
    (estimateRecordBytes record) p.queue p.queueBytes p.drops hbytes
  generalize makeRoomFor p.opts p.maxTotalQueueBytes (estimateRecordBytes record) p.queue
    p.queueBytes p.drops = room at hfate hdrops hqueue htotal hsplit hleft hcounts hnewest
  have hfull : room.fits = false := hfate.symm.trans hfalse
  have hkept : room.evicted = [] := by
    rcases hnone with hpolicy | hnil
    · exact hnewest (by rw [hpolicy]; decide)
    · rw [hnil] at hsplit
      exact (List.append_eq_nil_iff.mp hsplit.symm).1
  rw [hkept, List.nil_append] at hsplit
  rw [hfull] at hqueue htotal
  refine ⟨?_, ?_, .queueFull, ?_⟩
  · rw [hqueue, hsplit]
    simp
  · rw [htotal, hleft, hbytes, hsplit]
    simp
  · rw [hdrops]
    apply recordDropped_spec
    intro reason
    rw [hcounts, hfull, hkept]
    rfl

end Enqueue

/-- An `Enqueue` costs what it should unless it evicts, under `DropOldest`, for a
record that even an empty queue has no room for. -/
theorem costsItsOwn_iff (p : Processor ρ) (record : SpanRecord ρ) (scope : InstrumentationScope)
    (hbytes : p.queueBytes = totalBytes p.queue) :
    CostsItsOwn p record scope ↔
      p.shutdown = true ∨ p.maxRecordBytes < estimateRecordBytes record ∨
        p.opts.dropPolicy = .dropNewest ∨ p.queue = [] ∨
        0 < p.opts.maxQueueSize ∧ estimateRecordBytes record ≤ p.maxTotalQueueBytes := by
  have hempty : HasRoom p.opts p.maxTotalQueueBytes (estimateRecordBytes record)
      ([] : List (QueuedSpan ρ)) ↔
      0 < p.opts.maxQueueSize ∧ estimateRecordBytes record ≤ p.maxTotalQueueBytes := by
    simp [HasRoom, totalBytes]
  rw [← hempty]
  by_cases hmeasured : Measured p record
  · have hup : ¬ p.shutdown = true := by simp [hmeasured.1]
    have hsmall : ¬ p.maxRecordBytes < estimateRecordBytes record := Nat.not_lt.mpr hmeasured.2
    have hpolicy : p.opts.dropPolicy ≠ .dropNewest → p.opts.dropPolicy = .dropOldest := by
      cases p.opts.dropPolicy <;> simp
    rw [or_iff_right hup, or_iff_right hsmall]
    constructor
    · -- an eviction in vain leaves nothing of a queue that was not empty
      rintro ⟨hspared, hadmitted⟩
      by_contra hvain
      push Not at hvain
      obtain ⟨hnewest, hqueue, hroom⟩ := hvain
      cases hfate : (p.enqueue record scope).2 with
      | true =>
          obtain ⟨k, -, h⟩ := hadmitted hfate
          exact hroom (hasRoom_nil_of h.room)
      | false =>
          obtain ⟨hnil, -⟩ := emptied_of_refusal scope hmeasured hbytes hfate (hpolicy hnewest)
          exact hqueue ((hspared hfate).queue.symm.trans hnil)
    · intro hharmless
      refine ⟨fun hfalse => ?_, admitted_of_fits scope hmeasured hbytes⟩
      by_cases hnone : p.opts.dropPolicy = .dropNewest ∨ p.queue = []
      · exact spared_of_refusal scope hmeasured hbytes hfalse hnone
      · rw [not_or] at hnone
        obtain ⟨-, hfull⟩ := emptied_of_refusal scope hmeasured hbytes hfalse (hpolicy hnone.1)
        rcases hharmless with h | h | h
        · exact absurd h hnone.1
        · exact absurd h hnone.2
        · exact absurd h hfull
  · refine iff_of_true (enqueue_unmeasured scope hmeasured) ?_
    by_contra hout
    push Not at hout
    exact hmeasured ⟨by simpa using hout.1, hout.2.1⟩

/-- A budget of 100 bytes, records of 64 and up to 1000 allowed. -/
def tight : Processor Unit :=
  { resource := (), opts := { maxQueueSize := 4, dropPolicy := .dropOldest }, maxRecordBytes := 1000
    maxTotalQueueBytes := 100, grouped := false }

def smallRecord : SpanRecord Unit := {}

/-- 164 bytes. -/
def largeRecord : SpanRecord Unit := { name := List.replicate 100 0x61 }

/-- With one small record queued. -/
def tightWithOne : Processor Unit := (tight.enqueue smallRecord ⟨[], []⟩).1

/-- The small record goes for a small one. -/
theorem costsItsOwn_iff_small : CostsItsOwn tightWithOne smallRecord ⟨[], []⟩ :=
  (costsItsOwn_iff tightWithOne smallRecord ⟨[], []⟩ (by decide +kernel)).mpr (by decide +kernel)

/-- The small record goes for a large one that is refused all the same. -/
theorem evicted_in_vain : ¬ CostsItsOwn tightWithOne largeRecord ⟨[], []⟩ := by
  rintro ⟨hspared, -⟩
  have hqueue := (hspared (by decide +kernel)).queue
  revert hqueue
  decide +kernel

end Microtel.Pipeline.Processor
