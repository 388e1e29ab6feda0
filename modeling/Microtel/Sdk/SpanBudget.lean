import Microtel.Pipeline.ExporterRuns
import Microtel.Pipeline.ProcessorRuns
import Microtel.Sdk.BatchOptions

/-!
The batch group of one drain of the span processor against the queue budget of
an idle exporter. The budget is a fixed number of batches of the size the
provider was built with, while `SetBatchOptions` may change the size of a batch
later.
-/

namespace Microtel.Pipeline

variable {ρ : Type}

namespace Processor

variable [DecidableEq ρ] {own : ρ}

/-- A group is made for a record that goes to it. -/
theorem findGroups_covers (batch : List (QueuedSpan ρ)) (groups : List (Group ρ))
    (groupOf : List Nat) (h : ∀ g < groups.length, g ∈ groupOf) :
    ∀ g < (findGroups own batch groups groupOf).1.length,
      g ∈ (findGroups own batch groups groupOf).2 := by
  induction batch generalizing groups groupOf with
  | nil => exact h
  | cons item batch ih =>
      unfold findGroups
      cases groups.findIdx? (sameGroup own item) with
      | some i =>
          apply ih
          intro g hg
          exact List.mem_append_left _ (h g hg)
      | none =>
          apply ih
          intro g hg
          rw [List.length_append, List.length_singleton] at hg
          rcases Nat.lt_succ_iff_lt_or_eq.mp hg with hg | rfl
          · exact List.mem_append_left _ (h g hg)
          · exact List.mem_append_right _ (List.mem_singleton_self _)

omit [DecidableEq ρ] in
/-- The second pass leaves no group without a record that one is still to come to. -/
theorem fillGroups_ne_nil (batch : List (QueuedSpan ρ)) (groupOf : List Nat)
    (groups : List (Group ρ)) (hlen : groupOf.length = batch.length)
    (h : ∀ g group, groups[g]? = some group → group.records ≠ [] ∨ g ∈ groupOf) :
    ∀ group ∈ fillGroups batch groupOf groups, group.records ≠ [] := by
  induction batch generalizing groupOf groups with
  | nil =>
      intro group hgroup
      obtain rfl : groupOf = [] := List.length_eq_zero_iff.mp hlen
      obtain ⟨g, hg⟩ := List.mem_iff_getElem?.mp hgroup
      rcases h g group hg with hrecords | hmem
      · exact hrecords
      · cases hmem
  | cons item batch ih =>
      cases groupOf with
      | nil => cases hlen
      | cons i groupOf =>
          unfold fillGroups
          apply ih groupOf _ (Nat.succ_injective hlen)
          intro g group hg
          rw [List.getElem?_modify] at hg
          by_cases hig : i = g
          · left
            simp only [hig, if_true, Option.map_eq_map, Option.map_eq_some_iff] at hg
            obtain ⟨old, -, rfl⟩ := hg
            simp
          · simp only [hig, if_false, id_map'] at hg
            rcases h g group hg with hrecords | hmem
            · exact .inl hrecords
            · rcases List.mem_cons.mp hmem with rfl | hmem
              · exact absurd rfl hig
              · exact .inr hmem

/-- Every batch the processor hands over carries at least one span. -/
theorem batchHandles_pos (own : ρ) (batch : List (QueuedSpan ρ)) :
    ∀ handle ∈ batchHandles own batch, 0 < spanCount handle := by
  obtain ⟨hassigned, -⟩ :=
    findGroups_spec batch [] [] [] (List.Forall₂.nil : Assigned own [] [] []) (by simp)
  have hfilled := fillGroups_ne_nil batch (findGroups own batch [] []).2
    (findGroups own batch [] []).1 hassigned.length_eq.symm (by
      intro g group hg
      right
      apply findGroups_covers batch [] [] (by simp)
      exact (List.getElem?_eq_some_iff.mp hg).1)
  intro handle hhandle
  obtain ⟨group, hgroup, rfl⟩ := List.mem_map.mp hhandle
  exact List.length_pos_iff.mpr (hfilled group hgroup)

theorem batchHandles_count (own : ρ) (batch : List (QueuedSpan ρ)) :
    queuedCount (batchHandles own batch) = batch.length := by
  have hperm := (batchHandles_perm own batch).length_eq
  rw [List.length_flatMap, List.length_map] at hperm
  rw [← hperm]
  unfold queuedCount
  congr 1
  apply List.map_congr_left
  intro handle _
  simp [spanCount, BatchHandle.scoped]

end Processor

namespace Exporter

variable {e : Exporter ρ}

theorem enqueueLocked_refused (e : Exporter ρ) (batch : BatchHandle ρ) (throws : Bool) :
    e.ledger.refused.length ≤ (e.enqueueLocked batch throws).1.ledger.refused.length := by
  unfold enqueueLocked refuse
  split
  · simp
  · split
    · simp
    · split
      · simp
      · exact Nat.le_refl _

theorem enqueueAll_refused (e : Exporter ρ) (group : List (BatchHandle ρ × Bool)) :
    e.ledger.refused.length ≤ (e.enqueueAll group).1.ledger.refused.length := by
  induction group generalizing e with
  | nil => exact Nat.le_refl _
  | cons x group ih =>
      obtain ⟨batch, throws⟩ := x
      exact (e.enqueueLocked_refused batch throws).trans (ih _)

/-- The batches of a group. -/
def groupBatches (group : List (BatchHandle ρ × Bool)) : List (BatchHandle ρ) := group.map Prod.fst

/-- A queue bounded no tighter in batches than in spans takes a group of batches,
each with a span at least, if and only if their spans fit the budget. -/
theorem enqueueAll_whole_iff (e : Exporter ρ) (group : List (BatchHandle ρ × Bool))
    (hopen : e.shutdown = false) (hsize : e.config.maxQueuedSpans ≤ e.config.maxQueueSize)
    (hqueue : e.queue.length ≤ e.queuedSpans) (hbudget : e.queuedSpans ≤ e.config.maxQueuedSpans)
    (hpos : ∀ batch ∈ groupBatches group, 0 < spanCount batch) :
    (e.enqueueAll group).1.ledger.refused = e.ledger.refused ↔
      (∀ x ∈ group, x.2 = false) ∧
        e.queuedSpans + queuedCount (groupBatches group) ≤ e.config.maxQueuedSpans := by
  induction group generalizing e with
  | nil => simp [enqueueAll, groupBatches, queuedCount, hbudget]
  | cons x group ih =>
      obtain ⟨batch, throws⟩ := x
      have hbatch : 0 < spanCount batch := hpos batch (by simp [groupBatches])
      have hcount : queuedCount (groupBatches ((batch, throws) :: group)) =
          spanCount batch + queuedCount (groupBatches group) := by
        simp [groupBatches, queuedCount]
      -- a batch that is refused stays in the ledger of the refused
      have hrefused : ∀ reason, e.enqueueLocked batch throws = (e.refuse batch reason, false) →
          (e.enqueueAll ((batch, throws) :: group)).1.ledger.refused ≠ e.ledger.refused := by
        intro reason hlocked heq
        have hlen := enqueueAll_refused (e.refuse batch reason) group
        unfold enqueueAll at heq
        rw [hlocked] at heq
        dsimp only at heq
        rw [heq] at hlen
        simp [refuse] at hlen
      by_cases hover : e.config.maxQueueSize ≤ e.queue.length ∨
          e.config.maxQueuedSpans < e.queuedSpans + spanCount batch
      · have hlocked : e.enqueueLocked batch throws = (e.refuse batch .queueFull, false) := by
          unfold enqueueLocked
          rw [if_neg (by simp [hopen]), if_pos hover]
        constructor
        · intro heq
          exact absurd heq (hrefused _ hlocked)
        · rintro ⟨-, hfits⟩
          omega
      · cases throws with
        | true =>
            have hlocked : e.enqueueLocked batch true = (e.refuse batch .queueFull, false) := by
              unfold enqueueLocked
              rw [if_neg (by simp [hopen]), if_neg hover, if_pos rfl]
            constructor
            · intro heq
              exact absurd heq (hrefused _ hlocked)
            · rintro ⟨hnone, -⟩
              exact absurd (hnone (batch, true) List.mem_cons_self) (by simp)
        | false =>
            obtain ⟨e₁, hlocked, hconfig₁, hopen₁, hqueue₁, hspans₁, hrefused₁⟩ :
                ∃ e₁, e.enqueueLocked batch false = (e₁, true) ∧ e₁.config = e.config ∧
                  e₁.shutdown = false ∧ e₁.queue = e.queue ++ [batch] ∧
                  e₁.queuedSpans = e.queuedSpans + spanCount batch ∧
                  e₁.ledger.refused = e.ledger.refused := by
              unfold enqueueLocked
              rw [if_neg (by simp [hopen]), if_neg hover, if_neg (by simp)]
              exact ⟨_, rfl, rfl, hopen, rfl, rfl, rfl⟩
            have hrest := ih e₁ hopen₁ (by rw [hconfig₁]; exact hsize)
              (by rw [hqueue₁, hspans₁, List.length_append, List.length_singleton]; omega)
              (by rw [hspans₁, hconfig₁]; omega)
              (fun b hb => hpos b (List.mem_cons_of_mem _ hb))
            have hall : (e.enqueueAll ((batch, false) :: group)).1 = (e₁.enqueueAll group).1 := by
              rw [enqueueAll, hlocked]
            rw [hall, ← hrefused₁, hrest, hspans₁, hconfig₁, hcount]
            simp [Nat.add_assoc]

theorem exportGroup_ledger (e : Exporter ρ) (group : List (BatchHandle ρ × Bool)) :
    (e.exportGroup group).ledger = (e.enqueueAll group).1.ledger := by
  unfold exportGroup
  dsimp only
  split <;> rfl

end Exporter

end Microtel.Pipeline

namespace Microtel.Sdk

open Machine Pipeline

variable {ρ : Type}

/-- The exporter's configuration is what it was built with. -/
theorem exporter_reached {config : OtlpExporterConfig} {actions : List (ExporterAction ρ)}
    {e : Exporter ρ} (hrun : run Exporter.step (Exporter.new config) actions = some e) :
    e.Accounts ∧ e.config = config := by
  have hstep : ∀ (e₁ : Exporter ρ) a e₂, (e₁.Accounts ∧ e₁.config = config) →
      e₁.step a = some e₂ → e₂.Accounts ∧ e₂.config = config := by
    rintro e₁ a e₂ ⟨haccounts, hconfig⟩ hstep
    refine ⟨haccounts.step hstep, ?_⟩
    rw [Exporter.step_config haccounts hstep]
    exact hconfig
  exact run_invariant hstep ⟨Exporter.Accounts.new config, rfl⟩ hrun

/-- What a drain of the processor cuts, offered to an exporter that holds nothing:
all of it is taken if and only if every `push_back` succeeds and the spans are no
more than the budget the exporter was built with, whatever the processor's
options are now. -/
theorem drain_fits_idle_exporter_iff [DecidableEq ρ] (batch : BatchOptions)
    (actions : List (ExporterAction ρ)) (e : Exporter ρ)
    (hrun : run Exporter.step (Exporter.new (traceExporterConfig batch)) actions = some e)
    (hidle : e.queue = []) (hopen : e.shutdown = false) (p p' : Processor ρ)
    (hcut : p.collect = some p') (hgrouped : p.grouped = true) (throws : List Bool)
    (hthrows : throws.length = p'.nextCall.length) :
    (e.exportGroup (p'.nextCall.zip throws)).ledger.refused = e.ledger.refused ↔
      (∀ b ∈ throws, b = false) ∧
        min p.queue.length p.opts.maxExportBatchSize ≤
          queuedSpanBudget batch.maxExportBatchSize := by
  obtain ⟨haccounts, hconfig⟩ := exporter_reached hrun
  have hspans : e.queuedSpans = 0 := by
    rw [haccounts.spans, hidle]
    rfl
  have hcall : p'.nextCall =
      Processor.batchHandles p.resource
        (p.queue.take (min p.queue.length p.opts.maxExportBatchSize)) := by
    unfold Processor.collect at hcut
    split at hcut
    · cases hcut
      simp [Processor.nextCall, hgrouped]
    · cases hcut
  have hbatches : Exporter.groupBatches (p'.nextCall.zip throws) = p'.nextCall := by
    unfold Exporter.groupBatches
    exact List.map_fst_zip hthrows.ge
  have hcount : queuedCount p'.nextCall = min p.queue.length p.opts.maxExportBatchSize := by
    rw [hcall, Processor.batchHandles_count, List.length_take]
    omega
  have hnone : (∀ x ∈ p'.nextCall.zip throws, x.2 = false) ↔ ∀ b ∈ throws, b = false := by
    have hsnd : (p'.nextCall.zip throws).map Prod.snd = throws := List.map_snd_zip hthrows.le
    constructor
    · intro h b hb
      rw [← hsnd] at hb
      obtain ⟨x, hx, rfl⟩ := List.mem_map.mp hb
      exact h x hx
    · intro h x hx
      exact h x.2 (hsnd ▸ List.mem_map_of_mem hx)
  rw [Exporter.exportGroup_ledger, Exporter.enqueueAll_whole_iff e _ hopen
    (by rw [hconfig]; exact Nat.le_refl _) (by rw [hidle, hspans]; exact Nat.le_refl _)
    (by rw [hspans]; exact Nat.zero_le _)
    (by rw [hbatches, hcall]; exact Processor.batchHandles_pos _ _)]
  rw [hnone, hbatches, hcount, hspans, hconfig, Nat.zero_add]
  rfl

/-- A provider built for batches of one span and retuned to batches of 257. -/
def built : BatchOptions := { maxExportBatchSize := 1 }

def retuned : BatchOptions := { maxExportBatchSize := 257 }

/-- The retune, then records of two Resources and two scopes. -/
def groupedDrain : List (ProcessorAction Nat) :=
  [.setOptions retuned, .enqueue {} default, .enqueue { resource := some 1 } default,
    .enqueue {} default, .enqueue {} { name := [0x69], version := [0x31] },
    .enqueue { resource := some 1 } default]

theorem drain_fits_idle_exporter_retuned :
    ∃ p p', run Processor.step (Processor.new 0 built 4096 1000000 true) groupedDrain = some p ∧
      p.collect = some p' ∧ p'.nextCall.map spanCount = [2, 2, 1] ∧
      ((Exporter.new (traceExporterConfig built)).exportGroup
        (p'.nextCall.zip [false, false, false])).ledger.refused = [] := by
  obtain ⟨p, p', hrun, hcut, hgrouped, hcounts⟩ :
      ∃ p p', run Processor.step (Processor.new 0 built 4096 1000000 true) groupedDrain = some p ∧
        p.collect = some p' ∧ p.grouped = true ∧ p'.nextCall.map spanCount = [2, 2, 1] :=
    ⟨_, _, rfl, rfl, rfl, rfl⟩
  have hlength := congrArg List.length hcounts
  rw [List.length_map] at hlength
  refine ⟨p, p', hrun, hcut, hcounts, ?_⟩
  apply (drain_fits_idle_exporter_iff built [] _ rfl rfl rfl p p' hcut hgrouped
    [false, false, false] hlength.symm).mpr
  refine ⟨by decide, ?_⟩
  obtain rfl := Option.some.inj hrun
  decide

/-- The retune, then one record more than the budget. -/
def retunedDrain : List (ProcessorAction Nat) :=
  .setOptions retuned :: List.replicate 257 (.enqueue {} default)

theorem retuned_drain_refused :
    checkBatchOptions built = none ∧ checkBatchOptions retuned = none ∧
      ((run Processor.step (Processor.new 0 built 4096 1000000 true) retunedDrain).bind
        Processor.collect).map (fun p =>
          ((Exporter.new (traceExporterConfig built)).exportGroup
            (p.nextCall.map (·, false))).ledger.refused.map fun r => (spanCount r.1, r.2)) =
        some [(257, .queueFull)] := by
  decide +kernel

end Microtel.Sdk
