import Microtel.Pipeline.MetricReader

/-!
The collection cycles of `PeriodicExportingMetricReader` never overlap, and the
final cycle of a shutdown covers every measurement recorded before it, provided
the background thread still has a `Collect` ahead of it when the flag is set.
-/

namespace Microtel.Pipeline

open Machine

variable {μ : Type}

namespace Cycle

/-- Between the claim and the release of the slot. -/
def holds : Cycle μ → Bool
  | .claim => false
  | .finished => false
  | _ => true

/-- What the cycle has read and not yet offered. -/
def inFlight : Cycle μ → List μ
  | .collected _ taken => taken
  | .exporting _ taken _ => taken
  | _ => []

/-- For a cycle that has read the storages, what was recorded before its `Collect` started. -/
def seen : Cycle μ → Option (List μ)
  | .collected seen _ => some seen
  | .exporting seen _ _ => some seen
  | _ => none

theorem inFlight_of_not_holds {c : Cycle μ} (h : c.holds = false) : c.inFlight = [] := by
  cases c with
  | claim => rfl
  | finished => rfl
  | claimed => rfl
  | collecting seen => rfl
  | collected seen taken => cases h
  | exporting seen taken left => cases h
  | releasing => rfl

end Cycle

namespace MetricReader

variable {r r' : MetricReader μ} {c c' : Cycle μ} {a : CycleAction}

/-! ### One cycle -/

/-- What a step of a cycle does. -/
inductive CycleSteps (r : MetricReader μ) :
    Cycle μ → CycleAction → MetricReader μ → Cycle μ → Prop
  | claim (hfree : r.collecting = false) :
      CycleSteps r .claim .claim { r with collecting := true } .claimed
  | start : CycleSteps r .claimed .startCollect r (.collecting r.recorded)
  | read (seen : List μ) :
      CycleSteps r (.collecting seen) .readStorages { r with unread := [] }
        (.collected seen (if r.delta then r.unread else r.recorded))
  | threw {c : Cycle μ} (hc : c.holds = true) : CycleSteps r c .collectThrew r .releasing
  | offered {c : Cycle μ} {a : CycleAction} (seen taken : List μ)
      (hc : c = .collected seen taken ∨ c = .exporting seen taken 1) :
      CycleSteps r c a { r with offered := r.offered ++ taken, covered := r.covered ++ seen }
        .releasing
  | more {c : Cycle μ} {a : CycleAction} (seen taken : List μ) (left : Nat)
      (hc : c = .collected seen taken ∨ c = .exporting seen taken (left + 2)) :
      CycleSteps r c a r (.exporting seen taken (left + 1))
  | failed (seen taken : List μ) (left : Nat) :
      CycleSteps r (.exporting seen taken (left + 2)) .exportFailed r .releasing
  | release : CycleSteps r .releasing .release { r with collecting := false } .finished

theorem cycleStep_spec (h : r.cycleStep c a = some (r', c')) : CycleSteps r c a r' c' := by
  unfold cycleStep at h
  split at h
  · split at h
    · cases h
    · next hfree =>
      cases h
      exact .claim (by simpa using hfree)
  · cases h
    exact .start
  · cases h
    exact .read _
  · cases h
    exact .threw rfl
  · next seen taken handles =>
    cases handles with
    | zero =>
        cases h
        exact .offered seen taken (Or.inl rfl)
    | succ left =>
        cases h
        exact .more seen taken left (Or.inl rfl)
  · cases h
    exact .threw rfl
  · next seen taken left =>
    cases left with
    | zero =>
        cases h
        exact .offered seen taken (Or.inr rfl)
    | succ left =>
        cases h
        exact .more seen taken left (Or.inr rfl)
  · next seen taken left =>
    cases left with
    | zero =>
        cases h
        exact .offered seen taken (Or.inr rfl)
    | succ left =>
        cases h
        exact .failed seen taken left
  · cases h
    exact .release
  · cases h

/-- What no cycle touches. -/
structure SameRun (r r' : MetricReader μ) : Prop where
  background : r'.background = r.background
  callers : r'.callers = r.callers
  shutDown : r'.shutDown = r.shutDown
  shutdownPc : r'.shutdownPc = r.shutdownPc
  recorded : r'.recorded = r.recorded
  before : r'.before = r.before
  offeredInTime : r'.offeredInTime = r.offeredInTime
  coveredInTime : r'.coveredInTime = r.coveredInTime

theorem CycleSteps.same (h : CycleSteps r c a r' c') : SameRun r r' := by
  cases h <;> exact ⟨rfl, rfl, rfl, rfl, rfl, rfl, rfl, rfl⟩

theorem CycleSteps.grows (h : CycleSteps r c a r' c') :
    r.offered ⊆ r'.offered ∧ r.covered ⊆ r'.covered := by
  cases h with
  | offered seen taken hc => exact ⟨List.subset_append_left _ _, List.subset_append_left _ _⟩
  | claim hfree => exact ⟨List.Subset.refl _, List.Subset.refl _⟩
  | start => exact ⟨List.Subset.refl _, List.Subset.refl _⟩
  | read seen => exact ⟨List.Subset.refl _, List.Subset.refl _⟩
  | threw hc => exact ⟨List.Subset.refl _, List.Subset.refl _⟩
  | more seen taken left hc => exact ⟨List.Subset.refl _, List.Subset.refl _⟩
  | failed seen taken left => exact ⟨List.Subset.refl _, List.Subset.refl _⟩
  | release => exact ⟨List.Subset.refl _, List.Subset.refl _⟩

/-- The slot is claimed when it is free, and given back by the cycle that holds it. -/
theorem CycleSteps.slot (h : CycleSteps r c a r' c') :
    (c.holds = false ∧ c'.holds = true ∧ r.collecting = false ∧ r'.collecting = true) ∨
      (c.holds = true ∧ c'.holds = true ∧ r'.collecting = r.collecting) ∨
      (c.holds = true ∧ c'.holds = false ∧ r'.collecting = false) := by
  cases h with
  | claim hfree => exact Or.inl ⟨rfl, rfl, hfree, rfl⟩
  | start => exact Or.inr (Or.inl ⟨rfl, rfl, rfl⟩)
  | read seen => exact Or.inr (Or.inl ⟨rfl, rfl, rfl⟩)
  | threw hc => exact Or.inr (Or.inl ⟨hc, rfl, rfl⟩)
  | offered seen taken hc =>
      rcases hc with rfl | rfl
      · exact Or.inr (Or.inl ⟨rfl, rfl, rfl⟩)
      · exact Or.inr (Or.inl ⟨rfl, rfl, rfl⟩)
  | more seen taken left hc =>
      rcases hc with rfl | rfl
      · exact Or.inr (Or.inl ⟨rfl, rfl, rfl⟩)
      · exact Or.inr (Or.inl ⟨rfl, rfl, rfl⟩)
  | failed seen taken left => exact Or.inr (Or.inl ⟨rfl, rfl, rfl⟩)
  | release => exact Or.inr (Or.inr ⟨rfl, rfl, rfl⟩)

/-! ### Cycles never overlap -/

def backgroundHolds : Background μ → Bool
  | .cycle c => c.holds
  | _ => false

/-- The cycles under way. -/
def holders (r : MetricReader μ) : Nat :=
  (if backgroundHolds r.background then 1 else 0) + r.callers.countP Cycle.holds

def Slot (r : MetricReader μ) : Prop := r.holders = if r.collecting then 1 else 0

/-- The state of the background thread after its cycle moved to `c`. -/
def resume : Cycle μ → Background μ
  | .finished => .test
  | c => .cycle c

theorem resume_holds (c : Cycle μ) : backgroundHolds (resume c) = c.holds := by
  cases c <;> rfl

/-- A step of the background thread in its cycle. -/
theorem background_spec (h : r.step (.background a) = some r') :
    ∃ c r₁ c', r.background = .cycle c ∧ CycleSteps r c a r₁ c' ∧
      r' = { r₁ with background := resume c' } := by
  simp only [step] at h
  split at h
  · cases h
  · next c _ hbackground =>
    rw [Option.map_eq_some_iff] at h
    obtain ⟨⟨r₁, c'⟩, hcycle, rfl⟩ := h
    refine ⟨c, r₁, c', hbackground, cycleStep_spec hcycle, ?_⟩
    cases c' <;> rfl
  · cases h

theorem caller_spec {i : Nat} (h : r.step (.caller i a) = some r') :
    ∃ c r₁ c', r.callers[i]? = some c ∧ CycleSteps r c a r₁ c' ∧
      r' = { r₁ with callers := r.callers.set i c' } := by
  simp only [step] at h
  split at h
  · cases h
  · next c hc =>
    rw [Option.map_eq_some_iff] at h
    obtain ⟨⟨r₁, c'⟩, hcycle, rfl⟩ := h
    have hspec := cycleStep_spec hcycle
    refine ⟨c, r₁, c', hc, hspec, ?_⟩
    rw [← hspec.same.callers]

/-- Step lemma: every thread that is between claim and release is counted by the slot. -/
theorem Slot.step {a : ReaderAction μ} (h : r.Slot) (hstep : r.step a = some r') : r'.Slot := by
  cases a with
  | background a =>
      obtain ⟨c, r₁, c', hc, hcycle, rfl⟩ := background_spec hstep
      unfold Slot holders at h ⊢
      dsimp only
      rw [resume_holds, hcycle.same.callers]
      rw [hc] at h
      change (if c.holds then 1 else 0) + _ = _ at h
      rcases hcycle.slot with ⟨hold, hnew, hfree, hbusy⟩ | ⟨hold, hnew, hsame⟩ | ⟨hold, hnew, hfree⟩
      · simp_all
      · simp_all
      · rw [hold] at h
        rw [hnew, hfree]
        have hone : (if r.collecting then 1 else 0) ≤ 1 := by split <;> omega
        simp only [if_true, Bool.false_eq_true, if_false] at h ⊢
        omega
  | caller i a =>
      obtain ⟨c, r₁, c', hc, hcycle, rfl⟩ := caller_spec hstep
      obtain ⟨hlt, hget⟩ := List.getElem?_eq_some_iff.mp hc
      unfold Slot holders at h ⊢
      dsimp only
      rw [hcycle.same.background, List.countP_set hlt, hget]
      have hpos : c.holds = true → 0 < r.callers.countP Cycle.holds := by
        intro hold
        rw [List.countP_pos_iff]
        exact ⟨c, List.mem_of_getElem? hc, hold⟩
      rcases hcycle.slot with ⟨hold, hnew, hfree, hbusy⟩ | ⟨hold, hnew, hsame⟩ | ⟨hold, hnew, hfree⟩
      · simp_all
      · have := hpos hold
        rw [hold, hnew, hsame]
        simp only [if_true]
        omega
      · have := hpos hold
        rw [hold, hnew, hfree]
        have hone : (if r.collecting then 1 else 0) ≤ 1 := by split <;> omega
        simp only [if_true, Bool.false_eq_true, if_false]
        omega
  | record m =>
      cases hstep
      exact h
  | call =>
      cases hstep
      split
      · exact h
      · unfold Slot holders at h ⊢
        rw [List.countP_append]
        exact h
  | setInterval interval =>
      cases hstep
      exact h
  | loopTest =>
      simp only [MetricReader.step] at hstep
      split at hstep
      · next htest =>
        cases hstep
        unfold Slot holders at h ⊢
        rw [htest] at h
        cases r.shutDown <;> exact h
      · cases hstep
  | endWait =>
      simp only [MetricReader.step] at hstep
      split at hstep
      · next hwaiting =>
        cases hstep
        unfold Slot holders at h ⊢
        rw [hwaiting] at h
        exact h
      · cases hstep
  | shutdownCall =>
      simp only [MetricReader.step] at hstep
      split at hstep
      · cases hstep
        exact h
      · cases hstep
  | shutdownFlag =>
      simp only [MetricReader.step] at hstep
      split at hstep
      · cases hstep
        exact h
      · cases hstep
  | shutdownNotify =>
      simp only [MetricReader.step] at hstep
      split at hstep
      · cases hstep
        exact h
      · cases hstep
  | shutdownJoin =>
      simp only [MetricReader.step] at hstep
      split at hstep
      · split at hstep
        · cases hstep
          exact h
        · cases hstep
      · cases hstep
  | shutdownExporter =>
      simp only [MetricReader.step] at hstep
      split at hstep
      · cases hstep
        exact h
      · cases hstep

/-- While the background thread holds the slot no caller does. -/
theorem Slot.alone (h : r.Slot) (hbackground : backgroundHolds r.background = true) :
    ∀ c ∈ r.callers, c.holds = false := by
  intro c hc
  by_contra hholds
  have hpos : 0 < r.callers.countP Cycle.holds := by
    rw [List.countP_pos_iff]
    exact ⟨c, hc, by simpa using hholds⟩
  unfold Slot holders at h
  rw [if_pos hbackground] at h
  split at h <;> omega

/-! ### The final cycle -/

/-- The background thread is past its loop test and has not started the `Collect`
of that iteration. -/
def CollectAhead (background : Background μ) : Prop :=
  background = .waiting ∨ background = .cycle .claim ∨ background = .cycle .claimed

/-- A `Collect` does not throw, and only the last `Export` of a cycle may fail. -/
def Delivers (c : Cycle μ) (a : CycleAction) : Prop :=
  a ≠ .collectThrew ∧ (a = .exportFailed → ∃ seen taken, c = .exporting seen taken 1)

/-- The condition on a step. -/
def FinalCycle (r : MetricReader μ) : ReaderAction μ → Prop
  | .shutdownFlag => CollectAhead r.background
  | .background a => ∀ c, r.background = .cycle c → Delivers c a
  | .caller i a => ∀ c, r.callers[i]? = some c → Delivers c a
  | _ => True

/-- Where the measurements are that were recorded before `Shutdown` was called. -/
def Covering (r : MetricReader μ) : Prop :=
  CollectAhead r.background ∨
    (∃ seen, r.background = .cycle (.collecting seen) ∧ r.before ⊆ seen) ∨
    (∃ c seen, r.background = .cycle c ∧ c.seen = some seen ∧ r.before ⊆ seen ∧
      r.before ⊆ c.inFlight ++ r.offered) ∨
    (r.before ⊆ r.covered ∧ r.before ⊆ r.offered)

structure Kept (r : MetricReader μ) : Prop where
  slot : r.Slot
  /-- Every measurement is unread, on its way or offered. -/
  recorded : ∀ m ∈ r.recorded, m ∈ r.unread ∨ (∃ c, r.background = .cycle c ∧ m ∈ c.inFlight) ∨
    (∃ c ∈ r.callers, m ∈ c.inFlight) ∨ m ∈ r.offered
  before : r.before ⊆ r.recorded
  flag : r.shutDown = true ↔ r.shutdownPc ≠ .notCalled ∧ r.shutdownPc ≠ .called
  final : r.shutDown = true → r.Covering
  joined : r.shutdownPc = .joined ∨ r.shutdownPc = .exporterShutDown → r.background = .exited
  inTime : r.shutdownPc = .exporterShutDown →
    r.before ⊆ r.coveredInTime ∧ r.before ⊆ r.offeredInTime

theorem Kept.new (delta : Bool) (interval : Nat) : (new delta interval : MetricReader μ).Kept where
  slot := rfl
  recorded := by simp [MetricReader.new]
  before := by simp [MetricReader.new]
  flag := by simp [MetricReader.new]
  final := by simp [MetricReader.new]
  joined := by simp [MetricReader.new]
  inTime := by simp [MetricReader.new]

/-- A cycle that delivers loses nothing it has read. -/
theorem CycleSteps.keeps (h : CycleSteps r c a r' c') (hok : Delivers c a) {m : μ}
    (hm : m ∈ r.recorded) (hwhere : m ∈ r.unread ∨ m ∈ c.inFlight ∨ m ∈ r.offered) :
    m ∈ r'.unread ∨ m ∈ c'.inFlight ∨ m ∈ r'.offered := by
  cases h with
  | claim hfree => exact hwhere
  | start => exact hwhere
  | read seen =>
      rcases hwhere with hunread | hflight | hoffered
      · right
        left
        change m ∈ if r.delta then r.unread else r.recorded
        split
        · exact hunread
        · exact hm
      · cases hflight
      · exact Or.inr (Or.inr hoffered)
  | threw hc => exact absurd rfl hok.1
  | offered seen taken hc =>
      rcases hwhere with hunread | hflight | hoffered
      · exact Or.inl hunread
      · right
        right
        have htaken : m ∈ taken := by
          rcases hc with rfl | rfl
          · exact hflight
          · exact hflight
        exact List.mem_append_right _ htaken
      · exact Or.inr (Or.inr (List.mem_append_left _ hoffered))
  | more seen taken left hc =>
      rcases hc with rfl | rfl
      · exact hwhere
      · exact hwhere
  | failed seen taken left =>
      obtain ⟨seen', taken', hlast⟩ := hok.2 rfl
      cases hlast
  | release => exact hwhere

/-- When the background thread reads the storages, it reads or has been preceded by
whatever was recorded. -/
theorem Kept.reads (h : r.Kept) (hc : r.background = .cycle c) (hholds : c.holds = true) :
    ∀ m ∈ r.recorded, m ∈ r.unread ∨ m ∈ c.inFlight ∨ m ∈ r.offered := by
  intro m hm
  have halone := h.slot.alone (by rw [hc]; exact hholds)
  rcases h.recorded m hm with hunread | ⟨c₁, hc₁, hflight⟩ | ⟨c₁, hc₁, hflight⟩ | hoffered
  · exact Or.inl hunread
  · rw [hc] at hc₁
    rw [Background.cycle.inj hc₁]
    exact Or.inr (Or.inl hflight)
  · rw [Cycle.inFlight_of_not_holds (halone c₁ hc₁)] at hflight
    cases hflight
  · exact Or.inr (Or.inr hoffered)

/-- The background thread moves through its last cycle. -/
theorem Kept.covering (h : r.Kept) (hc : r.background = .cycle c) (hcycle : CycleSteps r c a r' c')
    (hok : Delivers c a) (hdown : r.shutDown = true) :
    Covering { r' with background := resume c' } := by
  have hgrows := hcycle.grows
  have hcovers := h.final hdown
  unfold Covering CollectAhead at hcovers ⊢
  dsimp only
  rw [hcycle.same.before]
  rw [hc] at hcovers
  have hcovered : r.before ⊆ r.covered ∧ r.before ⊆ r.offered →
      r.before ⊆ r'.covered ∧ r.before ⊆ r'.offered :=
    fun hin => ⟨fun m hm => hgrows.2 (hin.1 hm), fun m hm => hgrows.1 (hin.2 hm)⟩
  cases hcycle with
  | claim hfree => exact Or.inl (Or.inr (Or.inr rfl))
  | start => exact Or.inr (Or.inl ⟨_, rfl, h.before⟩)
  | read seen =>
      rcases hcovers with hahead | ⟨seen', hseen, hin⟩ | ⟨c₁, seen', hc₁, hshape, -⟩ | hin
      · simp at hahead
      · cases hseen
        refine Or.inr (Or.inr (Or.inl ⟨_, seen, rfl, rfl, hin, ?_⟩))
        intro m hm
        have hrecorded := h.before hm
        have hkept := (CycleSteps.read seen : CycleSteps r _ _ _ _).keeps hok hrecorded
          (h.reads hc rfl m hrecorded)
        rcases hkept with hunread | hflight | hoffered
        · cases hunread
        · exact List.mem_append_left _ hflight
        · exact List.mem_append_right _ hoffered
      · cases hc₁
        cases hshape
      · exact Or.inr (Or.inr (Or.inr (hcovered hin)))
  | threw _ => exact absurd rfl hok.1
  | offered seen taken hshape =>
      have hread : c.seen = some seen ∧ c.inFlight = taken := by
        rcases hshape with rfl | rfl <;> exact ⟨rfl, rfl⟩
      rcases hcovers with hahead | ⟨seen', hseen, -⟩ | ⟨c₁, seen', hc₁, hseen, hin, hflight⟩ | hin
      · rcases hshape with rfl | rfl <;> simp at hahead
      · rcases hshape with rfl | rfl <;> cases hseen
      · cases hc₁
        rw [hread.1] at hseen
        cases hseen
        rw [hread.2] at hflight
        refine Or.inr (Or.inr (Or.inr ⟨?_, ?_⟩))
        · exact fun m hm => List.mem_append_right _ (hin hm)
        · intro m hm
          exact List.mem_append.mpr (List.mem_append.mp (hflight hm)).symm
      · exact Or.inr (Or.inr (Or.inr (hcovered hin)))
  | more seen taken left hshape =>
      have hread : c.seen = some seen ∧ c.inFlight = taken := by
        rcases hshape with rfl | rfl <;> exact ⟨rfl, rfl⟩
      rcases hcovers with hahead | ⟨seen', hseen, -⟩ | ⟨c₁, seen', hc₁, hseen, hin, hflight⟩ | hin
      · rcases hshape with rfl | rfl <;> simp at hahead
      · rcases hshape with rfl | rfl <;> cases hseen
      · cases hc₁
        rw [hread.1] at hseen
        cases hseen
        rw [hread.2] at hflight
        exact Or.inr (Or.inr (Or.inl ⟨_, seen, rfl, rfl, hin, hflight⟩))
      · exact Or.inr (Or.inr (Or.inr (hcovered hin)))
  | failed seen taken left =>
      obtain ⟨seen', taken', hlast⟩ := hok.2 rfl
      cases hlast
  | release =>
      rcases hcovers with hahead | ⟨seen', hseen, -⟩ | ⟨c₁, seen', hc₁, hshape, -⟩ | hin
      · simp at hahead
      · cases hseen
      · cases hc₁
        cases hshape
      · exact Or.inr (Or.inr (Or.inr (hcovered hin)))

theorem Covering.mono (h : r.Covering) (hbackground : r'.background = r.background)
    (hbefore : r'.before = r.before) (hoffered : r.offered ⊆ r'.offered)
    (hcovered : r.covered ⊆ r'.covered) : r'.Covering := by
  unfold Covering at h ⊢
  rw [hbackground, hbefore]
  rcases h with hahead | hseen | ⟨c, seen, hc, hseen, hin, hflight⟩ | hin
  · exact Or.inl hahead
  · exact Or.inr (Or.inl hseen)
  · refine Or.inr (Or.inr (Or.inl ⟨c, seen, hc, hseen, hin, ?_⟩))
    intro m hm
    rcases List.mem_append.mp (hflight hm) with hm | hm
    · exact List.mem_append_left _ hm
    · exact List.mem_append_right _ (hoffered hm)
  · exact Or.inr
      (Or.inr (Or.inr ⟨fun m hm => hcovered (hin.1 hm), fun m hm => hoffered (hin.2 hm)⟩))

/-- A caller's cycle, other than the background thread's. -/
theorem Kept.caller {i : Nat} (h : r.Kept) (hok : r.FinalCycle (.caller i a))
    (hstep : r.step (.caller i a) = some r') : r'.Kept := by
  have hslot := h.slot.step hstep
  obtain ⟨c, r₁, c', hc, hcycle, rfl⟩ := caller_spec hstep
  have hsame := hcycle.same
  refine ⟨hslot, ?_, ?_, ?_, ?_, ?_, ?_⟩
  · intro m hm
    change m ∈ r₁.recorded at hm
    rw [hsame.recorded] at hm
    have hlt := (List.getElem?_eq_some_iff.mp hc).1
    have hnew : c' ∈ r.callers.set i c' := List.mem_set hlt c'
    have hmine : m ∈ r.unread ∨ m ∈ c.inFlight ∨ m ∈ r.offered →
        m ∈ r₁.unread ∨ (∃ c, r₁.background = .cycle c ∧ m ∈ c.inFlight) ∨
          (∃ c ∈ r.callers.set i c', m ∈ c.inFlight) ∨ m ∈ r₁.offered := by
      intro hwhere
      rcases hcycle.keeps (hok c hc) hm hwhere with hunread | hflight | hoffered
      · exact Or.inl hunread
      · exact Or.inr (Or.inr (Or.inl ⟨c', hnew, hflight⟩))
      · exact Or.inr (Or.inr (Or.inr hoffered))
    rcases h.recorded m hm with hunread | ⟨c₁, hc₁, hflight⟩ | ⟨c₁, hc₁, hflight⟩ | hoffered
    · exact hmine (Or.inl hunread)
    · exact Or.inr (Or.inl ⟨c₁, hsame.background.trans hc₁, hflight⟩)
    · obtain ⟨j, hj⟩ := List.mem_iff_getElem?.mp hc₁
      by_cases hij : i = j
      · subst hij
        rw [hc] at hj
        cases hj
        exact hmine (Or.inr (Or.inl hflight))
      · have hstill : c₁ ∈ r.callers.set i c' := by
          apply List.mem_of_getElem?
          rw [List.getElem?_set_ne hij]
          exact hj
        exact Or.inr (Or.inr (Or.inl ⟨c₁, hstill, hflight⟩))
    · exact hmine (Or.inr (Or.inr hoffered))
  · change r₁.before ⊆ r₁.recorded
    rw [hsame.before, hsame.recorded]
    exact h.before
  · change r₁.shutDown = true ↔ r₁.shutdownPc ≠ .notCalled ∧ r₁.shutdownPc ≠ .called
    rw [hsame.shutDown, hsame.shutdownPc]
    exact h.flag
  · intro hdown
    change r₁.shutDown = true at hdown
    rw [hsame.shutDown] at hdown
    exact (h.final hdown).mono hsame.background hsame.before hcycle.grows.1 hcycle.grows.2
  · change r₁.shutdownPc = .joined ∨ r₁.shutdownPc = .exporterShutDown → r₁.background = .exited
    rw [hsame.shutdownPc, hsame.background]
    exact h.joined
  · change r₁.shutdownPc = .exporterShutDown →
      r₁.before ⊆ r₁.coveredInTime ∧ r₁.before ⊆ r₁.offeredInTime
    rw [hsame.shutdownPc, hsame.before, hsame.coveredInTime, hsame.offeredInTime]
    exact h.inTime

theorem Kept.backgroundCycle (h : r.Kept) (hok : r.FinalCycle (.background a))
    (hstep : r.step (.background a) = some r') : r'.Kept := by
  have hslot := h.slot.step hstep
  obtain ⟨c, r₁, c', hc, hcycle, rfl⟩ := background_spec hstep
  have hsame := hcycle.same
  have hdelivers := hok c hc
  refine ⟨hslot, ?_, ?_, ?_, ?_, ?_, ?_⟩
  · intro m hm
    change m ∈ r₁.recorded at hm
    rw [hsame.recorded] at hm
    have hmine : m ∈ r.unread ∨ m ∈ c.inFlight ∨ m ∈ r.offered →
        m ∈ r₁.unread ∨ (∃ c, resume c' = .cycle c ∧ m ∈ c.inFlight) ∨
          (∃ c ∈ r₁.callers, m ∈ c.inFlight) ∨ m ∈ r₁.offered := by
      intro hwhere
      rcases hcycle.keeps hdelivers hm hwhere with hunread | hflight | hoffered
      · exact Or.inl hunread
      · refine Or.inr (Or.inl ⟨c', ?_, hflight⟩)
        cases c' with
        | finished => cases hflight
        | claim => rfl
        | claimed => rfl
        | collecting seen => rfl
        | collected seen taken => rfl
        | exporting seen taken left => rfl
        | releasing => rfl
      · exact Or.inr (Or.inr (Or.inr hoffered))
    rcases h.recorded m hm with hunread | ⟨c₁, hc₁, hflight⟩ | ⟨c₁, hc₁, hflight⟩ | hoffered
    · exact hmine (Or.inl hunread)
    · rw [hc] at hc₁
      cases hc₁
      exact hmine (Or.inr (Or.inl hflight))
    · rw [← hsame.callers] at hc₁
      exact Or.inr (Or.inr (Or.inl ⟨c₁, hc₁, hflight⟩))
    · exact hmine (Or.inr (Or.inr hoffered))
  · change r₁.before ⊆ r₁.recorded
    rw [hsame.before, hsame.recorded]
    exact h.before
  · change r₁.shutDown = true ↔ r₁.shutdownPc ≠ .notCalled ∧ r₁.shutdownPc ≠ .called
    rw [hsame.shutDown, hsame.shutdownPc]
    exact h.flag
  · intro hdown
    change r₁.shutDown = true at hdown
    rw [hsame.shutDown] at hdown
    exact h.covering hc hcycle hdelivers hdown
  · intro hjoined
    change r₁.shutdownPc = .joined ∨ r₁.shutdownPc = .exporterShutDown at hjoined
    rw [hsame.shutdownPc] at hjoined
    rw [h.joined hjoined] at hc
    cases hc
  · change r₁.shutdownPc = .exporterShutDown →
      r₁.before ⊆ r₁.coveredInTime ∧ r₁.before ⊆ r₁.offeredInTime
    rw [hsame.shutdownPc, hsame.before, hsame.coveredInTime, hsame.offeredInTime]
    exact h.inTime

/-- Outside a cycle of the background thread, all is covered unless a `Collect` is ahead. -/
theorem Covering.outside (h : r.Covering) (hcycle : ∀ c, r.background ≠ .cycle c)
    (hwaiting : r.background ≠ .waiting) : r.before ⊆ r.covered ∧ r.before ⊆ r.offered := by
  rcases h with (hahead | hahead | hahead) | ⟨seen, hc, -⟩ | ⟨c, seen, hc, -⟩ | hin
  · exact absurd hahead hwaiting
  · exact absurd hahead (hcycle _)
  · exact absurd hahead (hcycle _)
  · exact absurd hc (hcycle _)
  · exact absurd hc (hcycle _)
  · exact hin

/-- Step lemma, for the steps that meet the condition. -/
theorem Kept.step {a : ReaderAction μ} (h : r.Kept) (hok : r.FinalCycle a)
    (hstep : r.step a = some r') : r'.Kept := by
  have hslot := h.slot.step hstep
  cases a with
  | caller i a => exact h.caller hok hstep
  | background a => exact h.backgroundCycle hok hstep
  | record m =>
      cases hstep
      refine ⟨hslot, ?_, ?_, h.flag, ?_, h.joined, h.inTime⟩
      · intro m' hm'
        rcases List.mem_append.mp hm' with hm' | hm'
        · rcases h.recorded m' hm' with hunread | hrest
          · exact Or.inl (List.mem_append_left _ hunread)
          · exact Or.inr hrest
        · exact Or.inl (List.mem_append_right _ hm')
      · intro m' hm'
        exact List.mem_append_left _ (h.before hm')
      · intro hdown
        exact (h.final hdown).mono rfl rfl (List.Subset.refl _) (List.Subset.refl _)
  | call =>
      simp only [MetricReader.step, Option.some.injEq] at hstep
      split at hstep
      · cases hstep
        exact h
      · cases hstep
        refine ⟨hslot, ?_, h.before, h.flag, ?_, h.joined, h.inTime⟩
        · intro m hm
          rcases h.recorded m hm with hunread | hback | ⟨c, hc, hflight⟩ | hoffered
          · exact Or.inl hunread
          · exact Or.inr (Or.inl hback)
          · exact Or.inr (Or.inr (Or.inl ⟨c, List.mem_append_left _ hc, hflight⟩))
          · exact Or.inr (Or.inr (Or.inr hoffered))
        · intro hdown
          exact (h.final hdown).mono rfl rfl (List.Subset.refl _) (List.Subset.refl _)
  | setInterval interval =>
      cases hstep
      exact ⟨hslot, h.recorded, h.before, h.flag, h.final, h.joined, h.inTime⟩
  | loopTest =>
      simp only [MetricReader.step] at hstep
      split at hstep
      · next htest =>
        have hnone : ∀ m ∈ r.recorded,
            m ∈ r.unread ∨ (∃ c ∈ r.callers, m ∈ c.inFlight) ∨ m ∈ r.offered := by
          intro m hm
          rcases h.recorded m hm with hunread | ⟨c, hc, -⟩ | hrest
          · exact Or.inl hunread
          · rw [htest] at hc
            cases hc
          · exact Or.inr hrest
        have hnotJoined : ¬ (r.shutdownPc = .joined ∨ r.shutdownPc = .exporterShutDown) := by
          intro hjoined
          rw [h.joined hjoined] at htest
          cases htest
        cases hstep
        refine ⟨hslot, ?_, h.before, h.flag, ?_, fun hjoined => absurd hjoined hnotJoined, h.inTime⟩
        · intro m hm
          rcases hnone m hm with hunread | hrest
          · exact Or.inl hunread
          · exact Or.inr (Or.inr hrest)
        · intro hdown
          exact Or.inr
            (Or.inr (Or.inr ((h.final hdown).outside (by simp [htest]) (by simp [htest]))))
      · cases hstep
  | endWait =>
      simp only [MetricReader.step] at hstep
      split at hstep
      · next hwaiting =>
        cases hstep
        refine ⟨hslot, ?_, h.before, h.flag, ?_, ?_, h.inTime⟩
        · intro m hm
          rcases h.recorded m hm with hunread | ⟨c, hc, -⟩ | hrest
          · exact Or.inl hunread
          · rw [hwaiting] at hc
            cases hc
          · exact Or.inr (Or.inr hrest)
        · exact fun _ => Or.inl (Or.inr (Or.inl rfl))
        · intro hjoined
          have hexited := h.joined hjoined
          rw [hwaiting] at hexited
          cases hexited
      · cases hstep
  | shutdownCall =>
      simp only [MetricReader.step] at hstep
      split at hstep
      · next hpc =>
        have hup : ¬ r.shutDown = true := by
          intro hdown
          exact (h.flag.mp hdown).1 hpc
        cases hstep
        exact ⟨hslot, h.recorded, List.Subset.refl _, by simp [hup], fun hdown => absurd hdown hup,
          by simp, by simp⟩
      · cases hstep
  | shutdownFlag =>
      simp only [MetricReader.step] at hstep
      split at hstep
      · cases hstep
        exact ⟨hslot, h.recorded, h.before, by simp, fun _ => Or.inl hok, by simp, by simp⟩
      · cases hstep
  | shutdownNotify =>
      simp only [MetricReader.step] at hstep
      split at hstep
      · next hpc =>
        have hdown : r.shutDown = true := h.flag.mpr (by simp [hpc])
        cases hstep
        exact ⟨hslot, h.recorded, h.before, by simp [hdown], h.final, by simp, by simp⟩
      · cases hstep
  | shutdownJoin =>
      simp only [MetricReader.step] at hstep
      split at hstep
      · next hexited =>
        split at hstep
        · next hpc =>
          have hdown : r.shutDown = true := h.flag.mpr (by simp [hpc])
          cases hstep
          exact ⟨hslot, h.recorded, h.before, by simp [hdown], h.final, fun _ => hexited, by simp⟩
        · cases hstep
      · cases hstep
  | shutdownExporter =>
      simp only [MetricReader.step] at hstep
      split at hstep
      · next hpc =>
        have hdown : r.shutDown = true := h.flag.mpr (by simp [hpc])
        have hexited := h.joined (Or.inl hpc)
        cases hstep
        exact ⟨hslot, h.recorded, h.before, by simp [hdown], h.final, fun _ => hexited,
          fun _ => (h.final hdown).outside (by simp [hexited]) (by simp [hexited])⟩
      · cases hstep

/-! ### Every run -/

/-- Every step of the run meets the condition. -/
def FinalCycles (r : MetricReader μ) (actions : List (ReaderAction μ)) : Prop :=
  ∀ earlier a later s, actions = earlier ++ a :: later → run step r earlier = some s →
    s.FinalCycle a

/-- In every run the cycles never overlap. In every run in which the background
thread has a `Collect` ahead when `Shutdown` sets the flag, and no cycle fails
before its last handle, every measurement recorded before `Shutdown` was called
is read and offered to the exporter, and a `Collect` that started after it has
returned with all its handles offered, before the exporter's `Shutdown`. -/
theorem final_cycle (delta : Bool) (interval : Nat) (actions : List (ReaderAction μ))
    (r : MetricReader μ) (hrun : run step (new delta interval) actions = some r) :
    r.holders ≤ 1 ∧
    ((new delta interval : MetricReader μ).FinalCycles actions →
      r.shutdownPc = .exporterShutDown →
        r.before ⊆ r.coveredInTime ∧ r.before ⊆ r.offeredInTime) := by
  refine ⟨?_, ?_⟩
  · have hslot : r.Slot :=
      run_invariant (fun _ _ _ h hstep => h.step hstep) (Kept.new delta interval).slot hrun
    unfold Slot at hslot
    split at hslot
    · exact le_of_eq hslot
    · rw [hslot]
      exact Nat.zero_le 1
  · intro hok hpc
    have hkept : r.Kept :=
      run_invariant_of (fun _ _ _ h hok hstep => h.step hok hstep)
        (Kept.new delta interval) hok hrun
    exact hkept.inTime hpc

theorem finalCycles_cons {r₁ : MetricReader μ} {a : ReaderAction μ}
    {actions : List (ReaderAction μ)}
    (hstep : r.step a = some r₁) (hhere : r.FinalCycle a) (hlater : r₁.FinalCycles actions) :
    r.FinalCycles (a :: actions) := by
  intro earlier a' later s hsplit hrun
  cases earlier with
  | nil =>
      obtain ⟨rfl, -⟩ := List.cons.inj hsplit
      cases hrun
      exact hhere
  | cons b earlier =>
      obtain ⟨rfl, hrest⟩ := List.cons.inj hsplit
      rw [run_cons, hstep] at hrun
      exact hlater earlier a' later s hrest hrun

theorem finalCycles_nil (r : MetricReader μ) : r.FinalCycles [] := by
  intro earlier a later s hsplit
  simp at hsplit

/-- A shutdown that finds the background thread in its wait. -/
def shutdownInWait : List (ReaderAction Nat) :=
  [.record 7, .loopTest, .shutdownCall, .shutdownFlag, .shutdownNotify, .endWait,
    .background .claim, .background .startCollect, .background .readStorages,
    .background (.collected 1), .background .exported, .background .release, .loopTest,
    .shutdownJoin, .shutdownExporter]

theorem final_cycle_shutdownInWait :
    ∃ r : MetricReader Nat, run step (new true 60000) shutdownInWait = some r ∧
      r.shutdownPc = .exporterShutDown ∧ r.before = [7] ∧ r.before ⊆ r.offeredInTime := by
  obtain ⟨r, hrun, hpc, hbefore⟩ : ∃ r : MetricReader Nat,
      run step (new true 60000) shutdownInWait = some r ∧ r.shutdownPc = .exporterShutDown ∧
        r.before = [7] := ⟨_, rfl, rfl, rfl⟩
  have hdelivers : ∀ (c : Cycle Nat) (a : CycleAction), a ≠ .collectThrew → a ≠ .exportFailed →
      Delivers c a := fun c a hthrew hfailed => ⟨hthrew, fun h => absurd h hfailed⟩
  have hok : (new true 60000 : MetricReader Nat).FinalCycles shutdownInWait := by
    unfold shutdownInWait
    refine finalCycles_cons rfl trivial ?_
    refine finalCycles_cons rfl trivial ?_
    refine finalCycles_cons rfl trivial ?_
    refine finalCycles_cons rfl (Or.inl rfl) ?_
    refine finalCycles_cons rfl trivial ?_
    refine finalCycles_cons rfl trivial ?_
    refine finalCycles_cons rfl (fun c _ => hdelivers c _ (by decide) (by decide)) ?_
    refine finalCycles_cons rfl (fun c _ => hdelivers c _ (by decide) (by decide)) ?_
    refine finalCycles_cons rfl (fun c _ => hdelivers c _ (by decide) (by decide)) ?_
    refine finalCycles_cons rfl (fun c _ => hdelivers c _ (by decide) (by decide)) ?_
    refine finalCycles_cons rfl (fun c _ => hdelivers c _ (by decide) (by decide)) ?_
    refine finalCycles_cons rfl (fun c _ => hdelivers c _ (by decide) (by decide)) ?_
    refine finalCycles_cons rfl trivial ?_
    refine finalCycles_cons rfl trivial ?_
    refine finalCycles_cons rfl trivial ?_
    exact finalCycles_nil _
  exact ⟨r, hrun, hpc, hbefore, ((final_cycle true 60000 shutdownInWait r hrun).2 hok hpc).2⟩

/-- A shutdown that finds the background thread in the `Collect` of its cycle: the
loop test after it ends the thread, and the measurement made meanwhile is lost. -/
theorem lost_at_shutdown :
    ∃ r : MetricReader Nat, run step (new true 60000)
        [.loopTest, .endWait, .background .claim, .background .startCollect,
          .background .readStorages, .record 7, .shutdownCall, .shutdownFlag, .shutdownNotify,
          .background (.collected 1), .background .exported, .background .release, .loopTest,
          .shutdownJoin, .shutdownExporter] = some r ∧
      r.shutdownPc = .exporterShutDown ∧ r.before = [7] ∧ 7 ∉ r.offeredInTime ∧
      7 ∉ r.coveredInTime :=
  ⟨_, rfl, rfl, rfl, by decide, by decide⟩

end MetricReader

end Microtel.Pipeline
