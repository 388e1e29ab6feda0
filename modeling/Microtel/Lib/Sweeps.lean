import Mathlib.Data.List.TakeWhile
import Microtel.Lib.Threads

/-!
Sweeps over a row of cells. Each writes one value into all the cells, one at a time and
in the order of the row, while others do the same. Where no sweep writes a cell before
those that began ahead of it have written it, the sweeps stay in the order they began,
and when all are through the cells agree on the value of the last to begin.
-/

namespace Sweeps

open Threads

variable {κ α : Type}

/-- The value to write, none for a sweep that does not, and the cells still to write. -/
structure Sweep (κ α : Type) where
  value : Option α
  left : List κ

/-- Sweep `k` has written the cell. -/
def Wrote (sweeps : List (Sweep κ α)) (k : Nat) (x : κ) : Prop :=
  ∃ w, sweeps[k]? = some w ∧ x ∉ w.left

/-- The sweeps that have begun, with `k` among them. -/
def arrive (k : Nat) (arrivals : List Nat) : List Nat :=
  if k ∈ arrivals then arrivals else arrivals ++ [k]

/-- The sweeps that have begun are in an order in which none has written what one before
it has not; each cell has the value of the last of them that wrote it. -/
structure InTurn (agree : α → α → Prop) (row : List κ) (first : κ → α) (cells : κ → α)
    (sweeps : List (Sweep κ α)) (arrivals : List Nat) : Prop where
  nodup : arrivals.Nodup
  known : ∀ k ∈ arrivals, ∃ w v, sweeps[k]? = some w ∧ w.value = some v
  waiting : ∀ k w v, sweeps[k]? = some w → w.value = some v → k ∉ arrivals → w.left = row
  ordered : arrivals.Pairwise fun j k => ∀ x ∈ row, Wrote sweeps k x → Wrote sweeps j x
  carried : ∀ x ∈ row, ∀ older k newer w v, arrivals = older ++ k :: newer →
    sweeps[k]? = some w → w.value = some v → x ∉ w.left → (∀ j ∈ newer, ¬ Wrote sweeps j x) →
      agree v (cells x)
  idle : arrivals = [] → cells = first

variable {agree : α → α → Prop} {row : List κ} {first cells cells' : κ → α}
  {sweeps : List (Sweep κ α)} {arrivals : List Nat}

theorem InTurn.start (agree : α → α → Prop) (row : List κ) (first : κ → α) :
    InTurn agree row first first [] [] where
  nodup := List.nodup_nil
  known k hk := by cases hk
  waiting k w v hw := by cases hw
  ordered := List.Pairwise.nil
  carried x hx older k newer w v heq := by cases older <;> cases heq
  idle _ := rfl

theorem wrote_push {k : Nat} {x : κ} (w : Sweep κ α) (hk : k < sweeps.length) :
    Wrote (sweeps ++ [w]) k x ↔ Wrote sweeps k x := by
  unfold Wrote
  rw [List.getElem?_append_left hk]

/-- A sweep that has not begun, or one that writes nothing. -/
theorem InTurn.push (h : InTurn agree row first cells sweeps arrivals) {w : Sweep κ α}
    (hnew : ∀ v, w.value = some v → w.left = row) :
    InTurn agree row first cells (sweeps ++ [w]) arrivals := by
  have hlt : ∀ k ∈ arrivals, k < sweeps.length := by
    intro k hk
    obtain ⟨w', v, hw', -⟩ := h.known k hk
    exact lt_length hw'
  refine ⟨h.nodup, ?_, ?_, ?_, ?_, h.idle⟩
  · intro k hk
    obtain ⟨w', v, hw', hv⟩ := h.known k hk
    exact ⟨w', v, push_old hw', hv⟩
  · intro k w' v hw' hv hnot
    rcases Nat.lt_or_ge k sweeps.length with hk | hk
    · rw [List.getElem?_append_left hk] at hw'
      exact h.waiting k w' v hw' hv hnot
    · rw [List.getElem?_append_right hk] at hw'
      have hmem : w' ∈ [w] := List.mem_of_getElem? hw'
      rw [List.mem_singleton] at hmem
      subst hmem
      exact hnew v hv
  · refine h.ordered.imp_of_mem ?_
    intro j k hj hk hjk x hx hwrote
    exact (wrote_push w (hlt j hj)).mpr (hjk x hx ((wrote_push w (hlt k hk)).mp hwrote))
  · intro x hx older k newer w' v heq hw' hv hdone hnewer
    have hmem : ∀ j ∈ k :: newer, j ∈ arrivals := by
      intro j hj
      rw [heq]
      exact List.mem_append_right _ hj
    rw [List.getElem?_append_left (hlt k (hmem k List.mem_cons_self))] at hw'
    apply h.carried x hx older k newer w' v heq hw' hv hdone
    intro j hj hwrote
    exact hnewer j hj ((wrote_push w (hlt j (hmem j (List.mem_cons_of_mem _ hj)))).mpr hwrote)

section Write

variable {k : Nat} {v : α} {x : κ} {rest : List κ}

theorem wrote_set_other {j : Nat} {y : κ} {w : Sweep κ α} (hne : j ≠ k) :
    Wrote (sweeps.set k w) j y ↔ Wrote sweeps j y := by
  unfold Wrote
  rw [set_other hne]

/-- The sweep that writes a cell has written that cell more. -/
theorem wrote_set_self {y : κ} (hw : sweeps[k]? = some ⟨some v, x :: rest⟩) (hfresh : x ∉ rest) :
    Wrote (sweeps.set k ⟨some v, rest⟩) k y ↔ y = x ∨ Wrote sweeps k y := by
  unfold Wrote
  rw [set_self hw, hw]
  constructor
  · rintro ⟨w, hsome, hnot⟩
    cases hsome
    by_cases hyx : y = x
    · exact .inl hyx
    · refine .inr ⟨_, rfl, ?_⟩
      intro hmem
      rcases List.mem_cons.mp hmem with heq | hmem
      · exact hyx heq
      · exact hnot hmem
  · rintro (rfl | ⟨w, hsome, hnot⟩)
    · exact ⟨_, rfl, hfresh⟩
    · cases hsome
      exact ⟨_, rfl, fun hmem => hnot (List.mem_cons_of_mem _ hmem)⟩

theorem not_wrote (hw : sweeps[k]? = some ⟨some v, x :: rest⟩) : ¬ Wrote sweeps k x := by
  rintro ⟨w, hsome, hnot⟩
  rw [hw] at hsome
  cases hsome
  exact hnot List.mem_cons_self

/-- What was written stays written. -/
theorem Wrote.set {j : Nat} {y : κ} (h : Wrote sweeps j y)
    (hw : sweeps[k]? = some ⟨some v, x :: rest⟩) (hfresh : x ∉ rest) :
    Wrote (sweeps.set k ⟨some v, rest⟩) j y := by
  by_cases hjk : j = k
  · rw [hjk] at h ⊢
    exact (wrote_set_self hw hfresh).mpr (.inr h)
  · exact (wrote_set_other hjk).mpr h

/-- A sweep that has written nothing may begin. -/
theorem InTurn.arrive (h : InTurn agree row first cells sweeps arrivals)
    (hw : sweeps[k]? = some ⟨some v, x :: rest⟩) :
    InTurn agree row first cells sweeps (arrive k arrivals) := by
  unfold Sweeps.arrive
  split
  · exact h
  · next hnot =>
    have hleft : x :: rest = row := h.waiting k _ v hw rfl hnot
    have hnone : ∀ y ∈ row, ¬ Wrote sweeps k y := by
      rintro y hy ⟨w, hsome, hdone⟩
      rw [hw] at hsome
      cases hsome
      rw [hleft] at hdone
      exact hdone hy
    refine ⟨?_, ?_, ?_, ?_, ?_, ?_⟩
    · refine List.nodup_append.mpr ⟨h.nodup, List.nodup_singleton k, ?_⟩
      rintro j hj l hl rfl
      exact hnot (List.mem_singleton.mp hl ▸ hj)
    · intro j hj
      rcases List.mem_append.mp hj with hj | hj
      · exact h.known j hj
      · rw [List.mem_singleton.mp hj]
        exact ⟨_, v, hw, rfl⟩
    · intro j w v' hj hv hout
      exact h.waiting j w v' hj hv fun hmem => hout (List.mem_append_left _ hmem)
    · refine List.pairwise_append.mpr ⟨h.ordered, List.pairwise_singleton _ _, ?_⟩
      intro j hj l hl y hy hwrote
      rw [List.mem_singleton.mp hl] at hwrote
      exact absurd hwrote (hnone y hy)
    · intro y hy older j newer w v' heq hj hv hdone hnewer
      rcases List.eq_nil_or_concat newer with rfl | ⟨newer', last, rfl⟩
      · -- the last to begin has written nothing
        obtain ⟨-, hlast⟩ := List.append_inj' heq rfl
        cases hlast
        exact absurd ⟨w, hj, hdone⟩ (hnone y hy)
      · rw [List.concat_eq_append, ← List.cons_append, ← List.append_assoc] at heq
        obtain ⟨hinit, -⟩ := List.append_inj' heq rfl
        apply h.carried y hy older j newer' w v' hinit hj hv hdone
        intro l hl
        exact hnewer l (by simp [hl])
    · intro hnil
      simp at hnil

theorem takeWhile_split {older newer : List Nat} (hnot : k ∉ older) :
    (older ++ k :: newer).takeWhile (· ≠ k) = older := by
  rw [List.takeWhile_append_of_pos, List.takeWhile_cons_of_neg]
  · simp
  · simp
  · intro j hj
    have hne : j ≠ k := fun heq => hnot (heq ▸ hj)
    simpa using hne

theorem takeWhile_arrive (k : Nat) (arrivals : List Nat) :
    (Sweeps.arrive k arrivals).takeWhile (· ≠ k) = arrivals.takeWhile (· ≠ k) := by
  unfold Sweeps.arrive
  split
  · rfl
  · next hnot =>
    have hall : ∀ j ∈ arrivals, decide (j ≠ k) = true := by
      intro j hj
      have hne : j ≠ k := fun heq => hnot (heq ▸ hj)
      simpa using hne
    rw [takeWhile_split hnot, List.takeWhile_eq_self_iff.mpr hall]

/-- A sweep that has begun writes its next cell in its turn. -/
theorem InTurn.writeNext (h : InTurn agree row first cells sweeps arrivals) (hk : k ∈ arrivals)
    (hw : sweeps[k]? = some ⟨some v, x :: rest⟩) (hfresh : x ∉ rest)
    (hturn : ∀ j ∈ arrivals.takeWhile (· ≠ k), Wrote sweeps j x) (hcell : agree v (cells' x))
    (hother : ∀ y, y ≠ x → cells' y = cells y) :
    InTurn agree row first cells' (sweeps.set k ⟨some v, rest⟩) arrivals := by
  have hself : ∀ {y : κ}, Wrote (sweeps.set k ⟨some v, rest⟩) k y ↔ y = x ∨ Wrote sweeps k y :=
    wrote_set_self hw hfresh
  refine ⟨h.nodup, ?_, ?_, ?_, ?_, ?_⟩
  · intro j hj
    by_cases hjk : j = k
    · rw [hjk, set_self hw]
      exact ⟨_, v, rfl, rfl⟩
    · rw [set_other hjk]
      exact h.known j hj
  · intro j w v' hj hv hout
    have hjk : j ≠ k := fun heq => hout (heq ▸ hk)
    rw [set_other hjk] at hj
    exact h.waiting j w v' hj hv hout
  · obtain ⟨older, newer, hsplit⟩ := List.append_of_mem hk
    have hnodup := h.nodup
    rw [hsplit, List.nodup_append, List.nodup_cons] at hnodup
    have holder : ∀ j ∈ older, j ≠ k := fun j hj => hnodup.2.2 j hj k List.mem_cons_self
    have hnewer : ∀ j ∈ newer, j ≠ k := by
      rintro j hj rfl
      exact hnodup.2.1.1 hj
    have hturn' : ∀ j ∈ older, Wrote sweeps j x := by
      rw [hsplit, takeWhile_split fun hmem => holder k hmem rfl] at hturn
      exact hturn
    have hordered := h.ordered
    rw [hsplit, List.pairwise_append, List.pairwise_cons] at hordered ⊢
    obtain ⟨hold, ⟨hhead, hnew⟩, hcross⟩ := hordered
    have hkept : ∀ {i j : Nat}, j ≠ k → (∀ y ∈ row, Wrote sweeps j y → Wrote sweeps i y) →
        ∀ y ∈ row, Wrote (sweeps.set k ⟨some v, rest⟩) j y →
          Wrote (sweeps.set k ⟨some v, rest⟩) i y := by
      intro i j hjk himp y hy hwrote
      exact (himp y hy ((wrote_set_other hjk).mp hwrote)).set hw hfresh
    refine ⟨?_, ⟨?_, ?_⟩, ?_⟩
    · refine hold.imp_of_mem ?_
      intro i j _ hj himp
      exact hkept (holder j hj) himp
    · intro j hj
      exact hkept (hnewer j hj) (hhead j hj)
    · refine hnew.imp_of_mem ?_
      intro i j _ hj himp
      exact hkept (hnewer j hj) himp
    · intro i hi j hj
      rcases List.mem_cons.mp hj with rfl | hj'
      · intro y hy hwrote
        rcases hself.mp hwrote with rfl | hwrote
        · exact (hturn' i hi).set hw hfresh
        · exact (hcross i hi _ hj y hy hwrote).set hw hfresh
      · exact hkept (hnewer j hj') (hcross i hi j hj)
  · intro y hy older j newer w v' heq hj hv hdone hnewer
    by_cases hyx : y = x
    · subst hyx
      -- of those that have written the cell none is behind the one that writes it now
      have hjk : j = k := by
        by_contra hne
        rw [set_other hne] at hj
        rw [heq] at hk
        rcases List.mem_append.mp hk with hmem | hmem
        · have hordered := h.ordered
          rw [heq, List.pairwise_append] at hordered
          exact not_wrote hw (hordered.2.2 k hmem j List.mem_cons_self y hy ⟨w, hj, hdone⟩)
        · rcases List.mem_cons.mp hmem with heq' | hmem
          · exact hne heq'.symm
          · exact hnewer k hmem (hself.mpr (.inl rfl))
      rw [hjk, set_self hw] at hj
      cases hj
      cases hv
      exact hcell
    · rw [hother y hyx]
      have hquiet : ∀ l ∈ newer, ¬ Wrote sweeps l y := fun l hl hwrote =>
        hnewer l hl (hwrote.set hw hfresh)
      by_cases hjk : j = k
      · rw [hjk, set_self hw] at hj
        cases hj
        apply h.carried y hy older j newer ⟨some v, x :: rest⟩ v' heq (hjk ▸ hw) hv _ hquiet
        intro hmem
        rcases List.mem_cons.mp hmem with hmem | hmem
        · exact hyx hmem
        · exact hdone hmem
      · rw [set_other hjk] at hj
        exact h.carried y hy older j newer w v' heq hj hv hdone hquiet
  · intro hnil
    rw [hnil] at hk
    cases hk

/-- A sweep writes its next cell in its turn. -/
theorem InTurn.write (h : InTurn agree row first cells sweeps arrivals)
    (hw : sweeps[k]? = some ⟨some v, x :: rest⟩) (hfresh : x ∉ rest)
    (hturn : ∀ j ∈ arrivals.takeWhile (· ≠ k), Wrote sweeps j x) (hcell : agree v (cells' x))
    (hother : ∀ y, y ≠ x → cells' y = cells y) :
    InTurn agree row first cells' (sweeps.set k ⟨some v, rest⟩) (Sweeps.arrive k arrivals) := by
  have hbegun : k ∈ Sweeps.arrive k arrivals := by
    unfold Sweeps.arrive
    split
    · assumption
    · simp
  rw [← takeWhile_arrive] at hturn
  exact (h.arrive hw).writeNext hbegun hw hfresh hturn hcell hother

end Write

/-- Once all are through, the cells agree on one value, or no sweep had any. -/
theorem InTurn.finished (h : InTurn agree row first cells sweeps arrivals)
    (hdone : ∀ w ∈ sweeps, w.left = []) :
    ((∀ w ∈ sweeps, w.value = none) ∧ cells = first) ∨
      ∃ w ∈ sweeps, ∃ v, w.value = some v ∧ ∀ x ∈ row, agree v (cells x) := by
  by_cases hall : ∀ w ∈ sweeps, w.value = none
  · refine .inl ⟨hall, h.idle ?_⟩
    rw [List.eq_nil_iff_forall_not_mem]
    intro k hk
    obtain ⟨w, v, hw, hv⟩ := h.known k hk
    rw [hall w (List.mem_of_getElem? hw)] at hv
    cases hv
  · push Not at hall
    obtain ⟨w, hmem, hsome⟩ := hall
    obtain ⟨v, hv⟩ := Option.ne_none_iff_exists'.mp hsome
    obtain ⟨k, hw⟩ := List.mem_iff_getElem?.mp hmem
    right
    rcases List.eq_nil_or_concat arrivals with hnil | ⟨older, last, hlast⟩
    · have hrow : row = [] := by
        rw [← h.waiting k w v hw hv (by simp [hnil]), hdone w hmem]
      exact ⟨w, hmem, v, hv, by simp [hrow]⟩
    · obtain ⟨w', v', hw', hv'⟩ := h.known last (by simp [hlast])
      have hmem' := List.mem_of_getElem? hw'
      refine ⟨w', hmem', v', hv', ?_⟩
      intro x hx
      apply h.carried x hx older last [] w' v' (by simpa using hlast) hw' hv'
      · rw [hdone w' hmem']
        exact List.not_mem_nil
      · intro j hj
        cases hj

end Sweeps
