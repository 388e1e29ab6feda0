import Mathlib.Tactic

/-!
Any number of threads as the list of their program counters: thread `k` is at
`l[k]`, a new thread goes to the end, and a step of thread `k` sets that entry.
-/

namespace Threads

variable {Φ : Type} {l : List Φ} {k j : Nat} {φ ψ : Φ}

theorem lt_length (h : l[k]? = some φ) : k < l.length := by
  by_contra hlong
  rw [List.getElem?_eq_none (Nat.not_lt.mp hlong)] at h
  cases h

theorem set_self (h : l[k]? = some φ) : (l.set k ψ)[k]? = some ψ := by
  rw [List.getElem?_set_self (lt_length h)]

theorem set_same (h : l[k]? = some φ) : l.set k φ = l := by
  obtain ⟨hlt, rfl⟩ := List.getElem?_eq_some_iff.mp h
  exact List.set_getElem_self hlt

theorem set_other (hne : j ≠ k) : (l.set k ψ)[j]? = l[j]? := by
  rw [List.getElem?_set_ne (Ne.symm hne)]

/-- What holds of every thread still does, if it holds of the one that moved. -/
theorem forall_set {P : Nat → Φ → Prop} (hk : P k φ)
    (hothers : ∀ j ψ, j ≠ k → l[j]? = some ψ → P j ψ) :
    ∀ j ψ, (l.set k φ)[j]? = some ψ → P j ψ := by
  intro j ψ hj
  by_cases hjk : j = k
  · subst hjk
    have hlt : j < l.length := by
      simpa using lt_length hj
    rw [List.getElem?_set_self hlt] at hj
    cases hj
    exact hk
  · rw [set_other hjk] at hj
    exact hothers j ψ hjk hj

theorem forall_push {P : Nat → Φ → Prop} (hnew : P l.length φ)
    (hothers : ∀ j ψ, l[j]? = some ψ → P j ψ) :
    ∀ j ψ, (l ++ [φ])[j]? = some ψ → P j ψ := by
  intro j ψ hj
  rcases Nat.lt_trichotomy j l.length with hlt | rfl | hgt
  · rw [List.getElem?_append_left hlt] at hj
    exact hothers j ψ hj
  · rw [List.getElem?_concat_length] at hj
    cases hj
    exact hnew
  · have hlen := lt_length hj
    simp at hlen
    omega

theorem push_old (h : l[k]? = some φ) : (l ++ [ψ])[k]? = some φ := by
  rw [List.getElem?_append_left (lt_length h)]
  exact h

/-- How many threads are in a region, when one moves. -/
theorem countP_set (p : Φ → Bool) (ψ : Φ) (h : l[k]? = some φ) :
    (l.set k ψ).countP p + (if p φ then 1 else 0) = l.countP p + (if p ψ then 1 else 0) := by
  have hlt := lt_length h
  have hget : l[k] = φ := by
    rw [List.getElem?_eq_getElem hlt] at h
    exact Option.some.inj h
  have hpos : p φ = true → 0 < l.countP p := by
    intro hp
    rw [List.countP_pos_iff]
    exact ⟨φ, hget ▸ List.getElem_mem hlt, hp⟩
  rw [List.countP_set hlt, hget]
  split
  · next hp =>
    have := hpos hp
    omega
  · omega

theorem countP_push (p : Φ → Bool) : (l ++ [φ]).countP p = l.countP p + (if p φ then 1 else 0) := by
  rw [List.countP_append]
  simp [List.countP_cons]

/-! ### Threads that came to a stage, in the order they came -/

variable {At : Φ → Prop} {queue : List Nat}

/-- The threads of a queue are distinct and at the stage, the last of them as `newest`. -/
structure Queued (l : List Φ) (At : Φ → Prop) (queue : List Nat) (newest : Φ) : Prop where
  nodup : queue.Nodup
  stage : ∀ k ∈ queue, ∃ φ, l[k]? = some φ ∧ At φ
  last : ∀ k, queue.getLast? = some k → l[k]? = some newest

namespace Queued

variable {newest : Φ}

theorem nil (l : List Φ) (At : Φ → Prop) (newest : Φ) : Queued l At [] newest where
  nodup := List.nodup_nil
  stage k hk := by cases hk
  last k hk := by cases hk

theorem not_mem (h : Queued l At queue newest) (hk : l[k]? = some φ) (hφ : ¬ At φ) : k ∉ queue := by
  intro hmem
  obtain ⟨ψ, hψ, hat⟩ := h.stage k hmem
  rw [hk] at hψ
  cases hψ
  exact hφ hat

theorem pushed (h : Queued l At queue newest) : Queued (l ++ [φ]) At queue newest where
  nodup := h.nodup
  stage k hk := by
    obtain ⟨ψ, hψ, hat⟩ := h.stage k hk
    exact ⟨ψ, push_old hψ, hat⟩
  last k hk := push_old (h.last k hk)

/-- A thread that is not at the stage may move. -/
theorem elsewhere (h : Queued l At queue newest) (hk : l[k]? = some φ) (hφ : ¬ At φ) :
    Queued (l.set k ψ) At queue newest where
  nodup := h.nodup
  stage j hj := by
    have hjk : j ≠ k := by
      rintro rfl
      exact h.not_mem hk hφ hj
    rw [set_other hjk]
    exact h.stage j hj
  last j hj := by
    have hjk : j ≠ k := by
      rintro rfl
      exact h.not_mem hk hφ (List.mem_of_getLast? hj)
    rw [set_other hjk]
    exact h.last j hj

/-- A thread comes to the stage. -/
theorem arrive (h : Queued l At queue newest) (hk : l[k]? = some φ) (hφ : ¬ At φ) (hψ : At ψ) :
    Queued (l.set k ψ) At (queue ++ [k]) ψ where
  nodup := by
    rw [List.nodup_append]
    refine ⟨h.nodup, List.nodup_singleton k, ?_⟩
    intro a ha b hb
    rw [List.mem_singleton] at hb
    rintro rfl
    rw [hb] at ha
    exact h.not_mem hk hφ ha
  stage j hj := by
    rcases List.mem_append.mp hj with hj | hj
    · exact (h.elsewhere hk hφ).stage j hj
    · rw [List.mem_singleton.mp hj]
      exact ⟨ψ, set_self hk, hψ⟩
  last j hj := by
    rw [List.getLast?_concat] at hj
    cases hj
    exact set_self hk

/-- The oldest thread leaves the stage; if it was alone it is the newest. -/
theorem leave (h : Queued l At (k :: queue) newest) (hk : l[k]? = some φ) :
    Queued (l.set k ψ) At queue newest ∧ (queue = [] → φ = newest) := by
  have hnot : k ∉ queue := (List.nodup_cons.mp h.nodup).1
  have hmoved : ∀ j ∈ queue, (l.set k ψ)[j]? = l[j]? := by
    intro j hj
    apply set_other
    rintro rfl
    exact hnot hj
  refine ⟨⟨(List.nodup_cons.mp h.nodup).2, ?_, ?_⟩, ?_⟩
  · intro j hj
    rw [hmoved j hj]
    exact h.stage j (List.mem_cons_of_mem _ hj)
  · intro j hj
    rw [hmoved j (List.mem_of_getLast? hj)]
    apply h.last
    rw [List.getLast?_cons, hj]
    rfl
  · rintro rfl
    have hlast := h.last k rfl
    rw [hk] at hlast
    exact Option.some.inj hlast

end Queued

end Threads
