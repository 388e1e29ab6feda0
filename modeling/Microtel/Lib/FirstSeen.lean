import Mathlib.Tactic

/-!
Stable partition of a list by a key: the distinct keys in the order they are first
seen, and for each key the elements that have it, in their order.
-/

namespace FirstSeen

variable {α κ : Type} [DecidableEq κ] (key : α → κ)

def keys (l : List α) : List κ := (l.map key).eraseDups

def classOf (l : List α) (k : κ) : List α := l.filter fun a => key a = k

variable {key}

theorem classOf_cons (a : α) (l : List α) (k : κ) :
    classOf key (a :: l) k = if key a = k then a :: classOf key l k else classOf key l k := by
  unfold classOf
  rw [List.filter_cons]
  simp only [decide_eq_true_eq]

theorem keys_concat (l : List α) (a : α) :
    keys key (l ++ [a]) = if key a ∈ keys key l then keys key l else keys key l ++ [key a] := by
  unfold keys
  rw [List.map_append, List.eraseDups_append, List.map_singleton]
  by_cases hmem : key a ∈ (l.map key).eraseDups
  · have hseen : key a ∈ l.map key := List.mem_eraseDups.mp hmem
    have hnone : [key a].removeAll (l.map key) = [] := by
      rw [List.removeAll, List.filter_singleton, List.elem_eq_true_of_mem hseen]
      rfl
    rw [if_pos hmem, hnone, List.eraseDups_nil, List.append_nil]
  · have hnew : key a ∉ l.map key := fun h => hmem (List.mem_eraseDups.mpr h)
    have hone : [key a].removeAll (l.map key) = [key a] := by
      rw [List.removeAll, List.filter_singleton, List.elem_eq_mem, decide_eq_false hnew]
      rfl
    rw [if_neg hmem, hone, List.eraseDups_cons]
    rfl

/-- Keys without repeats are first seen where they stand. -/
theorem keys_of_nodup {l : List α} (h : (l.map key).Nodup) : keys key l = l.map key := by
  induction l using List.reverseRecOn with
  | nil => rfl
  | append_singleton l a ih =>
      rw [List.map_append, List.nodup_append] at h
      have hnew : key a ∉ keys key l := by
        rw [ih h.1]
        exact fun hmem => h.2.2 _ hmem (key a) (by simp) rfl
      rw [keys_concat, if_neg hnew, ih h.1, List.map_append, List.map_singleton]

/-- What comes later only adds keys at the end. -/
theorem keys_prefix (l l' : List α) : (keys key l).IsPrefix (keys key (l ++ l')) := by
  unfold keys
  rw [List.map_append, List.eraseDups_append]
  exact List.prefix_append ..

theorem nodup_keys (l : List α) : (keys key l).Nodup := by
  induction l using List.reverseRecOn with
  | nil => exact List.nodup_nil
  | append_singleton l a ih =>
      rw [keys_concat]
      split
      · exact ih
      · next hnew =>
        refine List.nodup_append.mpr ⟨ih, List.nodup_singleton _, ?_⟩
        rintro k hk k' hk' rfl
        exact hnew (List.mem_singleton.mp hk' ▸ hk)

end FirstSeen
