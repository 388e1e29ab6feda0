import Microtel.Lib.FirstSeen

/-!
Lists read as maps: every element has a key, a lookup takes the first element
with the key, and an update replaces that element in place or appends. Layers
of attributes are merged this way, one update for each element of the layer
above.
-/

namespace KeyedList

variable {α κ : Type} [DecidableEq κ] (key : α → κ)

/-- The first element with the key. -/
def find (l : List α) (k : κ) : Option α := l.find? fun x => key x = k

def put : List α → α → List α
  | [], x => [x]
  | y :: l, x => if key y = key x then x :: l else y :: put l x

/-- Every element of `top` put, in order. -/
def merge (base top : List α) : List α := top.foldl (put key) base

/-- Without the elements with the key. -/
def erase (l : List α) (k : κ) : List α := l.filter fun x => key x ≠ k

variable {key}

@[simp] theorem merge_nil (base : List α) : merge key base [] = base := rfl

theorem merge_cons (base : List α) (x : α) (top : List α) :
    merge key base (x :: top) = merge key (put key base x) top := rfl

theorem merge_append (base top top' : List α) :
    merge key base (top ++ top') = merge key (merge key base top) top' :=
  List.foldl_append

theorem find_cons (y : α) (l : List α) (k : κ) :
    find key (y :: l) k = if key y = k then some y else find key l k := by
  unfold find
  rw [List.find?_cons]
  by_cases h : key y = k <;> simp [h]

theorem find_key {l : List α} {k : κ} {x : α} (h : find key l k = some x) : key x = k := by
  simpa using List.find?_some h

theorem find_put (l : List α) (x : α) (k : κ) :
    find key (put key l x) k = if key x = k then some x else find key l k := by
  induction l with
  | nil => rw [put, find_cons]
  | cons y l ih =>
      rw [put]
      by_cases hyx : key y = key x
      · rw [if_pos hyx, find_cons, find_cons, hyx]
        by_cases hk : key x = k <;> simp [hk]
      · rw [if_neg hyx, find_cons, find_cons, ih]
        by_cases hyk : key y = k
        · have hxk : key x ≠ k := fun h => hyx (hyk.trans h.symm)
          rw [if_pos hyk, if_neg hxk, if_pos hyk]
        · rw [if_neg hyk, if_neg hyk]

theorem find_mem {l : List α} {k : κ} {x : α} (h : find key l k = some x) : x ∈ l :=
  List.mem_of_find?_eq_some h

theorem find_of_mem {l : List α} {x : α} (hl : (l.map key).Nodup) (hx : x ∈ l) :
    find key l (key x) = some x := by
  have hsome : (find key l (key x)).isSome := by
    unfold find
    rw [List.find?_isSome]
    exact ⟨x, hx, by simp⟩
  obtain ⟨y, hy⟩ := Option.isSome_iff_exists.mp hsome
  rw [hy, List.inj_on_of_nodup_map hl (find_mem hy) hx (find_key hy)]

theorem mem_erase {l : List α} {k : κ} {x : α} : x ∈ erase key l k ↔ x ∈ l ∧ key x ≠ k := by
  simp [erase]

theorem erase_nodup {l : List α} (k : κ) (h : (l.map key).Nodup) :
    ((erase key l k).map key).Nodup :=
  h.sublist (List.filter_sublist.map key)

theorem mem_put {l : List α} {x y : α} (h : y ∈ put key l x) : y = x ∨ y ∈ l := by
  induction l with
  | nil => exact Or.inl (List.mem_singleton.mp h)
  | cons z l ih =>
      rw [put] at h
      split at h
      · rcases List.mem_cons.mp h with h | h
        · exact Or.inl h
        · exact Or.inr (List.mem_cons_of_mem _ h)
      · rcases List.mem_cons.mp h with rfl | h
        · exact Or.inr List.mem_cons_self
        · rcases ih h with h | h
          · exact Or.inl h
          · exact Or.inr (List.mem_cons_of_mem _ h)

theorem find_erase (l : List α) (k k' : κ) :
    find key (erase key l k) k' = if k' = k then none else find key l k' := by
  induction l with
  | nil => simp [erase, find]
  | cons y l ih =>
      unfold erase at ih ⊢
      rw [List.filter_cons]
      by_cases hy : key y = k
      · rw [if_neg (by simp [hy]), ih, find_cons, hy]
        split
        · rfl
        · next hne => rw [if_neg (Ne.symm hne)]
      · rw [if_pos (by simp [hy]), find_cons, find_cons, ih]
        split
        · next hk =>
          rw [if_neg]
          exact fun h => hy (hk.trans h)
        · rfl

/-- An element with its own key, and the rest. -/
theorem perm_erase {l : List α} {k : κ} {x : α} (hl : (l.map key).Nodup)
    (h : find key l k = some x) : l.Perm (x :: erase key l k) := by
  induction l with
  | nil => cases h
  | cons y l ih =>
      rw [List.map_cons, List.nodup_cons] at hl
      rw [find_cons] at h
      unfold erase
      rw [List.filter_cons]
      split at h
      · next hy =>
        cases h
        have hrest : l.filter (fun z => key z ≠ k) = l := by
          rw [List.filter_eq_self]
          intro z hz
          have hne : key z ≠ k := fun hzk => hl.1 (List.mem_map.mpr ⟨z, hz, hzk.trans hy.symm⟩)
          simpa using hne
        rw [if_neg (by simp [hy]), hrest]
      · next hy =>
        rw [if_pos (by simp [hy])]
        exact ((ih hl.2 h).cons y).trans (List.Perm.swap x y _)

theorem put_of_not_mem {l : List α} {x : α} (h : key x ∉ l.map key) : put key l x = l ++ [x] := by
  induction l with
  | nil => rfl
  | cons y l ih =>
      rw [List.map_cons, List.mem_cons, not_or] at h
      rw [put, if_neg (Ne.symm h.1), ih h.2, List.cons_append]

/-- What an update in place keeps. -/
theorem map_put {β : Type} (f : α → β) {l : List α} {x y : α} (h : find key l (key x) = some y)
    (hf : f y = f x) : (put key l x).map f = l.map f := by
  induction l with
  | nil => cases h
  | cons z l ih =>
      rw [find_cons] at h
      rw [put]
      split at h
      · next hz =>
        cases h
        rw [if_pos hz, List.map_cons, List.map_cons, hf]
      · next hz =>
        rw [if_neg hz, List.map_cons, List.map_cons, ih h]

theorem find_isSome {l : List α} {k : κ} : (find key l k).isSome ↔ k ∈ l.map key := by
  unfold find
  rw [List.find?_isSome, List.mem_map]
  simp

theorem put_keys (l : List α) (x : α) :
    (put key l x).map key = if key x ∈ l.map key then l.map key else l.map key ++ [key x] := by
  induction l with
  | nil => simp [put]
  | cons y l ih =>
      rw [put]
      by_cases hyx : key y = key x
      · simp [hyx]
      · rw [if_neg hyx, List.map_cons, ih, List.map_cons]
        by_cases hmem : key x ∈ l.map key
        · rw [if_pos hmem, if_pos (List.mem_cons_of_mem _ hmem)]
        · have hnot : key x ∉ key y :: l.map key := by
            intro h
            rcases List.mem_cons.mp h with h | h
            · exact hyx h.symm
            · exact hmem h
          rw [if_neg hmem, if_neg hnot, List.cons_append]

theorem put_nodup {l : List α} (x : α) (h : (l.map key).Nodup) : ((put key l x).map key).Nodup := by
  rw [put_keys]
  split
  · exact h
  · next hnot =>
    apply List.nodup_append.mpr
    refine ⟨h, by simp, ?_⟩
    rintro a ha b hb rfl
    exact hnot (List.mem_singleton.mp hb ▸ ha)

theorem merge_nodup {base : List α} (top : List α) (h : (base.map key).Nodup) :
    ((merge key base top).map key).Nodup := by
  induction top generalizing base with
  | nil => exact h
  | cons x top ih => exact ih (put_nodup x h)

/-- The keys of the base stay in place; the others follow as they are first seen. -/
theorem merge_keys (base top : List α) :
    (merge key base top).map key = base.map key ++
      FirstSeen.keys key (top.filter fun x => !(find key base (key x)).isSome) := by
  induction top using List.reverseRecOn with
  | nil => exact (List.append_nil _).symm
  | append_singleton top x ih =>
      rw [merge_append, merge_cons, merge_nil, put_keys, ih, List.filter_append,
        List.filter_singleton]
      cases hbase : (find key base (key x)).isSome with
      | true =>
          rw [Bool.not_true, cond_false, List.append_nil,
            if_pos (List.mem_append_left _ (find_isSome.mp hbase))]
      | false =>
          have hnot : key x ∉ base.map key := by
            rw [← find_isSome, hbase]
            exact Bool.false_ne_true
          rw [Bool.not_false, cond_true, FirstSeen.keys_concat]
          by_cases hseen :
              key x ∈ FirstSeen.keys key (top.filter fun x => !(find key base (key x)).isSome)
          · rw [if_pos hseen, if_pos (List.mem_append_right _ hseen)]
          · have hnew := not_or.mpr ⟨hnot, hseen⟩
            rw [← List.mem_append] at hnew
            rw [if_neg hnew, if_neg hseen, List.append_assoc]

/-- A layer acts on a lookup only through what it says about the key. -/
theorem find_merge (base top : List α) (k : κ) :
    find key (merge key base top) k = (find key (merge key [] top) k).or (find key base k) := by
  induction top using List.reverseRecOn with
  | nil => rfl
  | append_singleton top x ih =>
      rw [merge_append, merge_append, merge_cons, merge_cons, merge_nil, merge_nil, find_put,
        find_put, ih]
      split <;> rfl

theorem find_merge_of_not_mem {base top : List α} {k : κ} (h : k ∉ top.map key) :
    find key (merge key base top) k = find key base k := by
  induction top generalizing base with
  | nil => rfl
  | cons x top ih =>
      rw [List.map_cons, List.mem_cons, not_or] at h
      rw [merge_cons, ih h.2, find_put, if_neg (Ne.symm h.1)]

/-- Without a base a lookup takes the last element with the key. -/
theorem find_merge_nil (l : List α) (k : κ) :
    find key (merge key [] l) k = find key l.reverse k := by
  induction l using List.reverseRecOn with
  | nil => rfl
  | append_singleton l x ih =>
      rw [merge_append, merge_cons, merge_nil, find_put, ih, List.reverse_concat, find_cons]

theorem merge_nil_of_nodup {l : List α} (h : (l.map key).Nodup) : merge key [] l = l := by
  induction l using List.reverseRecOn with
  | nil => rfl
  | append_singleton l x ih =>
      rw [List.map_append, List.nodup_append] at h
      have hnew : key x ∉ l.map key := fun hmem => h.2.2 _ hmem (key x) (by simp) rfl
      rw [merge_append, merge_cons, merge_nil, ih h.1, put_of_not_mem hnew]

/-- Two layers over disjoint keys can be merged in either order. -/
theorem find_merge_comm (base top top' : List α) (k : κ)
    (h : ∀ k, k ∈ top.map key → k ∉ top'.map key) :
    find key (merge key (merge key base top) top') k =
      find key (merge key (merge key base top') top) k := by
  by_cases hk : k ∈ top.map key
  · have hk' := h k hk
    rw [find_merge_of_not_mem hk', find_merge _ top, find_merge (merge key base top') top,
      find_merge_of_not_mem hk']
  · rw [find_merge_of_not_mem hk, find_merge _ top', find_merge base top',
      find_merge_of_not_mem hk]

/-- Lists with distinct keys that answer every lookup alike have the same
elements. -/
theorem perm_of_find {l l' : List α} (h : (l.map key).Nodup) (h' : (l'.map key).Nodup)
    (heq : ∀ k, find key l k = find key l' k) : l.Perm l' := by
  have hmem : ∀ {l : List α}, (l.map key).Nodup → ∀ x, x ∈ l ↔ find key l (key x) = some x :=
    fun hl x => ⟨find_of_mem hl, find_mem⟩
  apply (List.perm_ext_iff_of_nodup (List.Nodup.of_map _ h) (List.Nodup.of_map _ h')).mpr
  intro x
  rw [hmem h, hmem h', heq]

/-- What an update does to a total. -/
theorem sum_put (f : α → Nat) (l : List α) (x : α) :
    ((put key l x).map f).sum + ((find key l (key x)).map f).getD 0 = (l.map f).sum + f x := by
  induction l with
  | nil => simp [put, find]
  | cons y l ih =>
      rw [put, find_cons]
      split
      · simp only [List.map_cons, List.sum_cons, Option.map_some, Option.getD_some]
        omega
      · simp only [List.map_cons, List.sum_cons]
        omega

end KeyedList
