import Mathlib.Tactic
import Mathlib.Data.List.Perm.Basic

/-!
Maps with a limit on their number of keys. A value under a new key goes to the
overflow key once the map is full. The equality test on keys need not be reflexive:
a key that is not equal to itself is a new one every time.
-/

namespace CappedMap

/-- The equality test, and the key that takes what does not fit. -/
structure Keys (K : Type) where
  same : K → K → Bool
  symm : ∀ a b, same a b = true → same b a = true
  trans : ∀ a b c, same a b = true → same b c = true → same a c = true
  overflow : K
  overflow_self : same overflow overflow = true

variable {K X P : Type} (T : Keys K)

namespace Keys

theorem same_comm (a b : K) : T.same a b = T.same b a :=
  Bool.eq_iff_iff.mpr ⟨T.symm a b, T.symm b a⟩

/-- Equal keys are equal to the same keys. -/
theorem same_congr {a b : K} (h : T.same a b = true) (c : K) : T.same a c = T.same b c :=
  Bool.eq_iff_iff.mpr ⟨T.trans b a c (T.symm a b h), T.trans a b c h⟩

theorem same_congr_right {a b : K} (h : T.same a b = true) (c : K) : T.same c a = T.same c b := by
  rw [T.same_comm c a, T.same_comm c b]
  exact T.same_congr h c

def has (keys : List K) (k : K) : Bool := keys.any (T.same k)

def addKey (keys : List K) (k : K) : List K := if T.has keys k then keys else keys ++ [k]

/-- A new key does not fit. -/
def folds (cap : Nat) (keys : List K) (k : K) : Bool := !T.has keys k && decide (cap ≤ keys.length)

/-- The key a value is put under. -/
def route (cap : Nat) (keys : List K) (k : K) : K := if T.folds cap keys k then T.overflow else k

/-- The number of different keys. -/
def classes : List K → Nat
  | [] => 0
  | k :: keys => classes keys + if T.has keys k then 0 else 1

/-- A property that equal keys share. -/
def Respects (q : K → Bool) : Prop := ∀ a b, T.same a b = true → q a = q b

theorem respects_same (a : K) : T.Respects (T.same a) := fun _ _ h => T.same_congr_right h a

end Keys

/-! ### Maps -/

/-- Updates the entry of a key, or adds one. -/
def upsert (init : P) (f : P → Option P) : List (K × P) → K → Option (List (K × P))
  | [], k => (f init).map fun p => [(k, p)]
  | (k', p) :: m, k =>
      if T.same k k' then (f p).map fun p' => (k', p') :: m
      else (upsert init f m k).map ((k', p) :: ·)

/-- The entry of a key. -/
def find (m : List (K × P)) (k : K) : Option P := (m.find? fun e => T.same k e.1).map Prod.snd

/-- What an update does: it changes the point of one key and no other. -/
inductive Updated (init : P) (f : P → Option P) (m : List (K × P)) (k : K) : List (K × P) → Prop
  | old (before after : List (K × P)) (k' : K) (p p' : P) (hm : m = before ++ (k', p) :: after)
      (hfirst : ∀ e ∈ before, T.same k e.1 = false) (hsame : T.same k k' = true)
      (hp : f p = some p') : Updated init f m k (before ++ (k', p') :: after)
  | new (p' : P) (habsent : ∀ e ∈ m, T.same k e.1 = false) (hp : f init = some p') :
      Updated init f m k (m ++ [(k, p')])

variable {T}

theorem updated_of_upsert {init : P} {f : P → Option P} {m m' : List (K × P)} {k : K}
    (h : upsert T init f m k = some m') : Updated T init f m k m' := by
  induction m generalizing m' with
  | nil =>
      obtain ⟨p, hp, rfl⟩ := Option.map_eq_some_iff.mp h
      exact .new p (by simp) hp
  | cons e m ih =>
      obtain ⟨k', p⟩ := e
      rw [upsert] at h
      split at h
      · next hsame =>
        obtain ⟨p', hp, rfl⟩ := Option.map_eq_some_iff.mp h
        exact .old [] m k' p p' rfl (by simp) hsame hp
      · next hne =>
        obtain ⟨m₁, hm₁, rfl⟩ := Option.map_eq_some_iff.mp h
        rw [Bool.not_eq_true] at hne
        cases ih hm₁ with
        | old before after k₁ p₁ p₁' hm hfirst hsame hp =>
            rw [hm]
            refine .old ((k', p) :: before) after k₁ p₁ p₁' rfl ?_ hsame hp
            intro e he
            rcases List.mem_cons.mp he with rfl | he
            · exact hne
            · exact hfirst e he
        | new p' habsent hp =>
            refine .new p' ?_ hp
            intro e he
            rcases List.mem_cons.mp he with rfl | he
            · exact hne
            · exact habsent e he

/-! ### The values under each key -/

variable (T)

/-- Puts a value under a key. -/
def push : List (K × List X) → K → X → List (K × List X)
  | [], k, x => [(k, [x])]
  | (k', xs) :: m, k, x =>
      if T.same k k' then (k', xs ++ [x]) :: m else (k', xs) :: push m k x

/-- Puts values under their keys or the overflow key. -/
def fillFrom (cap : Nat) (m : List (K × List X)) (ms : List (K × X)) : List (K × List X) :=
  ms.foldl (fun m e => push T m (T.route cap (m.map Prod.fst) e.1) e.2) m

def fill (cap : Nat) (ms : List (K × X)) : List (K × List X) := fillFrom T cap [] ms

/-- The values with the keys they are put under. -/
def routedFrom (cap : Nat) : List K → List (K × X) → List (K × X)
  | _, [] => []
  | keys, (k, x) :: ms =>
      let k' := T.route cap keys k
      (k', x) :: routedFrom cap (T.addKey keys k') ms

def routed (cap : Nat) (ms : List (K × X)) : List (K × X) := routedFrom T cap [] ms

/-- How many values do not fit. -/
def foldedFrom (cap : Nat) : List K → List (K × X) → Nat
  | _, [] => 0
  | keys, (k, _) :: ms =>
      (if T.folds cap keys k then 1 else 0) +
        foldedFrom cap (T.addKey keys (T.route cap keys k)) ms

def folded (cap : Nat) (ms : List (K × X)) : Nat := foldedFrom T cap [] ms

/-- The values under the keys with a property. -/
def valuesOf (q : K → Bool) (m : List (K × List X)) : List X :=
  (m.filter fun e => q e.1).flatMap Prod.snd

/-- The values given for a key. -/
def given (a : K) (ms : List (K × X)) : List X := (ms.filter fun e => T.same a e.1).map Prod.snd

variable {T}

theorem keys_push (m : List (K × List X)) (k : K) (x : X) :
    (push T m k x).map Prod.fst = T.addKey (m.map Prod.fst) k := by
  induction m with
  | nil => simp [push, Keys.addKey, Keys.has]
  | cons e m ih =>
      obtain ⟨k', xs⟩ := e
      unfold push
      by_cases hsame : T.same k k' = true
      · simp [hsame, Keys.addKey, Keys.has]
      · rw [if_neg hsame, List.map_cons, ih]
        unfold Keys.addKey Keys.has
        simp only [List.map_cons, List.any_cons, Bool.not_eq_true] at hsame ⊢
        rw [hsame, Bool.false_or]
        split <;> rfl

theorem valuesOf_push {q : K → Bool} (hq : T.Respects q) (m : List (K × List X)) (k : K) (x : X) :
    (valuesOf q (push T m k x)).Perm (valuesOf q m ++ if q k then [x] else []) := by
  induction m with
  | nil =>
      unfold valuesOf push
      cases hk : q k <;> simp [hk]
  | cons e m ih =>
      obtain ⟨k', xs⟩ := e
      unfold push
      split
      · next hsame =>
        have hk := hq k k' hsame
        unfold valuesOf
        cases hk' : q k'
        · simp [hk, hk']
        · simp only [hk, hk', List.filter_cons, if_true, List.flatMap_cons, List.append_assoc]
          exact List.Perm.append_left xs List.perm_append_comm
      · unfold valuesOf at ih ⊢
        cases hk' : q k'
        · simpa [hk'] using ih
        · simp only [hk', List.filter_cons, if_true, List.flatMap_cons, List.append_assoc]
          exact ih.append_left xs

theorem find_push (m : List (K × List X)) (k : K) (x : X) (a : K) :
    ((find T (push T m k x) a).getD []) =
      (find T m a).getD [] ++ if T.same a k then [x] else [] := by
  induction m with
  | nil =>
      unfold push find
      cases hak : T.same a k <;> simp [hak]
  | cons e m ih =>
      obtain ⟨k', xs⟩ := e
      unfold push
      split
      · next hsame =>
        have hcongr := T.same_congr_right hsame a
        unfold find
        cases hk' : T.same a k'
        · simp [hcongr, hk']
        · simp [hcongr, hk']
      · next hne =>
        unfold find at ih ⊢
        cases hk' : T.same a k'
        · simpa [hk'] using ih
        · have hak : T.same a k = false := by
            rw [Bool.eq_false_iff]
            intro hak
            exact hne (T.trans k a k' (T.symm a k hak) hk')
          simp [hk', hak]

/-! ### Runs -/

section Runs

variable {cap : Nat}

theorem fillFrom_cons (m : List (K × List X)) (k : K) (x : X) (ms : List (K × X)) :
    fillFrom T cap m ((k, x) :: ms) =
      fillFrom T cap (push T m (T.route cap (m.map Prod.fst) k) x) ms := rfl

theorem fillFrom_append (m : List (K × List X)) (ms more : List (K × X)) :
    fillFrom T cap m (ms ++ more) = fillFrom T cap (fillFrom T cap m ms) more :=
  List.foldl_append

/-- The values under keys with a property are those routed there. -/
theorem valuesOf_fillFrom {q : K → Bool} (hq : T.Respects q) (m : List (K × List X))
    (ms : List (K × X)) :
    (valuesOf q (fillFrom T cap m ms)).Perm
      (valuesOf q m ++
        ((routedFrom T cap (m.map Prod.fst) ms).filter fun e => q e.1).map Prod.snd) := by
  induction ms generalizing m with
  | nil => simp [fillFrom, routedFrom]
  | cons e ms ih =>
      obtain ⟨k, x⟩ := e
      rw [fillFrom_cons]
      refine (ih _).trans ?_
      rw [keys_push, routedFrom]
      refine ((valuesOf_push hq m _ x).append_right _).trans ?_
      rw [List.append_assoc]
      refine List.Perm.append_left _ ?_
      cases hk : q (T.route cap (m.map Prod.fst) k) <;> simp [hk]

/-- And those under one key, in the order they came. -/
theorem find_fillFrom (m : List (K × List X)) (ms : List (K × X)) (a : K) :
    (find T (fillFrom T cap m ms) a).getD [] =
      (find T m a).getD [] ++ given T a (routedFrom T cap (m.map Prod.fst) ms) := by
  induction ms generalizing m with
  | nil => simp [fillFrom, routedFrom, given]
  | cons e ms ih =>
      obtain ⟨k, x⟩ := e
      rw [fillFrom_cons, ih, keys_push, routedFrom, find_push, List.append_assoc]
      refine congrArg _ ?_
      unfold given
      cases hk : T.same a (T.route cap (m.map Prod.fst) k) <;> simp [hk]

theorem map_snd_routedFrom (keys : List K) (ms : List (K × X)) :
    (routedFrom T cap keys ms).map Prod.snd = ms.map Prod.snd := by
  induction ms generalizing keys with
  | nil => rfl
  | cons e ms ih => rw [routedFrom, List.map_cons, List.map_cons, ih]

/-- Nothing is lost. -/
theorem values_fill (ms : List (K × X)) :
    (valuesOf (fun _ => true) (fill T cap ms)).Perm (ms.map Prod.snd) := by
  have hall : T.Respects fun _ => true := fun _ _ _ => rfl
  have h := @valuesOf_fillFrom K X T cap _ hall [] ms
  simpa [valuesOf, fill, map_snd_routedFrom] using h

theorem foldedFrom_concat (m : List (K × List X)) (ms : List (K × X)) (k : K) (x : X) :
    foldedFrom T cap (m.map Prod.fst) (ms ++ [(k, x)]) =
      foldedFrom T cap (m.map Prod.fst) ms +
        if T.folds cap ((fillFrom T cap m ms).map Prod.fst) k then 1 else 0 := by
  induction ms generalizing m with
  | nil => exact Nat.add_comm _ 0
  | cons e ms ih =>
      obtain ⟨k', x'⟩ := e
      rw [List.cons_append, foldedFrom, foldedFrom, fillFrom_cons, ← keys_push _ _ x',
        ih, add_assoc]

/-! ### The number of keys -/

namespace Keys

variable {keys : List K} {k a : K}

theorem has_eq_true : T.has keys k = true ↔ ∃ k' ∈ keys, T.same k k' = true := List.any_eq_true

theorem has_congr (h : T.same k a = true) : T.has keys k = T.has keys a := by
  unfold has
  exact congrArg (List.any keys) (funext (T.same_congr h))

theorem has_filter_of_ne (h : T.same k a = false) :
    T.has (keys.filter fun k' => !T.same k k') a = T.has keys a := by
  rw [Bool.eq_iff_iff, has_eq_true, has_eq_true]
  constructor
  · rintro ⟨k', hk', hsame⟩
    exact ⟨k', List.mem_of_mem_filter hk', hsame⟩
  · rintro ⟨k', hk', hsame⟩
    refine ⟨k', List.mem_filter.mpr ⟨hk', ?_⟩, hsame⟩
    rw [← T.same_congr_right hsame k, h]
    rfl

/-- Leaving out one key leaves out one class, if it is there. -/
theorem classes_filter (k : K) (keys : List K) :
    T.classes keys =
      T.classes (keys.filter fun k' => !T.same k k') + if T.has keys k then 1 else 0 := by
  induction keys with
  | nil => rfl
  | cons a keys ih =>
      rw [classes, ih]
      cases hka : T.same k a with
      | true =>
          have hhas : T.has (a :: keys) k = true := has_eq_true.mpr ⟨a, by simp, hka⟩
          rw [← has_congr hka, hhas, List.filter_cons_of_neg (by simp [hka]), add_assoc]
          cases T.has keys k <;> rfl
      | false =>
          have hhas : T.has (a :: keys) k = T.has keys k := by
            unfold has
            rw [List.any_cons, hka, Bool.false_or]
          rw [hhas, List.filter_cons_of_pos (by simp [hka]), classes, has_filter_of_ne hka]
          omega

theorem classes_cons (k : K) (keys : List K) :
    T.classes (k :: keys) = T.classes (keys.filter fun k' => !T.same k k') + 1 := by
  rw [classes, classes_filter k keys, add_assoc]
  cases T.has keys k <;> rfl

/-- Fewer keys have fewer classes. -/
theorem classes_sublist {keys' : List K} (h : keys'.Sublist keys) :
    T.classes keys' ≤ T.classes keys := by
  induction hn : keys.length using Nat.strong_induction_on generalizing keys keys' with
  | _ n ih =>
  cases h with
  | slnil => exact le_refl _
  | cons a h =>
      rw [List.length_cons] at hn
      refine (ih _ (by omega) h rfl).trans ?_
      rw [classes]
      exact Nat.le_add_right _ _
  | @cons_cons _ keys₂ a h =>
      rw [List.length_cons] at hn
      rw [classes_cons, classes_cons]
      refine Nat.succ_le_succ (ih _ ?_ (h.filter _) rfl)
      have hle := List.length_filter_le (fun k' => !T.same a k') keys₂
      omega

theorem has_append (k : K) (keys : List K) (a : K) :
    T.has (keys ++ [a]) k = (T.has keys k || T.same k a) := by
  unfold has
  rw [List.any_append, List.any_cons, List.any_nil, Bool.or_false]

theorem filter_absent_append (keys : List K) (a : K) (rest : List K) :
    (rest.filter fun k => !T.has (keys ++ [a]) k) =
      (rest.filter fun k => !T.has keys k).filter fun k => !T.same a k := by
  rw [List.filter_filter]
  refine List.filter_congr ?_
  intro k _
  rw [has_append, T.same_comm k a, Bool.not_or, Bool.and_comm]

theorem folds_of_has {cap : Nat} (h : T.has keys k = true) : T.folds cap keys k = false := by
  unfold folds
  rw [h]
  rfl

theorem folds_of_room {cap : Nat} (h : keys.length < cap) : T.folds cap keys k = false := by
  unfold folds
  rw [decide_eq_false (by omega), Bool.and_false]

end Keys

/-- With room for every class nothing is folded. -/
theorem routedFrom_of_classes {keys : List K} {ms : List (K × X)}
    (h : keys.length + T.classes ((ms.map Prod.fst).filter fun k => !T.has keys k) ≤ cap) :
    routedFrom T cap keys ms = ms ∧ foldedFrom T cap keys ms = 0 := by
  induction ms generalizing keys with
  | nil => exact ⟨rfl, rfl⟩
  | cons e ms ih =>
      obtain ⟨k, x⟩ := e
      rw [List.map_cons] at h
      cases hhas : T.has keys k with
      | true =>
          rw [List.filter_cons_of_neg (by simp [hhas])] at h
          have hfolds : T.folds cap keys k = false := Keys.folds_of_has hhas
          have hadd : T.addKey keys k = keys := if_pos hhas
          simp only [routedFrom, foldedFrom, Keys.route, hfolds, hadd, Bool.false_eq_true, if_false,
            ih h, and_self]
      | false =>
          rw [List.filter_cons_of_pos (by simp [hhas]), Keys.classes_cons,
            ← Keys.filter_absent_append] at h
          dsimp only at h
          have hfolds : T.folds cap keys k = false := Keys.folds_of_room (by omega)
          have hadd : T.addKey keys k = keys ++ [k] := if_neg (by simp [hhas])
          have hrest := @ih (keys ++ [k])
            (by rw [List.length_append, List.length_singleton]; omega)
          simp only [routedFrom, foldedFrom, Keys.route, hfolds, hadd, Bool.false_eq_true, if_false,
            hrest, and_self]

/-- If nothing is folded every value is under its own key. -/
theorem routedFrom_of_folded {keys : List K} {ms : List (K × X)}
    (h : foldedFrom T cap keys ms = 0) : routedFrom T cap keys ms = ms := by
  induction ms generalizing keys with
  | nil => rfl
  | cons e ms ih =>
      obtain ⟨k, x⟩ := e
      rw [foldedFrom, Nat.add_eq_zero_iff] at h
      have hfolds : T.folds cap keys k = false := by
        rw [Bool.eq_false_iff]
        intro hfolds
        rw [if_pos hfolds] at h
        exact Nat.one_ne_zero h.1
      have hroute : T.route cap keys k = k := by
        unfold Keys.route
        rw [hfolds]
        rfl
      rw [hroute] at h
      rw [routedFrom, hroute, ih h.2]

theorem routed_of_classes {ms : List (K × X)} (h : T.classes (ms.map Prod.fst) ≤ cap) :
    routed T cap ms = ms ∧ folded T cap ms = 0 := by
  refine routedFrom_of_classes ?_
  have hall : ((ms.map Prod.fst).filter fun k => !T.has [] k) = ms.map Prod.fst :=
    List.filter_eq_self.mpr fun _ _ => rfl
  rw [hall, List.length_nil, Nat.zero_add]
  exact h

variable (T) in
/-- One key more than the limit at most, and then it is the overflow key. -/
def Capped (cap : Nat) (keys : List K) : Prop :=
  keys.length ≤ cap ∨ T.has keys T.overflow = true ∧ keys.length ≤ cap + 1

theorem Capped.addKey {keys : List K} (h : Capped T cap keys) (k : K) :
    Capped T cap (T.addKey keys (T.route cap keys k)) := by
  unfold Keys.route
  cases hfolds : T.folds cap keys k with
  | true =>
      rw [if_pos rfl]
      unfold Keys.addKey
      split
      · exact h
      · next habsent =>
        rcases h with h | ⟨hhas, -⟩
        · right
          refine ⟨?_, ?_⟩
          · rw [Keys.has_append, T.overflow_self, Bool.or_true]
          · rw [List.length_append, List.length_singleton]
            omega
        · exact absurd hhas habsent
  | false =>
      rw [if_neg (by simp)]
      unfold Keys.addKey
      split
      · exact h
      · next habsent =>
        left
        unfold Keys.folds at hfolds
        rw [Bool.not_eq_true] at habsent
        rw [habsent] at hfolds
        have hroom : ¬ cap ≤ keys.length := by simpa using hfolds
        rw [List.length_append, List.length_singleton]
        omega

theorem capped_fillFrom {m : List (K × List X)} (h : Capped T cap (m.map Prod.fst))
    (ms : List (K × X)) : Capped T cap ((fillFrom T cap m ms).map Prod.fst) := by
  induction ms generalizing m with
  | nil => exact h
  | cons e ms ih =>
      refine ih ?_
      rw [keys_push]
      exact h.addKey e.1

theorem length_fill_le (ms : List (K × X)) : (fill T cap ms).length ≤ cap + 1 := by
  have h := @capped_fillFrom K X T cap [] (.inl (Nat.zero_le _)) ms
  rcases h with h | ⟨-, h⟩
  · rw [List.length_map] at h
    exact Nat.le_succ_of_le h
  · rw [List.length_map] at h
    exact h

/-! ### The entries -/

/-- No two keys are equal. -/
theorem pairwise_addKey {keys : List K} (h : keys.Pairwise fun a b => T.same a b = false) (k : K) :
    (T.addKey keys k).Pairwise fun a b => T.same a b = false := by
  unfold Keys.addKey
  split
  · exact h
  · next habsent =>
    refine List.pairwise_append.mpr ⟨h, List.pairwise_singleton _ _, ?_⟩
    intro a ha b hb
    obtain rfl := List.mem_singleton.mp hb
    rw [T.same_comm, Bool.eq_false_iff]
    exact fun hsame => habsent (Keys.has_eq_true.mpr ⟨a, ha, hsame⟩)

theorem pairwise_fillFrom {m : List (K × List X)}
    (h : (m.map Prod.fst).Pairwise fun a b => T.same a b = false) (ms : List (K × X)) :
    ((fillFrom T cap m ms).map Prod.fst).Pairwise fun a b => T.same a b = false := by
  induction ms generalizing m with
  | nil => exact h
  | cons e ms ih =>
      refine ih ?_
      rw [keys_push]
      exact pairwise_addKey h _

/-- So the entries of a key are the one that is found. -/
theorem filter_eq_find {m : List (K × P)}
    (h : (m.map Prod.fst).Pairwise fun a b => T.same a b = false) (a : K) :
    (m.filter fun e => T.same a e.1).map Prod.snd = (find T m a).toList := by
  induction m with
  | nil => rfl
  | cons e m ih =>
      rw [List.map_cons, List.pairwise_cons] at h
      unfold find at ih ⊢
      cases hae : T.same a e.1 with
      | false => simpa [hae] using ih h.2
      | true =>
          have hnone : (m.filter fun e => T.same a e.1) = [] := by
            refine List.filter_eq_nil_iff.mpr ?_
            intro e' he' hae'
            have hne := h.1 e'.1 (List.mem_map_of_mem he')
            rw [T.trans e.1 a e'.1 (T.symm a e.1 hae) hae'] at hne
            cases hne
          simp [hae, hnone]

theorem ne_nil_push {m : List (K × List X)} (h : ∀ e ∈ m, e.2 ≠ []) (k : K) (x : X) :
    ∀ e ∈ push T m k x, e.2 ≠ [] := by
  induction m with
  | nil => simp [push]
  | cons e m ih =>
      obtain ⟨k', xs⟩ := e
      have hrest : ∀ e ∈ m, e.2 ≠ [] := fun e he => h e (List.mem_cons_of_mem _ he)
      unfold push
      split
      · intro e he
        rcases List.mem_cons.mp he with rfl | he
        · simp
        · exact hrest e he
      · intro e he
        rcases List.mem_cons.mp he with rfl | he
        · exact h _ (List.mem_cons_self ..)
        · exact ih hrest e he

theorem ne_nil_fillFrom {m : List (K × List X)} (h : ∀ e ∈ m, e.2 ≠ []) (ms : List (K × X)) :
    ∀ e ∈ fillFrom T cap m ms, e.2 ≠ [] := by
  induction ms generalizing m with
  | nil => exact h
  | cons e ms ih => exact ih (ne_nil_push h _ e.2)

theorem push_of_absent {m : List (K × List X)} {k : K} (h : ∀ e ∈ m, T.same k e.1 = false) (x : X) :
    push T m k x = m ++ [(k, [x])] := by
  induction m with
  | nil => rfl
  | cons e m ih =>
      obtain ⟨k', xs⟩ := e
      rw [push, h _ List.mem_cons_self, if_neg (by simp),
        ih fun e he => h e (List.mem_cons_of_mem _ he)]
      rfl

/-- Values under different keys, with room for all, are each on their own. -/
theorem fillFrom_of_distinct {m : List (K × List X)} {ms : List (K × X)}
    (hdistinct : (m.map Prod.fst ++ ms.map Prod.fst).Pairwise fun a b => T.same a b = false)
    (hroom : m.length + ms.length ≤ cap) :
    fillFrom T cap m ms = m ++ ms.map fun e => (e.1, [e.2]) := by
  induction ms generalizing m with
  | nil => simp [fillFrom]
  | cons e ms ih =>
      obtain ⟨k, x⟩ := e
      rw [List.length_cons] at hroom
      have habsent : ∀ e ∈ m, T.same k e.1 = false := by
        intro e he
        rw [T.same_comm]
        exact (List.pairwise_append.mp hdistinct).2.2 e.1 (List.mem_map_of_mem he) k (by simp)
      have hroute : T.route cap (m.map Prod.fst) k = k := by
        unfold Keys.route
        rw [Keys.folds_of_room (by rw [List.length_map]; omega)]
        rfl
      rw [fillFrom_cons, hroute, push_of_absent habsent, ih]
      · rw [List.append_assoc]
        rfl
      · simpa using hdistinct
      · rw [List.length_append, List.length_singleton]
        omega

/-- An entry keeps its values and only gains more. -/
theorem mem_push {m : List (K × List X)} {k' : K} {xs : List X} (h : (k', xs) ∈ m) (k : K) (x : X) :
    (k', xs) ∈ push T m k x ∨ (k', xs ++ [x]) ∈ push T m k x := by
  induction m with
  | nil => cases h
  | cons e m ih =>
      obtain ⟨k₁, ys⟩ := e
      unfold push
      split
      · rcases List.mem_cons.mp h with heq | h
        · obtain ⟨rfl, rfl⟩ := Prod.mk.inj heq
          exact .inr List.mem_cons_self
        · exact .inl (List.mem_cons_of_mem _ h)
      · rcases List.mem_cons.mp h with heq | h
        · rw [heq]
          exact .inl List.mem_cons_self
        · exact (ih h).imp (List.mem_cons_of_mem _) (List.mem_cons_of_mem _)

theorem mem_fillFrom {m : List (K × List X)} {k : K} {xs : List X} (h : (k, xs) ∈ m)
    (ms : List (K × X)) :
    ∃ more, (k, xs ++ more) ∈ fillFrom T cap m ms ∧ more ⊆ ms.map Prod.snd := by
  induction ms generalizing m xs with
  | nil => exact ⟨[], by rw [List.append_nil]; exact h, List.nil_subset _⟩
  | cons e ms ih =>
      obtain ⟨k', x⟩ := e
      rw [fillFrom_cons]
      rcases mem_push h (T.route cap (m.map Prod.fst) k') x with hmem | hmem
      · obtain ⟨more, hmore, hsub⟩ := ih hmem
        exact ⟨more, hmore, List.Subset.trans hsub (List.subset_cons_self _ _)⟩
      · obtain ⟨more, hmore, hsub⟩ := ih hmem
        refine ⟨x :: more, ?_, List.cons_subset_cons _ hsub⟩
        rw [List.append_assoc, List.singleton_append] at hmore
        exact hmore

end Runs

/-! ### Folding the values of each key -/

section Image

variable (init : P) (upd : P → X → Option P)

/-- The map with the values of each key folded. -/
def image (m : List (K × List X)) : Option (List (K × P)) :=
  m.mapM fun e => (e.2.foldlM upd init).map (e.1, ·)

variable {init upd}

theorem image_cons {k : K} {xs : List X} {m : List (K × List X)} {n : List (K × P)} :
    image init upd ((k, xs) :: m) = some n ↔
      ∃ p n', xs.foldlM upd init = some p ∧ image init upd m = some n' ∧ n = (k, p) :: n' := by
  unfold image
  rw [List.mapM_cons]
  constructor
  · intro h
    obtain ⟨e, he, h⟩ := Option.bind_eq_some_iff.mp h
    obtain ⟨p, hp, rfl⟩ := Option.map_eq_some_iff.mp he
    obtain ⟨n', hn', h⟩ := Option.bind_eq_some_iff.mp h
    exact ⟨p, n', hp, hn', (Option.some.inj h).symm⟩
  · rintro ⟨p, n', hp, hn', rfl⟩
    simp only [hp, hn', Option.map_some]
    rfl

theorem image_returns (h : ∀ xs : List X, ∃ p, xs.foldlM upd init = some p)
    (m : List (K × List X)) : ∃ n, image init upd m = some n := by
  induction m with
  | nil => exact ⟨[], rfl⟩
  | cons e m ih =>
      obtain ⟨p, hp⟩ := h e.2
      obtain ⟨n, hn⟩ := ih
      exact ⟨_, image_cons.mpr ⟨p, n, hp, hn, rfl⟩⟩

/-- One value more is one update more. -/
theorem image_push {m : List (K × List X)} {n : List (K × P)} (h : image init upd m = some n)
    (k : K) (x : X) : image init upd (push T m k x) = upsert T init (upd · x) n k := by
  induction m generalizing n with
  | nil =>
      obtain rfl : n = [] := (Option.some.inj h).symm
      unfold push upsert image
      cases hp : upd init x <;> simp [hp]
  | cons e m ih =>
      obtain ⟨k', xs⟩ := e
      obtain ⟨p, n', hp, hn', rfl⟩ := image_cons.mp h
      unfold push upsert
      split
      · refine Option.ext fun n => ?_
        rw [image_cons, List.foldlM_append, hp]
        simp [hn', eq_comm]
      · rw [← ih hn']
        refine Option.ext fun n => ?_
        rw [image_cons, hp]
        simp [eq_comm]

theorem image_keys {m : List (K × List X)} {n : List (K × P)} (h : image init upd m = some n) :
    n.map Prod.fst = m.map Prod.fst := by
  induction m generalizing n with
  | nil =>
      obtain rfl : n = [] := (Option.some.inj h).symm
      rfl
  | cons e m ih =>
      obtain ⟨k, xs⟩ := e
      obtain ⟨p, n', -, hn', rfl⟩ := image_cons.mp h
      rw [List.map_cons, List.map_cons, ih hn']

/-- The points of the keys with a property. -/
theorem image_filter {m : List (K × List X)} {n : List (K × P)} (h : image init upd m = some n)
    (q : K → Bool) :
    image init upd (m.filter fun e => q e.1) = some (n.filter fun e => q e.1) := by
  induction m generalizing n with
  | nil =>
      obtain rfl : n = [] := (Option.some.inj h).symm
      rfl
  | cons e m ih =>
      obtain ⟨k, xs⟩ := e
      obtain ⟨p, n', hp, hn', rfl⟩ := image_cons.mp h
      cases hq : q k with
      | false => simpa [hq] using ih hn'
      | true =>
          rw [List.filter_cons_of_pos (by exact hq), List.filter_cons_of_pos (by exact hq)]
          exact image_cons.mpr ⟨p, _, hp, ih hn', rfl⟩

/-- Each point is what its own values fold to. -/
theorem image_forall₂ {m : List (K × List X)} {n : List (K × P)} (h : image init upd m = some n) :
    List.Forall₂ (fun xs p => xs.foldlM upd init = some p) (m.map Prod.snd) (n.map Prod.snd) := by
  induction m generalizing n with
  | nil =>
      obtain rfl : n = [] := (Option.some.inj h).symm
      exact .nil
  | cons e m ih =>
      obtain ⟨k, xs⟩ := e
      obtain ⟨p, n', hp, hn', rfl⟩ := image_cons.mp h
      exact .cons hp (ih hn')

end Image

end CappedMap
