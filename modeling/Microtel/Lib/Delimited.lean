import Mathlib.Tactic
import Mathlib.Data.List.DropRight

/-!
Text in parts: cutting at the first or the last separator or at the first occurrence
of a pattern, trimming padding at both ends, and the pieces between separators. Each
operation comes with the equation that undoes the corresponding way to put a text together.
-/

namespace Delimited

variable {α : Type}

/-! ### The first separator -/

section Cut

variable [DecidableEq α] (sep : α)

/-- What stands before the first separator and, if there is one, what follows it. -/
def cut : List α → List α × Option (List α)
  | [] => ([], none)
  | a :: text =>
      if a = sep then ([], some text)
      else
        let (before, after) := cut text
        (a :: before, after)

variable {sep}

theorem cut_of_notMem {text : List α} (h : sep ∉ text) : cut sep text = (text, none) := by
  induction text with
  | nil => rfl
  | cons a text ih =>
      have hne : a ≠ sep := fun heq => h (by simp [heq])
      have hrest : sep ∉ text := fun hmem => h (by simp [hmem])
      simp [cut, hne, ih hrest]

theorem cut_append {before : List α} (h : sep ∉ before) (after : List α) :
    cut sep (before ++ sep :: after) = (before, some after) := by
  induction before with
  | nil => simp [cut]
  | cons a before ih =>
      have hne : a ≠ sep := fun heq => h (by simp [heq])
      have hrest : sep ∉ before := fun hmem => h (by simp [hmem])
      simp [cut, hne, ih hrest]

theorem cut_eq_some {text before after : List α} (h : cut sep text = (before, some after)) :
    text = before ++ sep :: after := by
  induction text generalizing before with
  | nil => simp [cut] at h
  | cons a text ih =>
      unfold cut at h
      split at h
      · next heq =>
        obtain ⟨rfl, hafter⟩ := Prod.mk.inj h
        rw [heq, Option.some.inj hafter]
        rfl
      · obtain ⟨hbefore, hafter⟩ := Prod.mk.inj h
        rw [ih (Prod.ext rfl hafter), ← hbefore]
        rfl

variable (sep) in
/-- The same at the last separator. -/
def cutLast (text : List α) : List α × Option (List α) :=
  match cut sep text.reverse with
  | (_, none) => (text, none)
  | (after, some before) => (before.reverse, some after.reverse)

theorem cutLast_of_notMem {text : List α} (h : sep ∉ text) : cutLast sep text = (text, none) := by
  have hreverse : sep ∉ text.reverse := fun hmem => h (List.mem_reverse.mp hmem)
  rw [cutLast, cut_of_notMem hreverse]

theorem cutLast_append (before : List α) {after : List α} (h : sep ∉ after) :
    cutLast sep (before ++ sep :: after) = (before, some after) := by
  have hreverse : sep ∉ after.reverse := fun hmem => h (List.mem_reverse.mp hmem)
  have htext : (before ++ sep :: after).reverse = after.reverse ++ sep :: before.reverse := by simp
  rw [cutLast, htext, cut_append hreverse]
  simp

omit [DecidableEq α] in
/-- Where there is a separator there is a last one. -/
theorem exists_last {text : List α} (h : sep ∈ text) :
    ∃ before after, text = before ++ sep :: after ∧ sep ∉ after := by
  obtain ⟨after, before, hreverse, hafter⟩ :=
    List.eq_append_cons_of_mem (List.mem_reverse.mpr h)
  refine ⟨before.reverse, after.reverse, ?_, fun hmem => hafter (List.mem_reverse.mp hmem)⟩
  rw [← List.reverse_reverse text, hreverse]
  simp

end Cut

/-! ### The first occurrence of a pattern -/

section Pattern

variable [DecidableEq α]

/-- What stands before the pattern and what follows it. -/
def cutAt (pattern : List α) : List α → Option (List α × List α)
  | [] => if pattern = [] then some ([], []) else none
  | a :: text =>
      if pattern <+: a :: text then some ([], (a :: text).drop pattern.length)
      else (cutAt pattern text).map fun parts => (a :: parts.1, parts.2)

theorem cutAt_append {first : α} {rest before : List α} (h : first ∉ before) (after : List α) :
    cutAt (first :: rest) (before ++ (first :: rest ++ after)) = some (before, after) := by
  induction before with
  | nil => simp [cutAt]
  | cons a before ih =>
      have hne : first ≠ a := fun heq => h (by simp [heq])
      have hbefore : first ∉ before := fun hmem => h (by simp [hmem])
      have hprefix : ¬ first :: rest <+: a :: (before ++ (first :: rest ++ after)) := by
        rw [List.cons_prefix_cons]
        exact fun heq => hne heq.1
      rw [List.cons_append, cutAt, if_neg hprefix, ih hbefore]
      rfl

end Pattern

/-! ### Padding -/

section Trim

variable (pad : α → Bool)

/-- Without the padding at both ends. -/
def trim (text : List α) : List α := (text.dropWhile pad).rdropWhile pad

/-- Neither end of the text is padding. -/
structure Bare (text : List α) : Prop where
  head : ∀ a ∈ text.head?, pad a = false
  last : ∀ a ∈ text.getLast?, pad a = false

variable {pad}

theorem dropWhile_append_bare {padding text : List α} (hpad : ∀ a ∈ padding, pad a = true)
    (hhead : ∀ a ∈ text.head?, pad a = false) : (padding ++ text).dropWhile pad = text := by
  rw [List.dropWhile_append_of_pos hpad]
  cases text with
  | nil => rfl
  | cons a text =>
      have ha : pad a = false := hhead a (by simp)
      rw [List.dropWhile_cons_of_neg (by simp [ha])]

/-- Padding around a bare text is what `trim` takes away. -/
theorem trim_padded {left text right : List α} (hleft : ∀ a ∈ left, pad a = true)
    (hright : ∀ a ∈ right, pad a = true) (hbare : Bare pad text) :
    trim pad (left ++ text ++ right) = text := by
  unfold trim
  by_cases hnil : text = []
  · subst hnil
    have hall : ∀ a ∈ left ++ [] ++ right, pad a = true := by
      intro a ha
      rcases List.mem_append.mp ha with ha | ha
      · exact hleft a (by simpa using ha)
      · exact hright a ha
    rw [List.dropWhile_eq_nil_iff.mpr hall]
    simp
  · have hhead : ∀ a ∈ (text ++ right).head?, pad a = false := by
      intro a ha
      rw [List.head?_append_of_ne_nil _ hnil] at ha
      exact hbare.head a ha
    rw [List.append_assoc, dropWhile_append_bare hleft hhead]
    unfold List.rdropWhile
    have hlast : ∀ a ∈ text.reverse.head?, pad a = false := by
      intro a ha
      rw [List.head?_reverse] at ha
      exact hbare.last a ha
    have hpadding : ∀ a ∈ right.reverse, pad a = true := by
      intro a ha
      exact hright a (by simpa using ha)
    rw [List.reverse_append, dropWhile_append_bare hpadding hlast, List.reverse_reverse]

theorem trim_bare {text : List α} (h : Bare pad text) : trim pad text = text := by
  have hnone : ∀ a ∈ ([] : List α), pad a = true := by simp
  have hpadded := trim_padded hnone hnone h
  simpa using hpadded

/-- A trimmed text is bare, and only padding was taken away. -/
theorem trim_spec (text : List α) :
    Bare pad (trim pad text) ∧
      ∃ left right, text = left ++ trim pad text ++ right ∧
        (∀ a ∈ left, pad a = true) ∧ ∀ a ∈ right, pad a = true := by
  have hdrop := List.takeWhile_append_dropWhile (p := pad) (l := text)
  have hrdrop : trim pad text ++ (text.dropWhile pad).rtakeWhile pad = text.dropWhile pad :=
    List.rdropWhile_append_rtakeWhile
  refine ⟨⟨?_, ?_⟩, text.takeWhile pad, (text.dropWhile pad).rtakeWhile pad, ?_, ?_, ?_⟩
  · intro a ha
    have hprefix : trim pad text <+: text.dropWhile pad :=
      List.rdropWhile_prefix pad _
    obtain ⟨rest, hrest⟩ := hprefix
    have hhead : (text.dropWhile pad).head? = some a := by
      rw [← hrest, List.head?_append_of_ne_nil _ (List.ne_nil_of_mem (List.mem_of_head? ha))]
      exact ha
    have hne : text.dropWhile pad ≠ [] := List.ne_nil_of_mem (List.mem_of_head? hhead)
    have hfirst := List.head_dropWhile_not pad hne
    rw [List.head?_eq_some_head hne] at hhead
    rw [Option.some.inj hhead] at hfirst
    simpa using hfirst
  · intro a ha
    have hne : trim pad text ≠ [] := List.ne_nil_of_mem (List.mem_of_getLast? ha)
    have hlast := List.rdropWhile_last_not pad (text.dropWhile pad) hne
    rw [List.getLast?_eq_some_getLast hne] at ha
    have heq : (trim pad text).getLast hne = a := by simpa using ha
    unfold trim at heq
    rw [heq] at hlast
    simpa using hlast
  · rw [List.append_assoc, hrdrop, hdrop]
  · intro a ha
    exact List.mem_takeWhile_imp ha
  · intro a ha
    exact List.mem_rtakeWhile_imp ha

theorem trim_eq_nil_iff {text : List α} : trim pad text = [] ↔ ∀ a ∈ text, pad a = true := by
  constructor
  · intro h
    obtain ⟨-, left, right, heq, hleft, hright⟩ := @trim_spec _ pad text
    rw [h] at heq
    intro a ha
    rw [heq] at ha
    rcases List.mem_append.mp ha with ha | ha
    · exact hleft a (by simpa using ha)
    · exact hright a ha
  · intro h
    unfold trim
    rw [List.dropWhile_eq_nil_iff.mpr h]
    simp

theorem bare_of_forall {text : List α} (h : ∀ a ∈ text, pad a = false) : Bare pad text where
  head a ha := h a (List.mem_of_head? ha)
  last a ha := h a (List.mem_of_getLast? ha)

end Trim

/-! ### Pieces put together one by one -/

section Push

variable {sep : α}

/-- A piece behind what is already there, with a separator between two pieces. -/
def push (sep : α) (text piece : List α) : List α :=
  (if text = [] then text else text ++ [sep]) ++ piece

theorem push_of_ne_nil {text : List α} (h : text ≠ []) (piece : List α) :
    push sep text piece = text ++ [sep] ++ piece := by
  rw [push, if_neg h]

theorem foldl_push_cons (text : List α) (pieces : List (List α)) (h : text ≠ []) :
    pieces.foldl (push sep) text = [sep].intercalate (text :: pieces) := by
  induction pieces generalizing text with
  | nil => simp
  | cons piece pieces ih =>
      rw [List.foldl_cons, push_of_ne_nil h, ih _ (by simp), List.intercalate_cons_cons]
      cases pieces with
      | nil => simp
      | cons piece' pieces =>
          simp only [List.intercalate_cons_cons, List.append_assoc]

theorem foldl_push {pieces : List (List α)} (h : ∀ piece ∈ pieces, piece ≠ []) :
    pieces.foldl (push sep) [] = [sep].intercalate pieces := by
  cases pieces with
  | nil => simp
  | cons piece pieces =>
      rw [List.foldl_cons]
      exact foldl_push_cons piece pieces (h piece (by simp))

/-- Pieces without separators come back from the text they were pushed onto. -/
theorem splitOn_foldl_push [DecidableEq α] {pieces : List (List α)} (hsome : pieces ≠ [])
    (h : ∀ piece ∈ pieces, piece ≠ []) (hsep : ∀ piece ∈ pieces, sep ∉ piece) :
    (pieces.foldl (push sep) []).splitOn sep = pieces := by
  rw [foldl_push h]
  exact List.splitOn_intercalate sep hsep hsome

theorem mem_foldl_push {pieces : List (List α)} {text : List α} {a : α}
    (h : a ∈ pieces.foldl (push sep) text) : a ∈ text ∨ a = sep ∨ ∃ piece ∈ pieces, a ∈ piece := by
  induction pieces generalizing text with
  | nil => exact .inl h
  | cons piece pieces ih =>
      rcases ih h with hmem | hsep | ⟨p, hp, ha⟩
      · unfold push at hmem
        split at hmem
        · grind
        · grind
      · exact .inr (.inl hsep)
      · exact .inr (.inr ⟨p, by simp [hp], ha⟩)

theorem length_foldl_push {pieces : List (List α)} (h : ∀ piece ∈ pieces, piece ≠ []) :
    (pieces.foldl (push sep) []).length =
      (pieces.map List.length).sum + (pieces.length - 1) := by
  rw [foldl_push h]
  clear h
  induction pieces with
  | nil => simp
  | cons piece pieces ih =>
      cases pieces with
      | nil => simp
      | cons piece' pieces =>
          rw [List.intercalate_cons_cons, List.length_append, List.length_append, ih]
          simp
          omega

end Push

end Delimited
