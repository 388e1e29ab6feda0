import Microtel.Api.TraceStateGrammar

/-!
The states a program can build with `FromHeader`, `Set` and `Erase`: what they
keep, and that a header carries them unchanged.
-/

namespace Microtel.Api.TraceState

open Delimited

inductive Reachable : TraceState → Prop
  | default : Reachable {}
  | fromHeader (header : Bytes) : Reachable (fromHeader header)
  | set {s : TraceState} (h : Reachable s) (key value : Bytes) : Reachable (s.set key value)
  | erase {s : TraceState} (h : Reachable s) (key : Bytes) : Reachable (s.erase key)

structure Valid (s : TraceState) : Prop where
  /-- The empty state is the null pointer. -/
  sealed : s.entries ≠ some []
  legal : ∀ e ∈ s.list, Key e.key ∧ Value e.value
  distinct : (s.list.map Entry.key).Nodup
  few : s.size ≤ kMaxEntries

theorem get_isSome_iff (s : TraceState) (key : Bytes) :
    (s.get key).isSome = true ↔ key ∈ s.list.map Entry.key := by
  simp [get]

/-! ### Set and Erase -/

section

variable {s : TraceState} {key value : Bytes}

theorem set_list (hkey : Key key) (hvalue : Value value)
    (hroom : key ∈ s.list.map Entry.key ∨ s.size < kMaxEntries) :
    (s.set key value).entries =
      some ({ key, value } :: s.list.filter fun e => e.key ≠ key) := by
  have hfits : (!(s.get key).isSome && decide (kMaxEntries ≤ s.size)) = false := by
    rcases hroom with hmem | hlt
    · rw [(get_isSome_iff s key).mpr hmem]
      rfl
    · have : ¬ kMaxEntries ≤ s.size := by omega
      simp [this]
  unfold set
  dsimp only
  rw [hfits, (isValidKey_iff key).mpr hkey, (isValidValue_iff value).mpr hvalue]
  simp [appendExcept]

theorem set_refused
    (h : ¬ (Key key ∧ Value value ∧ (key ∈ s.list.map Entry.key ∨ s.size < kMaxEntries))) :
    s.set key value = s := by
  unfold set
  dsimp only
  rw [if_pos]
  by_contra hpass
  rw [Bool.not_eq_true, Bool.or_eq_false_iff, Bool.or_eq_false_iff, Bool.not_eq_false',
    Bool.not_eq_false'] at hpass
  obtain ⟨⟨hkey, hvalue⟩, hfits⟩ := hpass
  refine h ⟨(isValidKey_iff key).mp hkey, (isValidValue_iff value).mp hvalue, ?_⟩
  rw [← get_isSome_iff]
  rcases Bool.and_eq_false_iff.mp hfits with hmem | hlt
  · rw [Bool.not_eq_false'] at hmem
    exact .inl hmem
  · exact .inr (Nat.lt_of_not_le (of_decide_eq_false hlt))

theorem erase_list (h : key ∈ s.list.map Entry.key) :
    (s.erase key).list = s.list.filter fun e => e.key ≠ key := by
  unfold erase
  rw [(get_isSome_iff s key).mpr h]
  simp only [Bool.not_true, Bool.false_eq_true, if_false]
  split
  · next hone =>
    obtain ⟨e, hlist⟩ := List.length_eq_one_iff.mp hone
    rw [hlist] at h ⊢
    have heq : key = e.key := by simpa using h
    simp [list, heq]
  · simp [list, appendExcept]

theorem erase_refused (h : key ∉ s.list.map Entry.key) : s.erase key = s := by
  have hnone : (s.get key).isSome = false := by
    rw [Bool.eq_false_iff, ne_eq, get_isSome_iff]
    exact h
  simp [erase, hnone]

/-- With distinct keys, dropping a key that is there drops one entry. -/
theorem length_filter_key {entries : List Entry} (hnodup : (entries.map Entry.key).Nodup)
    (hmem : key ∈ entries.map Entry.key) :
    (entries.filter fun e => e.key ≠ key).length + 1 = entries.length := by
  induction entries with
  | nil => simp at hmem
  | cons e entries ih =>
      rw [List.map_cons, List.nodup_cons] at hnodup
      by_cases heq : e.key = key
      · have hrest : ∀ x ∈ entries, decide (x.key ≠ key) = true := by
          intro x hx
          rw [decide_eq_true_eq]
          rintro rfl
          exact hnodup.1 (heq ▸ List.mem_map_of_mem hx)
        rw [List.filter_cons_of_neg (by simp [heq]), List.filter_eq_self.mpr hrest,
          List.length_cons]
      · have hrest : key ∈ entries.map Entry.key := by
          rcases List.mem_cons.mp hmem with h | h
          · exact absurd h.symm heq
          · exact h
        rw [List.filter_cons_of_pos (by simp [heq]), List.length_cons, List.length_cons,
          ih hnodup.2 hrest]

end

/-! ### What every state keeps -/

namespace Valid

theorem default : Valid {} where
  sealed := by simp
  legal := by simp [list]
  distinct := by simp [list]
  few := by simp [size, list]

theorem fromHeader (header : Bytes) : Valid (fromHeader header) := by
  by_cases hempty : TraceState.fromHeader header = {}
  · rw [hempty]
    exact default
  · obtain ⟨es, h⟩ := accepted_of_fromHeader hempty
    rw [fromHeader_of_accepted h]
    refine ⟨?_, ?_, h.distinct, h.few⟩
    · intro heq
      have hnil : es = [] := Option.some.inj heq
      have hpos := h.some_entry
      rw [hnil] at hpos
      simp at hpos
    · intro e he
      obtain ⟨members, -, hall, rfl⟩ := h.header
      obtain ⟨⟨text, o⟩, hm, rfl⟩ := List.mem_filterMap.mp he
      have hmember : Member text (some e) := hall _ hm
      cases hmember with
      | entry _ _ hkey hvalue => exact ⟨hkey, hvalue⟩

variable {s : TraceState}

theorem set (V : Valid s) (key value : Bytes) : Valid (s.set key value) := by
  by_cases h : Key key ∧ Value value ∧ (key ∈ s.list.map Entry.key ∨ s.size < kMaxEntries)
  · obtain ⟨hkey, hvalue, hroom⟩ := h
    have hentries := set_list hkey hvalue hroom
    have hlist : (s.set key value).list =
        { key, value } :: s.list.filter fun e => e.key ≠ key := by
      rw [list, hentries]
      rfl
    refine ⟨by rw [hentries]; simp, ?_, ?_, ?_⟩
    · intro e he
      rw [hlist] at he
      rcases List.mem_cons.mp he with rfl | he
      · exact ⟨hkey, hvalue⟩
      · exact V.legal e (List.mem_of_mem_filter he)
    · rw [hlist, List.map_cons, List.nodup_cons]
      refine ⟨by simp, ?_⟩
      exact V.distinct.sublist (List.filter_sublist.map Entry.key)
    · rw [size, hlist, List.length_cons]
      rcases hroom with hmem | hlt
      · rw [length_filter_key V.distinct hmem]
        exact V.few
      · have hle := List.length_filter_le (fun e : Entry => decide (e.key ≠ key)) s.list
        unfold size at hlt
        omega
  · rw [set_refused h]
    exact V

theorem erase (V : Valid s) (key : Bytes) : Valid (s.erase key) := by
  by_cases h : key ∈ s.list.map Entry.key
  · have hlist := erase_list h
    refine ⟨?_, ?_, ?_, ?_⟩
    · unfold TraceState.erase
      rw [(get_isSome_iff s key).mpr h]
      simp only [Bool.not_true, Bool.false_eq_true, if_false]
      split
      · simp
      · next hmany =>
        intro heq
        have hcount := length_filter_key V.distinct h
        have hnil : (s.list.filter fun e => e.key ≠ key) = [] := by
          simpa [appendExcept] using heq
        rw [hnil] at hcount
        exact hmany hcount.symm
    · intro e he
      rw [hlist] at he
      exact V.legal e (List.mem_of_mem_filter he)
    · rw [hlist]
      exact V.distinct.sublist (List.filter_sublist.map Entry.key)
    · have hle := List.length_filter_le (fun e : Entry => decide (e.key ≠ key)) s.list
      have hfew := V.few
      rw [size, hlist]
      unfold size at hfew
      omega
  · rw [erase_refused h]
    exact V

end Valid

theorem Reachable.valid {s : TraceState} (h : Reachable s) : Valid s := by
  induction h with
  | default => exact .default
  | fromHeader header => exact .fromHeader header
  | set _ key value ih => exact ih.set key value
  | erase _ key ih => exact ih.erase key

/-! ### The round trip -/

theorem toHeader_eq (s : TraceState) :
    s.toHeader = [kListSeparator].intercalate (s.list.map text) := by
  have hpush : ∀ es : List Entry,
      es.foldl appendMember [] = (es.map text).foldl (push kListSeparator) [] := by
    intro es
    rw [List.foldl_map]
    congr 1
    funext header e
    simp [appendMember, push, text]
  have hne : ∀ piece ∈ s.list.map text, piece ≠ [] := by
    intro piece hpiece
    obtain ⟨e, -, rfl⟩ := List.mem_map.mp hpiece
    exact text_ne_nil e
  rw [← foldl_push hne, ← hpush]
  unfold toHeader list
  cases s.entries <;> rfl

theorem fromHeader_nil : fromHeader [] = {} := by
  by_contra h
  obtain ⟨es, hes⟩ := accepted_of_fromHeader h
  obtain ⟨os, hos, rfl⟩ := (header_iff [] es).mp hes.header
  have hpos := hes.some_entry
  rw [List.splitOn_nil] at hos
  cases hos with
  | @cons _ o _ os hpiece hrest =>
      cases hrest
      have hnone := (parsePiece_iff [] o).mpr hpiece
      obtain rfl : none = o := by simpa [parsePiece, trimOptionalWhitespace, trim] using hnone
      simp at hpos

theorem Valid.fromHeader_toHeader {s : TraceState} (V : Valid s) :
    TraceState.fromHeader s.toHeader = s := by
  cases hs : s.entries with
  | none =>
      have heq : s = {} := by
        cases s
        simpa using hs
      rw [heq]
      exact fromHeader_nil
  | some es =>
      have hlist : s.list = es := by rw [list, hs]; rfl
      have hne : es ≠ [] := by
        rintro rfl
        exact V.sealed hs
      have haccepted : Accepted s.toHeader es := by
        refine ⟨⟨es.map fun e => (text e, some e), ?_, ?_, ?_⟩, List.length_pos_iff.mpr hne, ?_, ?_⟩
        · rw [toHeader_eq, hlist, List.map_map]
          rfl
        · intro m hm
          obtain ⟨e, he, rfl⟩ := List.mem_map.mp hm
          obtain ⟨hkey, hvalue⟩ := V.legal e (by rw [hlist]; exact he)
          have hmember : Member ([] ++ text e ++ []) (some e) :=
            .entry (by simp [Ows]) (by simp [Ows]) hkey hvalue
          simpa using hmember
        · simp [List.filterMap_map]
        · rw [← hlist]
          exact V.few
        · rw [← hlist]
          exact V.distinct
      rw [fromHeader_of_accepted haccepted]
      cases s
      simpa using hs.symm

/-- `FromHeader` accepts the grammar and nothing else; the states built with
`FromHeader`, `Set` and `Erase` survive a header, and an update changes one key
or nothing. -/
theorem fromHeader_exact :
    (∀ header, (fromHeader header).empty = false ↔ ∃ es, Accepted header es) ∧
      (∀ header es, Accepted header es → fromHeader header = { entries := some es }) ∧
      ∀ s, Reachable s →
        fromHeader s.toHeader = s ∧ (s.list.map Entry.key).Nodup ∧ s.size ≤ kMaxEntries ∧
          (∀ key value, Key key → Value value →
            (key ∈ s.list.map Entry.key ∨ s.size < kMaxEntries) →
            (s.set key value).list = { key, value } :: s.list.filter fun e => e.key ≠ key) ∧
          (∀ key value,
            ¬ (Key key ∧ Value value ∧ (key ∈ s.list.map Entry.key ∨ s.size < kMaxEntries)) →
            s.set key value = s) ∧
          (∀ key ∈ s.list.map Entry.key,
            (s.erase key).list = (s.list.filter fun e => e.key ≠ key) ∧
              (s.erase key).size + 1 = s.size) ∧
          ∀ key, key ∉ s.list.map Entry.key → s.erase key = s := by
  refine ⟨?_, fun header es h => fromHeader_of_accepted h, ?_⟩
  · intro header
    constructor
    · intro hsome
      apply accepted_of_fromHeader
      intro hnone
      rw [hnone] at hsome
      simp [empty, size, list] at hsome
    · rintro ⟨es, h⟩
      have hpos := h.some_entry
      rw [fromHeader_of_accepted h]
      simp [empty, size, list]
      rintro rfl
      simp at hpos
  · intro s hs
    have V := hs.valid
    refine ⟨V.fromHeader_toHeader, V.distinct, V.few, ?_, ?_, ?_, ?_⟩
    · intro key value hkey hvalue hroom
      rw [list, set_list hkey hvalue hroom]
      rfl
    · intro key value h
      exact set_refused h
    · intro key hmem
      refine ⟨erase_list hmem, ?_⟩
      rw [size, erase_list hmem]
      exact length_filter_key V.distinct hmem
    · intro key hnot
      exact erase_refused hnot

/-- `a=1 , b= 2`, and `a` set again. -/
theorem fromHeader_exact_two :
    let s := fromHeader [0x61, 0x3D, 0x31, 0x20, 0x2C, 0x20, 0x62, 0x3D, 0x20, 0x32]
    s.list = [⟨[0x61], [0x31]⟩, ⟨[0x62], [0x20, 0x32]⟩] ∧ fromHeader s.toHeader = s ∧
      s.set [0x63] [] = s := by
  intro s
  have hs := fromHeader_exact.2.2 s (.fromHeader _)
  refine ⟨by decide +kernel, hs.1, hs.2.2.2.2.1 _ _ ?_⟩
  rintro ⟨-, ⟨chars, last, hvalue, -⟩, -⟩
  simp at hvalue

end Microtel.Api.TraceState
