import Microtel.Lib.Overrides
import Microtel.Sdk.ConfigValidator

/-!
The headers of the exporter, merged per name from the file, the environment and the code
(`OverrideHeader` and `MergeHeaders` of `src/common/config/table_merge.cpp`). Names
compare without case, and a source may give one name more than once.
-/

namespace Microtel.Configuration

open Concentrator

def headerNameEquals (a b : Bytes) : Bool := a.map toLower = b.map toLower

def overrideHeader (table : List KeyValue) (kv : KeyValue) : List KeyValue :=
  match table.findIdx? fun e => headerNameEquals e.key kv.key with
  | none => table ++ [kv]
  | some first =>
      table.take first ++
        kv :: (table.drop (first + 1)).filter fun e => !headerNameEquals e.key kv.key

def mergeHeaders (base overriding : List KeyValue) : List KeyValue :=
  overriding.foldl overrideHeader base

/-! ### Names without case -/

/-- The octets are one octet, or the two cases of one ASCII letter. -/
def SameLetter (x y : UInt8) : Prop :=
  x = y ∨ (0x41 ≤ x ∧ x ≤ 0x5A ∧ y = x + 0x20) ∨ (0x41 ≤ y ∧ y ≤ 0x5A ∧ x = y + 0x20)

instance (x y : UInt8) : Decidable (SameLetter x y) :=
  inferInstanceAs (Decidable (x = y ∨ (0x41 ≤ x ∧ x ≤ 0x5A ∧ y = x + 0x20) ∨
    (0x41 ≤ y ∧ y ≤ 0x5A ∧ x = y + 0x20)))

/-- Two names that differ at most in the case of their letters. -/
def SameName (a b : Bytes) : Prop := List.Forall₂ SameLetter a b

instance (a b : Bytes) : Decidable (SameName a b) :=
  inferInstanceAs (Decidable (List.Forall₂ SameLetter a b))

theorem toLower_eq_iff (x y : UInt8) : toLower x = toLower y ↔ SameLetter x y := by
  unfold toLower SameLetter
  simp only [Bool.and_eq_true, decide_eq_true_eq, UInt8.le_iff_toNat_le, ← UInt8.toNat_inj]
  have hx := x.toNat_lt
  have hy := y.toNat_lt
  split_ifs <;> simp only [UInt8.toNat_add, UInt8.reduceToNat] at * <;> omega

theorem headerNameEquals_iff (a b : Bytes) : headerNameEquals a b = true ↔ SameName a b := by
  rw [headerNameEquals, decide_eq_true_iff]
  unfold SameName
  rw [← List.forall₂_eq_eq_eq, List.forall₂_map_left_iff, List.forall₂_map_right_iff]
  simp only [toLower_eq_iff]

/-! ### As overlays -/

/-- What two header names have in common when they are one. -/
def headerName (kv : KeyValue) : Bytes := kv.key.map toLower

theorem headerNameEquals_eq (a b : KeyValue) :
    headerNameEquals a.key b.key = decide (headerName a = headerName b) := rfl

theorem sameName_iff (a b : KeyValue) : SameName a.key b.key ↔ headerName a = headerName b := by
  rw [← headerNameEquals_iff, headerNameEquals_eq, decide_eq_true_iff]

theorem overrideHeader_cons (e : KeyValue) (table : List KeyValue) (kv : KeyValue) :
    overrideHeader (e :: table) kv =
      if headerNameEquals e.key kv.key then
        kv :: table.filter fun e => !headerNameEquals e.key kv.key
      else e :: overrideHeader table kv := by
  unfold overrideHeader
  rw [List.findIdx?_cons]
  by_cases he : headerNameEquals e.key kv.key = true
  · simp [he]
  · rw [if_neg he, if_neg he]
    cases table.findIdx? fun e => headerNameEquals e.key kv.key with
    | none => rfl
    | some first => rfl

theorem overrideHeader_eq (table : List KeyValue) (kv : KeyValue) :
    overrideHeader table kv = Overrides.override headerName table kv := by
  induction table with
  | nil => rfl
  | cons e table ih =>
      rw [overrideHeader_cons, ih, Overrides.override_cons, headerNameEquals_eq]
      simp [headerNameEquals_eq]

theorem mergeHeaders_eq (base overriding : List KeyValue) :
    mergeHeaders base overriding = Overrides.overlay headerName base overriding := by
  have hstep : overrideHeader = Overrides.override headerName := by
    funext table kv
    exact overrideHeader_eq table kv
  rw [mergeHeaders, Overrides.overlay, hstep]

/-! ### Main results -/

/-- The names of the overriding list are there once each, as given last; the other
entries of the base are kept in order; and three sources may be merged in either grouping. -/
theorem mergeHeaders_lawful :
    (∀ (a b : List KeyValue), ∀ kv ∈ b, ∃ before last after, b = before ++ last :: after ∧
        SameName last.key kv.key ∧
        (∀ e ∈ after, ¬SameName e.key kv.key) ∧
        ((mergeHeaders a b).filter fun e => SameName e.key kv.key) = [last]) ∧
      (∀ a b : List KeyValue,
        ((mergeHeaders a b).filter fun e => ∀ kv ∈ b, ¬SameName e.key kv.key) =
          a.filter fun e => ∀ kv ∈ b, ¬SameName e.key kv.key) ∧
      ∀ a b c : List KeyValue,
        mergeHeaders (mergeHeaders a b) c = mergeHeaders a (mergeHeaders b c) := by
  refine ⟨?_, ?_, ?_⟩
  · intro a b kv hkv
    have hnamed : ∃ z ∈ b, headerName z = headerName kv := ⟨kv, hkv, rfl⟩
    obtain ⟨before, last, after, rfl, hlast, hafter⟩ := Overrides.exists_last_named hnamed
    refine ⟨before, last, after, rfl, (sameName_iff last kv).mpr hlast, ?_, ?_⟩
    · intro e he hsame
      exact hafter e he ((sameName_iff e kv).mp hsame)
    · rw [← hlast] at hafter
      rw [mergeHeaders_eq]
      simp only [sameName_iff, ← hlast]
      exact Overrides.filter_overlay_last a before hafter
  · intro a b
    rw [mergeHeaders_eq]
    apply Overrides.filter_overlay
    intro kv hkv e he
    rw [decide_eq_false_iff_not]
    intro hnone
    exact hnone kv hkv ((sameName_iff e kv).mpr he)
  · intro a b c
    simp only [mergeHeaders_eq]
    exact Overrides.overlay_assoc a b c

/-- A name given twice in two spellings, over a table that has it in a third: the last
spelling is left alone. -/
theorem mergeHeaders_lawful_variants :
    mergeHeaders [⟨ascii "X-ID", .string (ascii "0")⟩]
        [⟨ascii "x-id", .string (ascii "1")⟩, ⟨ascii "X-Id", .string (ascii "2")⟩] =
      [⟨ascii "X-Id", .string (ascii "2")⟩] ∧
    ∃ before last after,
      [⟨ascii "x-id", .string (ascii "1")⟩, ⟨ascii "X-Id", .string (ascii "2")⟩] =
          before ++ last :: after ∧
        SameName last.key (ascii "x-id") ∧
        (∀ e ∈ after, ¬SameName e.key (ascii "x-id")) ∧
        ((mergeHeaders [⟨ascii "X-ID", .string (ascii "0")⟩]
            [⟨ascii "x-id", .string (ascii "1")⟩, ⟨ascii "X-Id", .string (ascii "2")⟩]).filter
          fun e => SameName e.key (ascii "x-id")) = [last] :=
  ⟨by decide +kernel,
    mergeHeaders_lawful.1 _ _ ⟨ascii "x-id", .string (ascii "1")⟩ List.mem_cons_self⟩

end Microtel.Configuration
