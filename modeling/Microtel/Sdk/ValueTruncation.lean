import Mathlib.Data.List.GetD
import Microtel.Lib.LeadCode
import Microtel.Lib.Octets
import Microtel.Sdk.SpanLimits

/-!
Strings clipped to a length limit (`Utf8SafePrefix` and `TruncateStrings` of
`src/sdk/span_limits.cpp`). The cut steps back over continuation bytes only; of a string
in UTF-8 what is left is the longest prefix in UTF-8 that fits.
-/

namespace Microtel.Sdk

open Concentrator

/-! ### UTF-8 as a code -/

/-- The test of the loop. -/
def isContinuationByte (b : UInt8) : Bool := b &&& 0xC0 = 0x80

theorem isContinuationByte_eq (b : UInt8) :
    isContinuationByte b = decide (0x80 ≤ b.toNat ∧ b.toNat < 0xC0) := by
  revert b
  apply Octets.forall_octet
  decide +kernel

theorem isContinuationByte_ofNat {n : Nat} (hn : n < 0x100) :
    isContinuationByte (UInt8.ofNat n) = decide (0x80 ≤ n ∧ n < 0xC0) := by
  rw [isContinuationByte_eq, UInt8.toNat_ofNat_of_lt' hn]

theorem isContinuationByte_tail (n : Nat) :
    isContinuationByte (UInt8.ofNat (n % 0x40 + 0x80)) = true := by
  rw [isContinuationByte_ofNat (by omega)]
  exact decide_eq_true ⟨by omega, by omega⟩

theorem isContinuationByte_lead (low : Nat) (hlow : low < 0x40) :
    isContinuationByte (UInt8.ofNat (low + 0xC0)) = false := by
  rw [isContinuationByte_ofNat (by omega)]
  exact decide_eq_false (by omega)

theorem isContinuationByte_ascii {n : Nat} (hn : n ≤ 0x7F) :
    isContinuationByte (UInt8.ofNat n) = false := by
  rw [isContinuationByte_ofNat (by omega)]
  exact decide_eq_false (by omega)

/-- One to four bytes: the first never continues a code point, the others always do. -/
theorem utf8EncodeChar_shape (c : Char) :
    ∃ head tail, String.utf8EncodeChar c = head :: tail ∧ isContinuationByte head = false ∧
      ∀ b ∈ tail, isContinuationByte b = true := by
  fun_cases String.utf8EncodeChar c with
  | case1 v h => exact ⟨_, [], rfl, isContinuationByte_ascii h, by simp⟩
  | case2 v h1 h2 =>
      refine ⟨_, _, rfl, isContinuationByte_lead (v / 64 % 0x20) (by omega), ?_⟩
      simp only [List.mem_singleton, forall_eq]
      exact isContinuationByte_tail v
  | case3 v h1 h2 h3 =>
      refine ⟨_, _, rfl, ?_, ?_⟩
      · have hlead := isContinuationByte_lead (v / 4096 % 0x10 + 0x20) (by omega)
        rwa [Nat.add_assoc] at hlead
      · simp only [List.mem_cons, List.not_mem_nil, or_false, forall_eq_or_imp, forall_eq]
        exact ⟨isContinuationByte_tail _, isContinuationByte_tail _⟩
  | case4 v h1 h2 h3 =>
      refine ⟨_, _, rfl, ?_, ?_⟩
      · have hlead := isContinuationByte_lead (v / 262144 % 0x08 + 0x30) (by omega)
        rwa [Nat.add_assoc] at hlead
      · simp only [List.mem_cons, List.not_mem_nil, or_false, forall_eq_or_imp, forall_eq]
        exact ⟨isContinuationByte_tail _, isContinuationByte_tail _, isContinuationByte_tail _⟩

theorem utf8EncodeChar_unique (c c' : Char) (rest rest' : Bytes)
    (h : String.utf8EncodeChar c ++ rest = String.utf8EncodeChar c' ++ rest') : c = c' := by
  have hdecode := @ByteArray.utf8DecodeChar?_utf8EncodeChar_append rest.toByteArray c
  rw [← List.toByteArray_append, h, List.toByteArray_append,
    ByteArray.utf8DecodeChar?_utf8EncodeChar_append] at hdecode
  exact (Option.some.inj hdecode).symm

def utf8 : LeadCode Char UInt8 where
  encode := String.utf8EncodeChar
  continues := isContinuationByte
  shape := utf8EncodeChar_shape
  unique := utf8EncodeChar_unique

/-- The bytes of some sequence of code points. -/
def IsUtf8 (s : Bytes) : Prop := ∃ chars : List Char, s = chars.flatMap String.utf8EncodeChar

theorem isUtf8_iff (s : Bytes) : IsUtf8 s ↔ utf8.IsText s := Iff.rfl

/-! ### The cut -/

theorem utf8SafePrefix_le (s : Bytes) (limit : Nat) : utf8SafePrefix s limit ≤ limit := by
  induction limit with
  | zero => exact Nat.le_refl 0
  | succ cut ih =>
      rw [utf8SafePrefix]
      split
      · omega
      · exact Nat.le_refl _

theorem utf8SafePrefix_stop (s : Bytes) (limit : Nat) :
    utf8SafePrefix s limit = 0 ∨
      isContinuationByte (s.getD (utf8SafePrefix s limit) 0) = false := by
  induction limit with
  | zero => exact .inl rfl
  | succ cut ih =>
      rw [utf8SafePrefix]
      split
      · exact ih
      · next h => exact .inr (decide_eq_false h)

theorem utf8SafePrefix_passed (s : Bytes) (limit : Nat) :
    ∀ k, utf8SafePrefix s limit < k → k ≤ limit → isContinuationByte (s.getD k 0) = true := by
  induction limit with
  | zero =>
      intro k hk hlimit
      omega
  | succ cut ih =>
      intro k hk hlimit
      rw [utf8SafePrefix] at hk
      split at hk
      · next h =>
        rcases Nat.eq_or_lt_of_le hlimit with rfl | hlt
        · exact decide_eq_true h
        · exact ih k hk (Nat.le_of_lt_succ hlt)
      · omega

theorem take_utf8SafePrefix {s : Bytes} (h : IsUtf8 s) {limit : Nat} (hlimit : limit < s.length) :
    utf8.LongestText limit s (s.take (utf8SafePrefix s limit)) := by
  have hcut := utf8SafePrefix_le s limit
  apply LeadCode.longestText_take ((isUtf8_iff s).mp h) hlimit hcut
  · intro hinside
    have hstop := utf8SafePrefix_stop s limit
    rwa [List.getD_eq_getElem _ _ hinside] at hstop
  · intro k hinside hk hle
    have hpassed := utf8SafePrefix_passed s limit k hk hle
    rwa [List.getD_eq_getElem _ _ hinside] at hpassed

/-! ### One string -/

/-- The prefix in UTF-8 of at most `limit` bytes, and no other is longer. -/
structure LongestUtf8Prefix (limit : Nat) (s p : Bytes) : Prop where
  isPrefix : p <+: s
  bound : p.length ≤ limit
  isUtf8 : IsUtf8 p
  longest : ∀ q, q <+: s → q.length ≤ limit → IsUtf8 q → q.length ≤ p.length

/-- What a limit makes of a string. -/
structure Clipped (limit : Nat) (s t : Bytes) : Prop where
  untouched : s.length ≤ limit → t = s
  clipped : limit < s.length → IsUtf8 s → LongestUtf8Prefix limit s t

def clipString (limit : Nat) (s : Bytes) : Bytes :=
  if limit < s.length then s.take (utf8SafePrefix s limit) else s

theorem clipString_clipped (limit : Nat) (s : Bytes) : Clipped limit s (clipString limit s) where
  untouched h := if_neg (Nat.not_lt.mpr h)
  clipped hlimit h := by
    have hlongest := take_utf8SafePrefix h hlimit
    rw [clipString, if_pos hlimit]
    exact ⟨hlongest.isPrefix, hlongest.bound, hlongest.isText, hlongest.longest⟩

/-- Of any string, in UTF-8 or not, no more than the limit is left. -/
theorem clipString_length (limit : Nat) (s : Bytes) : (clipString limit s).length ≤ limit := by
  unfold clipString
  split
  · rw [List.length_take]
    exact (Nat.min_le_left _ _).trans (utf8SafePrefix_le s limit)
  · next h => exact Nat.not_lt.mp h

/-! ### Values -/

def longerThan (limit : Nat) (s : Bytes) : Bool := limit < s.length

theorem truncateElements_eq (limit : Nat) (elements : List Bytes) :
    truncateElements limit elements =
      (elements.map (clipString limit), elements.countP (longerThan limit)) := by
  induction elements with
  | nil => rfl
  | cons element elements ih =>
      rw [truncateElements, ih, List.map_cons, List.countP_cons]
      by_cases h : limit < element.length
      · simp [h, clipString, longerThan]
      · simp [h, clipString, longerThan]

theorem truncateStrings_string (s : Bytes) (limit : Nat) :
    truncateStrings (.string s) limit =
      (.string (clipString limit s), if limit < s.length then 1 else 0) := by
  rw [truncateStrings, clipString]
  by_cases h : limit < s.length
  · rw [if_neg (Nat.not_le.mpr h), if_pos h, if_pos h]
  · rw [if_pos (Nat.not_lt.mp h), if_neg h, if_neg h]

theorem truncateStrings_strings (elements : List Bytes) (limit : Nat) :
    truncateStrings (.strings elements) limit =
      (.strings (elements.map (clipString limit)), elements.countP (longerThan limit)) := by
  rw [truncateStrings, truncateElements_eq]

/-- Within the limit there is nothing to do. -/
theorem truncateStrings_of_short {value : AttributeValue} {limit : Nat}
    (hstring : ∀ s, value = .string s → s.length ≤ limit)
    (hstrings : ∀ elements, value = .strings elements → ∀ s ∈ elements, s.length ≤ limit) :
    truncateStrings value limit = (value, 0) := by
  cases value with
  | string s =>
      have hshort := hstring s rfl
      rw [truncateStrings_string, (clipString_clipped limit s).untouched hshort,
        if_neg (Nat.not_lt.mpr hshort)]
  | strings elements =>
      have hshort := hstrings elements rfl
      have hclip : elements.map (clipString limit) = elements := by
        conv => rhs; rw [← List.map_id elements]
        apply List.map_congr_left
        intro s hs
        exact (clipString_clipped limit s).untouched (hshort s hs)
      have hcount : elements.countP (longerThan limit) = 0 := by
        rw [List.countP_eq_zero]
        intro s hs
        simpa [longerThan] using hshort s hs
      rw [truncateStrings_strings, hclip, hcount]
  | _ => rfl

/-! ### Main results -/

/-- A string over the limit in UTF-8 becomes its longest prefix in UTF-8 that fits, one
within the limit stays, the strings over the limit are counted, other values are left
alone, and doing it again does nothing. -/
theorem truncateStrings_utf8 (limit : Nat) :
    (∀ s, ∃ t, truncateStrings (.string s) limit =
        (.string t, if limit < s.length then 1 else 0) ∧ Clipped limit s t) ∧
      (∀ elements, ∃ clipped, truncateStrings (.strings elements) limit =
        (.strings clipped, elements.countP fun s => limit < s.length) ∧
          List.Forall₂ (Clipped limit) elements clipped) ∧
      (∀ value, (∀ s, value ≠ .string s) → (∀ elements, value ≠ .strings elements) →
        truncateStrings value limit = (value, 0)) ∧
      ∀ value, truncateStrings (truncateStrings value limit).1 limit =
        ((truncateStrings value limit).1, 0) := by
  refine ⟨?_, ?_, ?_, ?_⟩
  · intro s
    exact ⟨clipString limit s, truncateStrings_string s limit, clipString_clipped limit s⟩
  · intro elements
    refine ⟨elements.map (clipString limit), truncateStrings_strings elements limit, ?_⟩
    rw [List.forall₂_map_right_iff]
    exact List.forall₂_same.mpr fun s _ => clipString_clipped limit s
  · intro value hstring hstrings
    apply truncateStrings_of_short
    · intro s heq
      exact absurd heq (hstring s)
    · intro elements heq
      exact absurd heq (hstrings elements)
  · intro value
    apply truncateStrings_of_short
    · intro s heq
      cases value with
      | string s' =>
          rw [truncateStrings_string] at heq
          cases heq
          exact clipString_length limit s'
      | strings elements =>
          rw [truncateStrings_strings] at heq
          cases heq
      | _ => cases heq
    · intro clipped heq s hs
      cases value with
      | strings elements =>
          rw [truncateStrings_strings] at heq
          cases heq
          obtain ⟨s', -, rfl⟩ := List.mem_map.mp hs
          exact clipString_length limit s'
      | string s' =>
          rw [truncateStrings_string] at heq
          cases heq
      | _ => cases heq

/-- Code points of two and of three bytes, cut inside the second. -/
theorem truncateStrings_utf8_euro :
    Clipped 4 [0xC3, 0xA9, 0xE2, 0x82, 0xAC] [0xC3, 0xA9] ∧
      truncateStrings (.bool true) 4 = (.bool true, 0) := by
  refine ⟨?_, (truncateStrings_utf8 4).2.2.1 (.bool true) (fun s h => by cases h)
    fun elements h => by cases h⟩
  obtain ⟨t, heq, hclipped⟩ := (truncateStrings_utf8 4).1 [0xC3, 0xA9, 0xE2, 0x82, 0xAC]
  have hcut : truncateStrings (.string [0xC3, 0xA9, 0xE2, 0x82, 0xAC]) 4 =
      (.string [0xC3, 0xA9], 1) := by decide
  rw [hcut] at heq
  cases heq
  exact hclipped

end Microtel.Sdk
