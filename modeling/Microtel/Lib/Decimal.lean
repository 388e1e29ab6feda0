import Mathlib.Tactic

/-!
Numbers in decimal, as octets: digits only, with a sign in front of a negative number,
never empty, and never the same for two numbers.
-/

namespace Decimal

/-- The octets of a text in ASCII. -/
def octets (chars : List Char) : List UInt8 := chars.map fun c => UInt8.ofNat c.toNat

def natText (n : Nat) : List UInt8 := octets (toString n).toList

def intText (i : Int) : List UInt8 := octets (toString i).toList

def IsDigit (c : UInt8) : Prop := 0x30 ≤ c.toNat ∧ c.toNat ≤ 0x39

/-- The minus sign. -/
def kMinus : UInt8 := 0x2D

theorem octets_injective {s t : List Char} (hs : ∀ c ∈ s, c.toNat < 256)
    (ht : ∀ c ∈ t, c.toNat < 256) (h : octets s = octets t) : s = t := by
  induction s generalizing t with
  | nil => exact (List.map_eq_nil_iff.mp h.symm).symm
  | cons c s ih =>
      cases t with
      | nil => cases h
      | cons d t =>
          obtain ⟨hoctet, htail⟩ := List.cons.inj h
          have hc : c.toNat < 256 := hs c (by simp)
          have hd : d.toNat < 256 := ht d (by simp)
          have hnat := congrArg UInt8.toNat hoctet
          rw [UInt8.toNat_ofNat_of_lt' hc, UInt8.toNat_ofNat_of_lt' hd] at hnat
          have hrest := ih (fun e he => hs e (by simp [he])) (fun e he => ht e (by simp [he])) htail
          rw [Char.toNat_inj.mp hnat, hrest]

theorem natText_eq (n : Nat) : natText n = octets (Nat.toDigits 10 n) := by
  rw [natText, Nat.toString_eq_repr, Nat.toList_repr]

theorem isDigit_range {n : Nat} {c : Char} (h : c ∈ Nat.toDigits 10 n) :
    0x30 ≤ c.toNat ∧ c.toNat ≤ 0x39 := by
  have hrange := Nat.isDigit_of_mem_toDigits (by omega) (by omega) h
  simp only [Char.isDigit, Bool.and_eq_true, decide_eq_true_eq, ge_iff_le,
    UInt32.le_iff_toNat_le] at hrange
  exact hrange

theorem natText_digits (n : Nat) : ∀ c ∈ natText n, IsDigit c := by
  intro c hc
  rw [natText_eq, octets, List.mem_map] at hc
  obtain ⟨digit, hdigit, rfl⟩ := hc
  have hrange := isDigit_range hdigit
  have hnat : (UInt8.ofNat digit.toNat).toNat = digit.toNat :=
    UInt8.toNat_ofNat_of_lt' (lt_of_le_of_lt hrange.2 (by decide))
  rwa [IsDigit, hnat]

theorem natText_ne_nil (n : Nat) : natText n ≠ [] := by
  rw [natText_eq, octets]
  simp [Nat.toDigits_ne_nil]

theorem natText_injective {n m : Nat} (h : natText n = natText m) : n = m := by
  rw [natText_eq, natText_eq] at h
  have hlt : ∀ k, ∀ c ∈ Nat.toDigits 10 k, c.toNat < 256 :=
    fun k c hc => lt_of_le_of_lt (isDigit_range hc).2 (by decide)
  have hdigits := octets_injective (hlt n) (hlt m) h
  rw [← @Nat.ofDigitChars_ten_toDigits n, hdigits, Nat.ofDigitChars_ten_toDigits]

theorem intText_eq (i : Int) :
    intText i = if 0 ≤ i then natText i.toNat else kMinus :: natText (-i).toNat := by
  rw [intText, Int.toString_eq_repr, Int.repr_eq_if]
  split
  · rfl
  · rw [String.toList_append]
    rfl

theorem intText_ne_nil (i : Int) : intText i ≠ [] := by
  rw [intText_eq]
  split
  · exact natText_ne_nil _
  · simp

theorem intText_octets (i : Int) : ∀ c ∈ intText i, c = kMinus ∨ IsDigit c := by
  intro c hc
  rw [intText_eq] at hc
  split at hc
  · exact .inr (natText_digits _ c hc)
  · rcases List.mem_cons.mp hc with rfl | hc
    · exact .inl rfl
    · exact .inr (natText_digits _ c hc)

theorem minus_notMem_natText (n : Nat) : kMinus ∉ natText n := by
  intro hmem
  have hdigit := (natText_digits n _ hmem).1
  revert hdigit
  decide

theorem intText_injective {i j : Int} (h : intText i = intText j) : i = j := by
  rw [intText_eq, intText_eq] at h
  split at h
  · next hi =>
    split at h
    · next hj =>
      have hnat := natText_injective h
      omega
    · exact absurd (h ▸ List.mem_cons_self) (minus_notMem_natText _)
  · next hi =>
    split at h
    · exact absurd (h ▸ List.mem_cons_self) (minus_notMem_natText _)
    · next hj =>
      have hnat := natText_injective (List.cons.inj h).2
      omega

end Decimal
