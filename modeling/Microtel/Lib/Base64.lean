import Mathlib.Tactic

/-!
Base64: octets in groups of three, four digits of six bits for each; the last group
may be short. A digit is written in one of two alphabets, which differ in their last
two characters.
-/

namespace Base64

/-- The digits of octets. -/
def digits : List UInt8 → List Nat
  | [] => []
  | [a] => [a.toNat / 4, a.toNat % 4 * 16]
  | [a, b] => [a.toNat / 4, a.toNat % 4 * 16 + b.toNat / 16, b.toNat % 16 * 4]
  | a :: b :: c :: rest =>
      [a.toNat / 4, a.toNat % 4 * 16 + b.toNat / 16, b.toNat % 16 * 4 + c.toNat / 64,
        c.toNat % 64] ++ digits rest

inductive Alphabet
  | standard | urlSafe
  deriving DecidableEq, Repr

/-- The character of a digit. -/
def Alphabet.char (alphabet : Alphabet) (n : Nat) : UInt8 :=
  if n < 26 then UInt8.ofNat (0x41 + n)
  else if n < 52 then UInt8.ofNat (0x61 + (n - 26))
  else if n < 62 then UInt8.ofNat (0x30 + (n - 52))
  else
    match alphabet with
    | .standard => if n = 62 then 0x2B else 0x2F
    | .urlSafe => if n = 62 then 0x2D else 0x5F

/-- A character of one of the alphabets. -/
def IsChar (c : UInt8) : Prop := ∃ alphabet : Alphabet, ∃ n < 64, alphabet.char n = c

def padding (n : Nat) : List UInt8 := List.replicate ((4 - n % 4) % 4) 0x3D

/-- The text of octets, filled up to a multiple of four characters or not. -/
def text (alphabet : Alphabet) (padded : Bool) (octets : List UInt8) : List UInt8 :=
  let chars := (digits octets).map alphabet.char
  if padded then chars ++ padding chars.length else chars

theorem digits_lt (octets : List UInt8) : ∀ n ∈ digits octets, n < 64 := by
  have hbyte : ∀ a : UInt8, a.toNat < 256 := UInt8.toNat_lt
  fun_induction digits octets with
  | case1 => simp
  | case2 a =>
      have ha := hbyte a
      simp only [List.forall_mem_cons, List.not_mem_nil, false_imp_iff, implies_true, and_true]
      omega
  | case3 a b =>
      have ha := hbyte a
      have hb := hbyte b
      simp only [List.forall_mem_cons, List.not_mem_nil, false_imp_iff, implies_true, and_true]
      omega
  | case4 a b c rest ih =>
      have ha := hbyte a
      have hb := hbyte b
      have hc := hbyte c
      rw [List.forall_mem_append]
      refine ⟨?_, ih⟩
      simp only [List.forall_mem_cons, List.not_mem_nil, false_imp_iff, implies_true, and_true]
      omega

theorem length_le_digits (octets : List UInt8) : octets.length ≤ (digits octets).length := by
  fun_induction digits octets with
  | case1 => simp
  | case2 a => simp
  | case3 a b => simp
  | case4 a b c rest ih =>
      simp only [List.length_cons, List.length_append, List.length_nil]
      omega

theorem length_le_text (alphabet : Alphabet) (padded : Bool) (octets : List UInt8) :
    octets.length ≤ (text alphabet padded octets).length := by
  have hdigits := length_le_digits octets
  unfold text
  cases padded with
  | false => simpa using hdigits
  | true =>
      simp only [if_true, List.length_append, List.length_map]
      omega

end Base64
