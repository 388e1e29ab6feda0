import Mathlib.Tactic

/-!
Octets by inspection of all of them, and their text in lower-case hex: two digits
for each octet, the high half first.
-/

namespace Octets

/-- A decidable fact about octets needs a look at 256 values. -/
theorem forall_octet {P : UInt8 → Prop} (h : ∀ n : Fin 256, P (UInt8.ofFin n)) (c : UInt8) :
    P c := by
  have hc := h c.toFin
  rwa [UInt8.ofFin_toFin] at hc

/-! ### Nibbles -/

theorem toNat_nibble {n : Nat} (h : n < 16) : (UInt8.ofNat n).toNat = n :=
  UInt8.toNat_ofNat_of_lt' (lt_trans h (by decide))

theorem high_lt (b : UInt8) : b.toNat / 16 < 16 := by
  have hlt := b.toNat_lt
  omega

theorem low_lt (b : UInt8) : b.toNat % 16 < 16 := Nat.mod_lt _ (by decide)

theorem high_nibble (b : UInt8) : b >>> 4 = UInt8.ofNat (b.toNat / 16) := by
  apply UInt8.toNat_inj.mp
  rw [UInt8.toNat_shiftRight, toNat_nibble (high_lt b)]
  exact Nat.shiftRight_eq_div_pow b.toNat 4

theorem low_nibble (b : UInt8) : b &&& 15 = UInt8.ofNat (b.toNat % 16) := by
  apply UInt8.toNat_inj.mp
  rw [UInt8.toNat_and, toNat_nibble (low_lt b)]
  exact Nat.and_two_pow_sub_one_eq_mod b.toNat 4

/-- The high nibble needs no mask. -/
theorem masked_nibble (b : UInt8) : (b >>> 4) &&& 15 = UInt8.ofNat (b.toNat / 16) := by
  rw [high_nibble, low_nibble, toNat_nibble (high_lt b), Nat.mod_eq_of_lt (high_lt b)]

theorem or_nibbles (b : UInt8) :
    (UInt8.ofNat (b.toNat / 16) <<< 4) ||| UInt8.ofNat (b.toNat % 16) = b := by
  have hhigh := high_lt b
  apply UInt8.toNat_inj.mp
  rw [UInt8.toNat_or, UInt8.toNat_shiftLeft, toNat_nibble hhigh, toNat_nibble (low_lt b)]
  change (b.toNat / 16) <<< 4 % 2 ^ 8 ||| b.toNat % 16 = b.toNat
  rw [Nat.shiftLeft_eq, Nat.mod_eq_of_lt (by omega), ← Nat.shiftLeft_eq,
    ← Nat.shiftLeft_add_eq_or_of_lt (low_lt b), Nat.shiftLeft_eq]
  omega

theorem add_nibbles (b : UInt8) :
    UInt8.ofNat (b.toNat / 16) * 16 + UInt8.ofNat (b.toNat % 16) = b := by
  have hlt := b.toNat_lt
  apply UInt8.toNat_inj.mp
  rw [UInt8.toNat_add, UInt8.toNat_mul, toNat_nibble (high_lt b), toNat_nibble (low_lt b)]
  change (b.toNat / 16 * 16 % 2 ^ 8 + b.toNat % 16) % 2 ^ 8 = b.toNat
  omega

/-! ### Hex -/

/-- The digit of a value below sixteen. -/
def digit (n : Nat) : UInt8 := UInt8.ofNat (if n < 10 then 0x30 + n else 0x57 + n)

def Digit (c : UInt8) : Prop := ∃ n < 16, c = digit n

def pair (b : UInt8) : List UInt8 := [digit (b.toNat / 16), digit (b.toNat % 16)]

def hex (bytes : List UInt8) : List UInt8 := bytes.flatMap pair

@[simp] theorem hex_nil : hex [] = [] := rfl

theorem hex_cons (b : UInt8) (bytes : List UInt8) : hex (b :: bytes) = pair b ++ hex bytes := by
  rw [hex, List.flatMap_cons]
  rfl

@[simp] theorem length_hex (bytes : List UInt8) : (hex bytes).length = 2 * bytes.length := by
  induction bytes with
  | nil => rfl
  | cons b bytes ih =>
      rw [hex_cons, List.length_append, ih, List.length_cons]
      simp only [pair, List.length_cons, List.length_nil]
      omega

theorem digit_pair (b : UInt8) : ∀ c ∈ pair b, Digit c := by
  have hb := b.toNat_lt
  intro c hc
  rcases List.mem_cons.mp hc with rfl | hc
  · exact ⟨b.toNat / 16, by omega, rfl⟩
  · rw [List.mem_singleton] at hc
    exact ⟨b.toNat % 16, by omega, hc⟩

theorem digit_hex (bytes : List UInt8) : ∀ c ∈ hex bytes, Digit c := by
  intro c hc
  obtain ⟨b, -, hmem⟩ := List.mem_flatMap.mp hc
  exact digit_pair b c hmem

theorem exists_pair {high low : UInt8} (hhigh : Digit high) (hlow : Digit low) :
    ∃ b, pair b = [high, low] := by
  obtain ⟨n, hn, rfl⟩ := hhigh
  obtain ⟨m, hm, rfl⟩ := hlow
  refine ⟨UInt8.ofNat (16 * n + m), ?_⟩
  have hval : (UInt8.ofNat (16 * n + m)).toNat = 16 * n + m := by
    rw [UInt8.toNat_ofNat']
    omega
  have hdiv : (16 * n + m) / 16 = n := by omega
  have hmod : (16 * n + m) % 16 = m := by omega
  rw [pair, hval, hdiv, hmod]

/-- Digits in even number are the text of octets. -/
theorem exists_hex {text : List UInt8} {n : Nat} (hlen : text.length = 2 * n)
    (h : ∀ c ∈ text, Digit c) : ∃ bytes : List UInt8, bytes.length = n ∧ hex bytes = text := by
  induction n generalizing text with
  | zero => exact ⟨[], rfl, (List.length_eq_zero_iff.mp hlen).symm⟩
  | succ n ih =>
      obtain _ | ⟨high, _ | ⟨low, text⟩⟩ := text
      · simp at hlen
      · simp at hlen
        omega
      · have hrest : text.length = 2 * n := by
          simp only [List.length_cons] at hlen
          omega
        have hdigits : ∀ c ∈ text, Digit c := fun c hc => h c (by simp [hc])
        obtain ⟨b, hb⟩ := exists_pair (h high (by simp)) (h low (by simp))
        obtain ⟨bytes, hbytes, htext⟩ := ih hrest hdigits
        exact ⟨b :: bytes, by simp [hbytes], by rw [hex_cons, hb, htext]; rfl⟩

theorem pair_zero_iff (b : UInt8) : (∀ c ∈ pair b, c = digit 0) ↔ b = 0 := by
  rw [pair, List.forall_mem_cons, List.forall_mem_singleton]
  revert b
  apply forall_octet
  decide +kernel

/-- The text of zeros is all zeros, and no other text is. -/
theorem hex_zero_iff (bytes : List UInt8) :
    (∀ c ∈ hex bytes, c = digit 0) ↔ ∀ b ∈ bytes, b = 0 := by
  induction bytes with
  | nil => simp
  | cons b bytes ih =>
      rw [hex_cons, List.forall_mem_append, List.forall_mem_cons, pair_zero_iff, ih]

/-! ### Big-endian words -/

/-- The number octets spell, the high one first. -/
def bigEndian (octets : List UInt8) : Nat := octets.foldl (fun n c => 256 * n + c.toNat) 0

/-- Four octets shifted into their places. -/
theorem toNat_bigEndian (a b c d : UInt8) :
    ((a.toUInt32 <<< 24) ||| (b.toUInt32 <<< 16) ||| (c.toUInt32 <<< 8) ||| d.toUInt32).toNat =
      bigEndian [a, b, c, d] := by
  have ha := a.toNat_lt
  have hb := b.toNat_lt
  have hc := c.toNat_lt
  have hd := d.toNat_lt
  have h24 : (24 : UInt32).toNat % 32 = 24 := rfl
  have h16 : (16 : UInt32).toNat % 32 = 16 := rfl
  have h8 : (8 : UInt32).toNat % 32 = 8 := rfl
  simp only [UInt32.toNat_or, UInt32.toNat_shiftLeft, UInt8.toNat_toUInt32, h24, h16, h8]
  rw [Nat.mod_eq_of_lt (a := a.toNat <<< 24) (by rw [Nat.shiftLeft_eq]; omega),
    Nat.mod_eq_of_lt (a := b.toNat <<< 16) (by rw [Nat.shiftLeft_eq]; omega),
    Nat.mod_eq_of_lt (a := c.toNat <<< 8) (by rw [Nat.shiftLeft_eq]; omega)]
  have hab : a.toNat <<< 24 ||| b.toNat <<< 16 = (a.toNat * 256 + b.toNat) <<< 16 := by
    rw [← Nat.shiftLeft_add_eq_or_of_lt (by rw [Nat.shiftLeft_eq]; omega)]
    simp only [Nat.shiftLeft_eq]
    omega
  have habc : (a.toNat * 256 + b.toNat) <<< 16 ||| c.toNat <<< 8 =
      ((a.toNat * 256 + b.toNat) * 256 + c.toNat) <<< 8 := by
    rw [← Nat.shiftLeft_add_eq_or_of_lt (by rw [Nat.shiftLeft_eq]; omega)]
    simp only [Nat.shiftLeft_eq]
    omega
  rw [hab, habc, ← Nat.shiftLeft_add_eq_or_of_lt (by omega)]
  simp only [bigEndian, List.foldl_cons, List.foldl_nil, Nat.shiftLeft_eq]
  omega

/-- The four octets of a 32-bit number spell it. -/
theorem bigEndian_ofNat {n : Nat} (h : n < 2 ^ 32) :
    bigEndian [UInt8.ofNat (n >>> 24), UInt8.ofNat (n >>> 16), UInt8.ofNat (n >>> 8),
      UInt8.ofNat n] = n := by
  simp only [bigEndian, List.foldl_cons, List.foldl_nil, UInt8.toNat_ofNat',
    Nat.shiftRight_eq_div_pow]
  omega

end Octets
