import Microtel.Lib.Base64
import Microtel.Wire.RetryInfo

/-!
`Base64UrlDecode` against base64: what it makes of a text in either alphabet, and
which texts it refuses. A character on its own at the end of a text is not looked
at, although no text of octets ends that way.
-/

namespace Microtel.Wire.Grpc

open Base64

/-! ### Groups -/

theorem b64CharValue_char (alphabet : Alphabet) {n : Nat} (hn : n < 64) :
    b64CharValue (alphabet.char n) = some (UInt8.ofNat n) := by
  have hall : ∀ alphabet : Alphabet, ∀ n : Fin 64,
      b64CharValue (alphabet.char n) = some (UInt8.ofNat n) := by
    intro alphabet
    cases alphabet
    · decide +kernel
    · decide +kernel
  exact hall alphabet ⟨n, hn⟩

/-- The decoder has a value for the characters of the alphabets, and for no others. -/
theorem b64CharValue_none_iff (c : UInt8) : b64CharValue c = none ↔ ¬ IsChar c := by
  constructor
  · rintro hnone ⟨alphabet, n, hn, rfl⟩
    rw [b64CharValue_char alphabet hn] at hnone
    cases hnone
  · intro hnot
    -- as a `Bool`, so that no more than the one value is tried
    have hall : ∀ c : Fin 256, (b64CharValue (UInt8.ofNat c)).all (fun v =>
        decide (v.toNat < 64 ∧ (Alphabet.char .standard v.toNat = UInt8.ofNat c ∨
          Alphabet.char .urlSafe v.toNat = UInt8.ofNat c))) = true := by
      decide +kernel
    cases hvalue : b64CharValue c with
    | none => rfl
    | some v =>
        have hfound := hall ⟨c.toNat, c.toNat_lt⟩
        rw [UInt8.ofNat_toNat, hvalue, Option.all_some, decide_eq_true_iff] at hfound
        obtain ⟨hlt, hchar⟩ := hfound
        exact absurd (hchar.elim (fun h => ⟨_, _, hlt, h⟩) fun h => ⟨_, _, hlt, h⟩) hnot

/-- A digit shifted to make room for `s` bits, and those bits. -/
theorem shifted_or {x y s : Nat} (hs : s < 8) (hy : y < 2 ^ s) :
    (UInt8.ofNat x <<< UInt8.ofNat s) ||| UInt8.ofNat y = UInt8.ofNat (x * 2 ^ s + y) := by
  have hshift : s % 256 % 8 = s := by omega
  have hjoin : x * 2 ^ s + y = x <<< s ||| y := by
    rw [← Nat.shiftLeft_add_eq_or_of_lt hy, Nat.shiftLeft_eq]
  apply UInt8.toNat_inj.mp
  rw [hjoin]
  simp only [UInt8.toNat_or, UInt8.toNat_shiftLeft, UInt8.toNat_ofNat', hshift]
  rw [Nat.or_mod_two_pow, Nat.shiftLeft_eq, Nat.shiftLeft_eq, Nat.mod_mul_mod]

/-- The high bits of a digit. -/
theorem shifted_digit {y s : Nat} (hs : s < 8) (hy : y < 64) :
    UInt8.ofNat y >>> UInt8.ofNat s = UInt8.ofNat (y / 2 ^ s) := by
  have hshift : s % 256 % 8 = s := by omega
  have hle : y / 2 ^ s ≤ y := Nat.div_le_self y (2 ^ s)
  have hwhole : y % 2 ^ 8 = y := by omega
  have hpart : y / 2 ^ s % 2 ^ 8 = y / 2 ^ s := Nat.mod_eq_of_lt (by omega)
  apply UInt8.toNat_inj.mp
  simp only [UInt8.toNat_shiftRight, UInt8.toNat_ofNat', hshift, hwhole, hpart]
  exact Nat.shiftRight_eq_div_pow y s

/-- The low bits of a digit. -/
theorem masked_digit (x : Nat) {s : Nat} (hs : s ≤ 8) :
    UInt8.ofNat x &&& UInt8.ofNat (2 ^ s - 1) = UInt8.ofNat (x % 2 ^ s) := by
  have hpow : 2 ^ s ≤ 2 ^ 8 := Nat.pow_le_pow_right (by decide) hs
  have hlt : x % 2 ^ s < 2 ^ s := Nat.mod_lt x (by positivity)
  have hmask : (2 ^ s - 1) % 2 ^ 8 = 2 ^ s - 1 := Nat.mod_eq_of_lt (by omega)
  have hpart : x % 2 ^ s % 2 ^ 8 = x % 2 ^ s := Nat.mod_eq_of_lt (by omega)
  apply UInt8.toNat_inj.mp
  simp only [UInt8.toNat_and, UInt8.toNat_ofNat', hmask, hpart]
  rw [Nat.and_two_pow_sub_one_eq_mod, Nat.mod_mod_of_dvd x (Nat.pow_dvd_pow 2 hs)]

/-- The digits of a first octet. -/
theorem first_octet (x : Nat) {y : Nat} (hy : y < 64) :
    (UInt8.ofNat x <<< 2) ||| (UInt8.ofNat y >>> 4) = UInt8.ofNat (x * 4 + y / 16) := by
  have hhigh : UInt8.ofNat y >>> 4 = UInt8.ofNat (y / 16) := shifted_digit (s := 4) (by decide) hy
  rw [hhigh]
  exact shifted_or (s := 2) (by decide) (by omega)

theorem second_octet (x : Nat) {y : Nat} (hy : y < 64) :
    ((UInt8.ofNat x &&& kB64Mask4Bit) <<< 4) ||| (UInt8.ofNat y >>> 2) =
      UInt8.ofNat (x % 16 * 16 + y / 4) := by
  have hlow : UInt8.ofNat x &&& kB64Mask4Bit = UInt8.ofNat (x % 16) :=
    masked_digit (s := 4) x (by decide)
  have hhigh : UInt8.ofNat y >>> 2 = UInt8.ofNat (y / 4) := shifted_digit (s := 2) (by decide) hy
  rw [hlow, hhigh]
  exact shifted_or (s := 4) (by decide) (by omega)

theorem third_octet (x : Nat) {y : Nat} (hy : y < 64) :
    ((UInt8.ofNat x &&& kB64Mask2Bit) <<< 6) ||| UInt8.ofNat y = UInt8.ofNat (x % 4 * 64 + y) := by
  have hlow : UInt8.ofNat x &&& kB64Mask2Bit = UInt8.ofNat (x % 4) :=
    masked_digit (s := 2) x (by decide)
  rw [hlow]
  exact shifted_or (s := 6) (by decide) hy

theorem octet_eq {a : UInt8} {n : Nat} (h : n = a.toNat) : UInt8.ofNat n = a := by
  rw [h, UInt8.ofNat_toNat]

/-- The groups of a text are the octets it was made of. -/
theorem base64Groups_digits (alphabet : Alphabet) (octets : Bytes) :
    base64Groups ((digits octets).map alphabet.char) = some octets := by
  have hbyte : ∀ a : UInt8, a.toNat < 256 := UInt8.toNat_lt
  fun_induction digits octets with
  | case1 => rfl
  | case2 a =>
      have ha := hbyte a
      have hx : a.toNat / 4 < 64 := by omega
      have hy : a.toNat % 4 * 16 < 64 := by omega
      simp only [List.map_cons, List.map_nil, base64Groups, b64CharValue_char alphabet hx,
        b64CharValue_char alphabet hy, first_octet _ hy]
      rw [octet_eq (a := a) (by omega)]
  | case3 a b =>
      have ha := hbyte a
      have hb := hbyte b
      have hx : a.toNat / 4 < 64 := by omega
      have hy : a.toNat % 4 * 16 + b.toNat / 16 < 64 := by omega
      have hz : b.toNat % 16 * 4 < 64 := by omega
      simp only [List.map_cons, List.map_nil, base64Groups, b64CharValue_char alphabet hx,
        b64CharValue_char alphabet hy, b64CharValue_char alphabet hz, first_octet _ hy,
        second_octet _ hz]
      rw [octet_eq (a := a) (by omega), octet_eq (a := b) (by omega)]
  | case4 a b c rest ih =>
      have ha := hbyte a
      have hb := hbyte b
      have hc := hbyte c
      have hx : a.toNat / 4 < 64 := by omega
      have hy : a.toNat % 4 * 16 + b.toNat / 16 < 64 := by omega
      have hz : b.toNat % 16 * 4 + c.toNat / 64 < 64 := by omega
      have ht : c.toNat % 64 < 64 := by omega
      simp only [List.cons_append, List.nil_append, List.map_cons, base64Groups,
        b64CharValue_char alphabet hx, b64CharValue_char alphabet hy, b64CharValue_char alphabet hz,
        b64CharValue_char alphabet ht, first_octet _ hy, second_octet _ hz, third_octet _ ht, ih,
        Option.map_some]
      rw [octet_eq (a := a) (by omega), octet_eq (a := b) (by omega), octet_eq (a := c) (by omega)]

/-! ### Padding -/

/-- The text before its padding. -/
def unpadded (sv : Bytes) : Bytes := (sv.reverse.dropWhile (· = 0x3D)).reverse

theorem unpadded_append {chars : Bytes} (h : ∀ c ∈ chars, b64CharValue c ≠ none) (n : Nat) :
    unpadded (chars ++ List.replicate n 0x3D) = chars := by
  have hpad : ∀ c ∈ List.replicate n (0x3D : UInt8), decide (c = 0x3D) = true := by
    intro c hc
    rw [List.eq_of_mem_replicate hc]
    rfl
  have hlast : chars.reverse.dropWhile (· = 0x3D) = chars.reverse := by
    cases hrev : chars.reverse with
    | nil => rfl
    | cons c rest =>
        have hmem : c ∈ chars := by
          rw [← List.mem_reverse, hrev]
          exact List.mem_cons_self
        apply List.dropWhile_cons_of_neg
        intro heq
        have hvalue := h c hmem
        rw [of_decide_eq_true heq] at hvalue
        exact hvalue rfl
  unfold unpadded
  rw [List.reverse_append, List.reverse_replicate, List.dropWhile_append_of_pos hpad, hlast,
    List.reverse_reverse]

theorem unpadded_text (alphabet : Alphabet) (padded : Bool) (octets : Bytes) :
    unpadded (text alphabet padded octets) = (digits octets).map alphabet.char := by
  have hchars : ∀ c ∈ (digits octets).map alphabet.char, b64CharValue c ≠ none := by
    intro c hc
    obtain ⟨n, hn, rfl⟩ := List.mem_map.mp hc
    rw [b64CharValue_char alphabet (digits_lt octets n hn)]
    simp
  unfold text
  cases padded with
  | false =>
      have hnone := unpadded_append hchars 0
      rwa [List.replicate_zero, List.append_nil] at hnone
  | true => exact unpadded_append hchars _

/-- Round trip, in either alphabet, with or without padding. -/
theorem base64UrlDecode_text (alphabet : Alphabet) (padded : Bool) (octets : Bytes) :
    base64UrlDecode (text alphabet padded octets) = some octets := by
  have hdecode : ∀ sv, base64UrlDecode sv = base64Groups (unpadded sv) := fun _ => rfl
  rw [hdecode, unpadded_text, base64Groups_digits]

/-! ### Refusals -/

/-- No text of octets: a character of neither alphabet before the padding, or one
character too many. -/
def NotBase64 (sv : Bytes) : Prop :=
  (∃ c ∈ unpadded sv, ¬ IsChar c) ∨ (unpadded sv).length % 4 = 1

/-- The characters the loop looks at. -/
def examined (chars : Bytes) : Bytes :=
  if chars.length % 4 = 1 then chars.dropLast else chars

theorem examined_cons (a b c d : UInt8) (rest : Bytes) :
    examined (a :: b :: c :: d :: rest) = a :: b :: c :: d :: examined rest := by
  unfold examined
  have hlen : (a :: b :: c :: d :: rest).length % 4 = rest.length % 4 := by
    simp only [List.length_cons]
    omega
  rw [hlen]
  split
  · next hone =>
    cases rest with
    | nil => simp at hone
    | cons e rest => rfl
  · rfl

/-- The loop refuses a text if and only if it meets a character of neither alphabet. -/
theorem base64Groups_none_iff : ∀ chars : Bytes,
    base64Groups chars = none ↔ ∃ c ∈ examined chars, b64CharValue c = none
  | [] => by simp [base64Groups, examined]
  | [a] => by simp [base64Groups, examined]
  | [a, b] => by
      unfold base64Groups examined
      cases ha : b64CharValue a <;> cases hb : b64CharValue b <;> simp [ha, hb]
  | [a, b, c] => by
      unfold base64Groups examined
      cases ha : b64CharValue a <;> cases hb : b64CharValue b <;> cases hc : b64CharValue c <;>
        simp [ha, hb, hc]
  | a :: b :: c :: d :: rest => by
      have ih := base64Groups_none_iff rest
      rw [examined_cons]
      unfold base64Groups
      cases ha : b64CharValue a <;> cases hb : b64CharValue b <;> cases hc : b64CharValue c <;>
        cases hd : b64CharValue d <;> simp [ha, hb, hc, hd, ih]

/-- What is no base64 is refused, but for a last character on its own after
characters of the alphabets. -/
theorem base64UrlDecode_rejects_iff (sv : Bytes) :
    (NotBase64 sv → base64UrlDecode sv = none) ↔
      ¬ ((unpadded sv).length % 4 = 1 ∧ ∀ c ∈ (unpadded sv).dropLast, IsChar c) := by
  have hdecode : base64UrlDecode sv = none ↔
      ∃ c ∈ examined (unpadded sv), ¬ IsChar c := by
    simp only [← b64CharValue_none_iff]
    exact base64Groups_none_iff _
  rw [hdecode]
  unfold NotBase64 examined
  by_cases hone : (unpadded sv).length % 4 = 1
  · rw [if_pos hone]
    constructor
    · rintro h ⟨-, hgood⟩
      obtain ⟨c, hc, hnot⟩ := h (.inr hone)
      exact hnot (hgood c hc)
    · intro h _
      by_contra hnone
      push Not at hnone
      exact h ⟨hone, hnone⟩
  · rw [if_neg hone]
    constructor
    · rintro - ⟨hone', -⟩
      exact hone hone'
    · rintro - (hbad | hone')
      · exact hbad
      · exact absurd hone' hone

end Microtel.Wire.Grpc
