import Mathlib.Tactic

/-!
The steps that 64-bit mixers are made of, and why each loses nothing: a constant is
added, a right shift is xored in, a word is multiplied by a unit.
-/

namespace Mixer

theorem add_injective (c : UInt64) : Function.Injective fun z : UInt64 => z + c := by
  intro a b h
  exact (UInt64.add_left_inj c).mp h

/-- Two words with one image differ by a word that its own shift leaves alone. -/
theorem xorShift_injective {k : UInt64} (hk : 0 < k.toNat % 64) :
    Function.Injective fun z : UInt64 => z ^^^ (z >>> k) := by
  intro a b h
  have hdiff : (a ^^^ b) >>> k = a ^^^ b := by
    have hcross : (a ^^^ (a >>> k)) ^^^ (b ^^^ (b >>> k)) = 0 := UInt64.xor_eq_zero_iff.mpr h
    have hmove : (a ^^^ (a >>> k)) ^^^ (b ^^^ (b >>> k)) =
        ((a >>> k) ^^^ (b >>> k)) ^^^ (a ^^^ b) := by ac_rfl
    rw [hmove] at hcross
    rw [UInt64.shiftRight_xor]
    exact UInt64.xor_eq_zero_iff.mp hcross
  have hnat := congrArg UInt64.toNat hdiff
  rw [UInt64.toNat_shiftRight, Nat.shiftRight_eq_div_pow] at hnat
  have hzero : (a ^^^ b).toNat = 0 := by
    by_contra hpos
    have hpow : 1 < 2 ^ (k.toNat % 64) := Nat.one_lt_two_pow (by omega)
    have hlt := Nat.div_lt_self (Nat.pos_of_ne_zero hpos) hpow
    omega
  exact UInt64.xor_eq_zero_iff.mp (UInt64.toNat_inj.mp hzero)

theorem mul_injective {m m' : UInt64} (h : m * m' = 1) :
    Function.Injective fun z : UInt64 => z * m := by
  intro a b hab
  have hboth : a * m * m' = b * m * m' := congrArg (· * m') hab
  rwa [UInt64.mul_assoc, UInt64.mul_assoc, h, UInt64.mul_one, UInt64.mul_one] at hboth

instance finiteUInt64 : Finite UInt64 :=
  Finite.of_injective UInt64.toFin fun _ _ => UInt64.toFin_inj.mp

/-- No two of the first words of a stream are the same. -/
theorem ofNat_injOn : Set.InjOn UInt64.ofNat {n | n < 2 ^ 64} := by
  intro m hm n hn h
  have hnat := congrArg UInt64.toNat h
  rwa [UInt64.toNat_ofNat_of_lt' hm, UInt64.toNat_ofNat_of_lt' hn] at hnat

end Mixer
