import Mathlib.Tactic

/-!
Unsigned 32-bit arithmetic with the out-of-range behaviour left open. A
computation is taken in the integers and then brought back to 32 bits by
`trunc`; every `Word32` agrees on the values that fit, and they may do anything
on the others. The machine's own arithmetic is `Word32.wrap`. A program whose
result is the same for every `Word32` never computes a value that does not fit.
-/

structure Word32 where
  trunc : Int → UInt32
  trunc_exact : ∀ n : Nat, n < 2 ^ 32 → trunc n = UInt32.ofNat n

namespace Word32

/-- Reduction modulo `2 ^ 32`. -/
def wrap : Word32 where
  trunc := UInt32.ofInt
  trunc_exact n h := by
    apply UInt32.toNat_inj.mp
    rw [UInt32.toNat_ofNat', UInt32.ofInt, UInt32.toNat_ofNat']
    omega

variable (w : Word32)

def cast (n : Nat) : UInt32 := w.trunc n

def add (a b : UInt32) : UInt32 := w.trunc (a.toNat + b.toNat : Nat)

def sub (a b : UInt32) : UInt32 := w.trunc ((a.toNat : Int) - b.toNat)

variable {w} {ω : Word32}

theorem cast_eq {n : Nat} (h : n < 2 ^ 32) : w.cast n = UInt32.ofNat n :=
  w.trunc_exact n h

theorem add_eq {a b : UInt32} (h : a.toNat + b.toNat < 2 ^ 32) :
    w.add a b = UInt32.ofNat (a.toNat + b.toNat) :=
  w.trunc_exact _ h

theorem sub_eq {a b : UInt32} (h : b.toNat ≤ a.toNat) :
    w.sub a b = UInt32.ofNat (a.toNat - b.toNat) := by
  have ha := a.toNat_lt
  have hcast : (a.toNat : Int) - b.toNat = ((a.toNat - b.toNat : Nat) : Int) := by omega
  unfold sub
  rw [hcast, w.trunc_exact _ (by omega)]

theorem cast_any {n : Nat} (h : n < 2 ^ 32) : w.cast n = ω.cast n := by
  rw [cast_eq h, cast_eq h]

theorem add_any {a b : UInt32} (h : a.toNat + b.toNat < 2 ^ 32) : w.add a b = ω.add a b := by
  rw [add_eq h, add_eq h]

theorem sub_any {a b : UInt32} (h : b.toNat ≤ a.toNat) : w.sub a b = ω.sub a b := by
  rw [sub_eq h, sub_eq h]

theorem toNat_ofNat_of_lt {n : Nat} (h : n < 2 ^ 32) : (UInt32.ofNat n).toNat = n := by
  rw [UInt32.toNat_ofNat', Nat.mod_eq_of_lt h]

theorem toNat_cast {n : Nat} (h : n < 2 ^ 32) : (w.cast n).toNat = n := by
  rw [cast_eq h, toNat_ofNat_of_lt h]

theorem toNat_add {a b : UInt32} (h : a.toNat + b.toNat < 2 ^ 32) :
    (w.add a b).toNat = a.toNat + b.toNat := by
  rw [add_eq h, toNat_ofNat_of_lt h]

theorem toNat_sub {a b : UInt32} (h : b.toNat ≤ a.toNat) :
    (w.sub a b).toNat = a.toNat - b.toNat := by
  have ha := a.toNat_lt
  rw [sub_eq h, toNat_ofNat_of_lt (by omega)]

end Word32
