import Mathlib.FieldTheory.Finite.Basic
import PooledCrypto.Curve.Modular

/-!
# Modular arithmetic is arithmetic in a ring

The numbers modulo `m` that the curve is computed with are the elements of the ring `ZMod m`, by
`residueClass`. A power is computed bit by bit from the highest one down. What is computed that way
is a fold over bit positions, and `foldr_bits` is the one law of such folds. It is where powers of
numbers and multiples of points come from.

If the modulus is prime, the inverse is the inverse. If it is one less than a multiple of four
besides, a square root is found of every square.
-/

namespace PooledCrypto.Curve

variable {m : Nat}

/-- The residue class of a number. -/
def residueClass (x : Fin m) : ZMod m := (x.val : ZMod m)

theorem residueClass_mk (n : Nat) (h : n % m < m) : residueClass ⟨n % m, h⟩ = (n : ZMod m) :=
  ZMod.natCast_mod n m

@[simp] theorem residueClass_add (x y : Fin m) :
    residueClass (x + y) = residueClass x + residueClass y := by
  rw [residueClass, Fin.val_add, ZMod.natCast_mod, Nat.cast_add]
  rfl

@[simp] theorem residueClass_mul (x y : Fin m) :
    residueClass (x * y) = residueClass x * residueClass y := by
  rw [residueClass, Fin.val_mul, ZMod.natCast_mod, Nat.cast_mul]
  rfl

@[simp] theorem residueClass_sub (x y : Fin m) :
    residueClass (x - y) = residueClass x - residueClass y := by
  have hsum : residueClass (x - y) + residueClass y = residueClass x := by
    rw [← residueClass_add]
    congr 1
    apply Fin.ext
    rw [Fin.val_add, Fin.sub_def]
    have hy := y.isLt
    have hx := x.isLt
    simp only [Nat.mod_add_mod]
    rw [show m - y.val + x.val + y.val = x.val + m by omega, Nat.add_mod_right,
      Nat.mod_eq_of_lt hx]
  exact eq_sub_of_add_eq hsum

@[simp] theorem residueClass_neg (x : Fin m) : residueClass (-x) = -residueClass x := by
  have hsum : residueClass (-x) + residueClass x = 0 := by
    have hx := x.isLt
    rw [residueClass, residueClass, Fin.neg_def, ZMod.natCast_mod, ← Nat.cast_add,
      Nat.sub_add_cancel hx.le, ZMod.natCast_self]
  exact eq_neg_of_add_eq_zero_left hsum

/-- No two numbers below the modulus are in one class. -/
theorem residueClass_injective : Function.Injective (residueClass : Fin m → ZMod m) := by
  intro x y h
  apply Fin.ext
  have hmod := (ZMod.natCast_eq_natCast_iff' x.val y.val m).mp h
  rwa [Nat.mod_eq_of_lt x.isLt, Nat.mod_eq_of_lt y.isLt] at hmod

theorem residueClass_inj {x y : Fin m} : residueClass x = residueClass y ↔ x = y :=
  residueClass_injective.eq_iff

theorem val_residueClass (x : Fin m) : (residueClass x).val = x.val :=
  ZMod.val_cast_of_lt x.isLt

/-! ## Folding over the bits of a number -/

/-- What is doubled for every bit of `k` from the highest one down, and goes one further where the
bit is set, goes through the numbers that the bits read so far stand for. -/
theorem foldr_bits {α : Type} (R : Nat → α → Prop) {twice further : α → α}
    (htwice : ∀ j a, R j a → R (2 * j) (twice a))
    (hfurther : ∀ j a, R (2 * j) a → R (2 * j + 1) (further a))
    (k n : Nat) {j : Nat} {a : α} (h : R j a) :
    R (j * 2 ^ n + k % 2 ^ n) ((List.range n).foldr
      (fun i acc => if k.testBit i then further (twice acc) else twice acc) a) := by
  induction n generalizing j a with
  | zero => simpa [Nat.mod_one] using h
  | succ n ih =>
      -- the highest position is the last one of the range, so it is folded first
      have hnext : R (2 * j + (k.testBit n).toNat)
          (if k.testBit n then further (twice a) else twice a) := by
        cases k.testBit n
        · exact htwice j a h
        · exact hfurther j _ (htwice j a h)
      have hrest := ih hnext
      rw [List.range_succ, List.foldr_append]
      have hvalue : j * 2 ^ (n + 1) + k % 2 ^ (n + 1)
          = (2 * j + (k.testBit n).toNat) * 2 ^ n + k % 2 ^ n := by
        rw [Nat.mod_pow_succ, Nat.toNat_testBit, pow_succ]
        ring
      rw [hvalue]
      exact hrest

namespace Modular

theorem residueClass_one (x : Fin m) : residueClass (one x) = 1 := by
  rw [one, residueClass_mk, Nat.cast_one]

/-- A power is a power. -/
theorem residueClass_pow (x : Fin m) {n : Nat} (h : n < 2 ^ 256) :
    residueClass (pow x n) = residueClass x ^ n := by
  have hsquare (j : Nat) (a : Fin m) (ha : residueClass a = residueClass x ^ j) :
      residueClass (a * a) = residueClass x ^ (2 * j) := by
    rw [residueClass_mul, ha, ← pow_add, two_mul]
  have hfactor (j : Nat) (a : Fin m) (ha : residueClass a = residueClass x ^ (2 * j)) :
      residueClass (a * x) = residueClass x ^ (2 * j + 1) := by
    rw [residueClass_mul, ha, ← pow_succ]
  have hone : residueClass (one x) = residueClass x ^ 0 := by rw [residueClass_one, pow_zero]
  have hfold := foldr_bits (fun j a => residueClass a = residueClass x ^ j) hsquare hfactor n
    exponentBits hone
  rwa [zero_mul, zero_add, exponentBits, Nat.mod_eq_of_lt h] at hfold

variable [hp : Fact m.Prime]

/-- Modulo a prime the inverse is the one of the field. -/
theorem residueClass_inverse (x : Fin m) (htwo : 2 < m) (h : m < 2 ^ 256) :
    residueClass (inverse x) = (residueClass x)⁻¹ := by
  rw [inverse, residueClass_pow x (by omega)]
  by_cases hx : residueClass x = 0
  · rw [hx, zero_pow (by omega), inv_zero]
  · refine eq_inv_of_mul_eq_one_left ?_
    rw [← pow_succ, show m - 2 + 1 = m - 1 by omega]
    exact ZMod.pow_card_sub_one_eq_one hx

/-- If the modulus is one less than a multiple of four, every square has its root. -/
theorem sqrt?_isSome {x root : Fin m} (h : m < 2 ^ 256) (hfour : m % 4 = 3)
    (hroot : root * root = x) : (sqrt? x).isSome = true := by
  have hback : pow x ((m + 1) / 4) * pow x ((m + 1) / 4) = x := by
    apply residueClass_injective
    rw [residueClass_mul, residueClass_pow x (by omega), ← hroot, residueClass_mul]
    by_cases hzero : residueClass root = 0
    · rw [hzero, mul_zero, zero_pow (by omega), mul_zero]
    · rw [← pow_add, ← pow_two, ← pow_mul,
        show 2 * ((m + 1) / 4 + (m + 1) / 4) = (m - 1) + 2 by omega, pow_add,
        ZMod.pow_card_sub_one_eq_one hzero, one_mul]
  rw [sqrt?, if_pos hback]
  rfl

end Modular
end PooledCrypto.Curve
