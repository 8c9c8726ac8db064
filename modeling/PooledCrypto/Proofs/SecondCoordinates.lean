import PooledCrypto.Proofs.PublicPoints

/-!
# No second coordinate is zero

A point whose second coordinate is zero would be its own negative, and its first coordinate a root of
the cubic that defines the curve. There is no such root. If there was one, it would be its own power
to the order of the field, as all numbers modulo the prime are. That power is worked out modulo the
cubic, as a polynomial of degree two (`Remainder`). What it differs from the unknown by has an inverse
modulo the cubic, so it is zero at no root.

With that the encodings of a key are all that is read as the key (`ofBytes_eq_ok_iff_encodes`).
-/

namespace PooledCrypto.Curve.P256

/-- A polynomial of degree at most two, which stands for all polynomials that leave it as the
remainder when they are divided by the cubic. -/
structure Remainder where
  constant : Coordinate
  linear : Coordinate
  quadratic : Coordinate
  deriving DecidableEq

namespace Remainder

/-- The polynomial 1. -/
def one : Remainder := ⟨coordinate 1, coordinate 0, coordinate 0⟩

/-- The unknown times a polynomial. Its cube is three times itself less the constant of the curve. -/
def shift (a : Remainder) : Remainder :=
  ⟨-(P256.constant * a.quadratic), a.constant + coordinate 3 * a.quadratic, a.linear⟩

/-- A polynomial times a number. -/
def scale (c : Coordinate) (a : Remainder) : Remainder :=
  ⟨c * a.constant, c * a.linear, c * a.quadratic⟩

/-- The sum. -/
def add (a b : Remainder) : Remainder :=
  ⟨a.constant + b.constant, a.linear + b.linear, a.quadratic + b.quadratic⟩

/-- The product, one coefficient of the second factor after the other. -/
def mul (a b : Remainder) : Remainder :=
  add (scale b.constant a) (shift (add (scale b.linear a) (shift (scale b.quadratic a))))

/-- A power of the unknown, for an exponent of at most 256 bits. -/
def power (n : Nat) : Remainder :=
  (List.range Modular.exponentBits).foldr
    (fun i acc => if n.testBit i then shift (mul acc acc) else mul acc acc) one

/-- The value of a polynomial. -/
def value (a : Remainder) (z : ZMod fieldOrder) : ZMod fieldOrder :=
  residueClass a.constant + residueClass a.linear * z + residueClass a.quadratic * z ^ 2

variable {a b : Remainder} {z : ZMod fieldOrder} {x : Coordinate}

theorem value_one : one.value z = 1 := by
  simp [value, one, residueClass_coordinate]

theorem value_add : (add a b).value z = a.value z + b.value z := by
  simp only [value, add, residueClass_add]
  ring

theorem value_scale (c : Coordinate) : (scale c a).value z = residueClass c * a.value z := by
  simp only [value, scale, residueClass_mul]
  ring

/-- At a root of the cubic the remainder has the value of the polynomial. -/
theorem value_shift (hz : z ^ 3 = 3 * z - residueClass P256.constant) :
    (shift a).value z = z * a.value z := by
  simp only [value, shift, residueClass_neg, residueClass_mul, residueClass_add,
    residueClass_coordinate]
  push_cast
  linear_combination (-residueClass a.quadratic) * hz

theorem value_mul (hz : z ^ 3 = 3 * z - residueClass P256.constant) :
    (mul a b).value z = a.value z * b.value z := by
  rw [mul, value_add, value_scale, value_shift hz, value_add, value_scale, value_shift hz,
    value_scale, value, value]
  ring

theorem value_power (hz : z ^ 3 = 3 * z - residueClass P256.constant) {n : Nat} (h : n < 2 ^ 256) :
    (power n).value z = z ^ n := by
  have hsquare (j : Nat) (a : Remainder) (ha : a.value z = z ^ j) :
      (mul a a).value z = z ^ (2 * j) := by
    rw [value_mul hz, ha, ← pow_add, two_mul]
  have hfactor (j : Nat) (a : Remainder) (ha : a.value z = z ^ (2 * j)) :
      (shift a).value z = z ^ (2 * j + 1) := by
    rw [value_shift hz, ha, pow_succ']
  have hone : one.value z = z ^ 0 := by rw [value_one, pow_zero]
  have hfold := foldr_bits (fun j (a : Remainder) => a.value z = z ^ j) hsquare hfactor n
    Modular.exponentBits hone
  rwa [zero_mul, zero_add, Modular.exponentBits, Nat.mod_eq_of_lt h] at hfold

/-- What the power of the unknown to the order of the field differs from the unknown by. -/
def difference : Remainder :=
  add (power fieldOrder) ⟨coordinate 0, -coordinate 1, coordinate 0⟩

/-- Its inverse. -/
def inverseDifference : Remainder where
  constant := coordinate 0xa969487079f1744798bf0de6fded091b66e9d328eb0645fe5d979d1339b7f47f
  linear := coordinate 0xa4a08891884100c13323460107a8d28eede4387fa3e6e9bfebec9f6d72d0b5cc
  quadratic := coordinate 0x4cde11cf86cb876cd59cf0115813c55af0ecd3cda667d98bb9a347a56aa74a6d

set_option maxRecDepth 8000 in
theorem mul_inverseDifference : mul difference inverseDifference = one := by
  decide +kernel

/-- The cubic has no root. -/
theorem square_ne_zero (x : Coordinate) : square x ≠ coordinate 0 := by
  intro hroot
  have hz : residueClass x ^ 3 = 3 * residueClass x - residueClass P256.constant := by
    have hclass := residueClass_eq_zero.mpr hroot
    simp only [square, residueClass_add, residueClass_sub, residueClass_mul,
      residueClass_coordinate] at hclass
    push_cast at hclass
    linear_combination hclass
  -- a number is its own power, so the difference is zero at the root
  have hzero : difference.value (residueClass x) = 0 := by
    rw [difference, value_add, value_power hz (by decide), ZMod.pow_card, value]
    simp [residueClass_coordinate]
  have hone := congrArg (value · (residueClass x)) mul_inverseDifference
  rw [value_mul hz, hzero, zero_mul, value_one] at hone
  exact zero_ne_one hone

end Remainder

namespace PublicKey

variable {key : PublicKey} {bytes : Bytes}

theorem y_ne_zero (key : PublicKey) : key.y ≠ coordinate 0 := by
  intro hy
  have hcurve : key.y * key.y = square key.x := key.on_curve
  refine Remainder.square_ne_zero key.x ?_
  rw [← hcurve, hy]
  decide

/-- A public key is read from its encodings and from nothing else. -/
theorem ofBytes_eq_ok_iff_encodes : ofBytes bytes = .ok key ↔ key.Encodes bytes :=
  ⟨fun hread => encodes_of_ofBytes hread key.y_ne_zero, ofBytes_of_encodes⟩

end PublicKey
end PooledCrypto.Curve.P256
