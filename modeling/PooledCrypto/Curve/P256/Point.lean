import PooledCrypto.Bytes.Basic
import PooledCrypto.Curve.Modular

/-!
# Points of the curve P-256

The curve is `y ^ 2 = x ^ 3 - 3 x + b` over the numbers modulo a prime. Its points, with one more at
infinity, form a group of prime order, which the base point generates.
-/

namespace PooledCrypto.Curve.P256

/-- The modulus of the coordinates. -/
def fieldOrder : Nat := 0xffffffff00000001000000000000000000000000ffffffffffffffffffffffff

/-- The number of points. -/
def groupOrder : Nat := 0xffffffff00000000ffffffffffffffffbce6faada7179e84f3b9cac2fc632551

/-- A coordinate. -/
abbrev Coordinate := Fin fieldOrder

/-- A number modulo the number of points. -/
abbrev Residue := Fin groupOrder

/-- A coordinate from a number. -/
def coordinate (n : Nat) : Coordinate := ⟨n % fieldOrder, Nat.mod_lt n (by decide)⟩

/-- A residue from a number. -/
def residue (n : Nat) : Residue := ⟨n % groupOrder, Nat.mod_lt n (by decide)⟩

/-- The constant of the curve. -/
def constant : Coordinate :=
  coordinate 0x5ac635d8aa3a93e7b3ebbd55769886bc651d06b0cc53b0f63bce3c3e27d2604b

/-- What the square of the second coordinate has to be. -/
def square (x : Coordinate) : Coordinate := x * x * x - coordinate 3 * x + constant

/-- Whether two coordinates are those of a point. -/
def onCurve (x y : Coordinate) : Prop := y * y = square x

instance (x y : Coordinate) : Decidable (onCurve x y) := inferInstanceAs (Decidable (_ = _))

/-- A point, or a pair of coordinates that is taken for one. -/
inductive Point
  | infinity
  | affine (x y : Coordinate)
  deriving DecidableEq, Repr

namespace Point

/-- The base point. -/
def base : Point :=
  .affine
    (coordinate 0x6b17d1f2e12c4247f8bce6e563a440f277037d812deb33a0f4a13945d898c296)
    (coordinate 0x4fe342e2fe1a7f9b8ee7eb4a7c0f9e162bce33576b315ececbb6406837bf51f5)

/-- The third point on the line of a given slope through two points, with its second coordinate
turned around. -/
def along (slope x₁ y₁ x₂ : Coordinate) : Point :=
  let x := slope * slope - x₁ - x₂
  .affine x (slope * (x₁ - x) - y₁)

/-- Twice a point. -/
def double : Point → Point
  | .infinity => .infinity
  | .affine x y =>
    if y = coordinate 0 then .infinity
    else
      let slope := (coordinate 3 * x * x - coordinate 3) * Modular.inverse (y + y)
      along slope x y x

/-- The sum of two points. -/
def add : Point → Point → Point
  | .infinity, q => q
  | p, .infinity => p
  | .affine x₁ y₁, .affine x₂ y₂ =>
    if x₁ = x₂ then
      if y₁ = y₂ then double (.affine x₁ y₁) else .infinity
    else along ((y₂ - y₁) * Modular.inverse (x₂ - x₁)) x₁ y₁ x₂

/-- How many bits a factor may have. -/
def factorBits : Nat := 256

/-- A multiple of a point, for a factor of at most 256 bits. -/
def multiply (k : Nat) (p : Point) : Point :=
  (List.range factorBits).foldr
    (fun i acc => if k.testBit i then (double acc).add p else double acc) .infinity

/-- The first coordinate, 0 at infinity. -/
def first : Point → Coordinate
  | .infinity => coordinate 0
  | .affine x _ => x

end Point
end PooledCrypto.Curve.P256
