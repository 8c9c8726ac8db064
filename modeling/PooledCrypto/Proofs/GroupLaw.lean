import Mathlib.AlgebraicGeometry.EllipticCurve.Affine.Point
import Mathlib.GroupTheory.OrderOfElement
import Mathlib.Tactic.LinearCombination
import PooledCrypto.Curve.P256.Key
import PooledCrypto.Proofs.PrimeOrders

/-!
# The points of P-256 are a group

The formulas that points are added, doubled and multiplied with are those of the group of an elliptic
curve over a field. `curve` is that curve and `Element` its group. `pointOf` writes an element in
coordinates, and it carries the group's sum to the sum of points (`add_pointOf`), and so its
multiples to the multiples that are computed bit by bit (`multiply_pointOf`).

The base point has order `groupOrder`. The multiple that has to vanish is computed, and the order
is prime.
-/

namespace PooledCrypto.Curve.P256

/-- The curve over the field of the coordinates. -/
def curve : WeierstrassCurve.Affine (ZMod fieldOrder) := ⟨0, 0, 0, -3, residueClass constant⟩

/-- The group of the curve. -/
abbrev Element := curve.Point

/-! ## Coordinates and the field -/

theorem residueClass_coordinate (n : Nat) : residueClass (coordinate n) = (n : ZMod fieldOrder) :=
  residueClass_mk n _

theorem residueClass_eq_zero {x : Coordinate} : residueClass x = 0 ↔ x = coordinate 0 := by
  rw [← residueClass_inj, residueClass_coordinate, Nat.cast_zero]

theorem residueClass_coordinate_inverse (x : Coordinate) :
    residueClass (Modular.inverse x) = (residueClass x)⁻¹ :=
  Modular.residueClass_inverse x (by decide) (by decide)

/-- The coordinate of an element of the field. -/
def coordinateOf (z : ZMod fieldOrder) : Coordinate := ⟨z.val, z.val_lt⟩

@[simp] theorem coordinateOf_residueClass (x : Coordinate) : coordinateOf (residueClass x) = x :=
  Fin.ext (val_residueClass x)

@[simp] theorem residueClass_coordinateOf (z : ZMod fieldOrder) :
    residueClass (coordinateOf z) = z :=
  ZMod.natCast_zmod_val z

/-- Doubling loses nothing, since the order of the field is odd. -/
theorem add_self_eq_zero_iff {z : ZMod fieldOrder} : z + z = 0 ↔ z = 0 := by
  have htwo : (2 : ZMod fieldOrder) ≠ 0 := by
    rw [← Nat.cast_two, ← residueClass_coordinate, Ne, residueClass_eq_zero]
    decide
  rw [← two_mul, mul_eq_zero, or_iff_right htwo]

/-! ## The curve -/

theorem curve_Δ_ne_zero : curve.Δ ≠ 0 := by
  have hΔ : curve.Δ = residueClass (coordinate 16 * (coordinate 108
      - coordinate 27 * constant * constant)) := by
    simp only [WeierstrassCurve.Δ, WeierstrassCurve.b₂, WeierstrassCurve.b₄, WeierstrassCurve.b₆,
      WeierstrassCurve.b₈, curve, residueClass_mul, residueClass_sub, residueClass_coordinate]
    push_cast
    ring
  rw [hΔ, Ne, residueClass_eq_zero]
  decide

theorem onCurve_iff {x y : Coordinate} :
    onCurve x y ↔ curve.Nonsingular (residueClass x) (residueClass y) := by
  rw [← WeierstrassCurve.Affine.equation_iff_nonsingular_of_Δ_ne_zero curve_Δ_ne_zero,
    WeierstrassCurve.Affine.equation_iff, onCurve, ← residueClass_inj]
  simp only [square, curve, residueClass_add, residueClass_sub, residueClass_mul,
    residueClass_coordinate]
  push_cast
  constructor <;> intro h <;> linear_combination h

theorem negY_curve (x y : ZMod fieldOrder) : curve.negY x y = -y := by
  simp [WeierstrassCurve.Affine.negY, curve]

/-! ## Elements in coordinates -/

/-- An element of the group as a point. -/
def pointOf : Element → Point
  | .zero => .infinity
  | .some x y _ => .affine (coordinateOf x) (coordinateOf y)

@[simp] theorem pointOf_zero : pointOf 0 = .infinity := rfl

theorem pointOf_injective : Function.Injective pointOf := by
  have hinj : Function.Injective coordinateOf :=
    Function.LeftInverse.injective residueClass_coordinateOf
  rintro (_ | ⟨x₁, y₁, h₁⟩) (_ | ⟨x₂, y₂, h₂⟩) h
  · rfl
  · exact absurd h (by simp [pointOf])
  · exact absurd h (by simp [pointOf])
  · obtain ⟨hx, hy⟩ := Point.affine.inj h
    obtain rfl := hinj hx
    obtain rfl := hinj hy
    rfl

theorem pointOf_eq_infinity {g : Element} : pointOf g = .infinity ↔ g = 0 := by
  rw [← pointOf_zero, pointOf_injective.eq_iff]

/-- An element other than zero has coordinates on the curve. -/
theorem exists_affine {g : Element} (hg : g ≠ 0) : ∃ x y,
    ∃ h : curve.Nonsingular (residueClass x) (residueClass y), g = .some _ _ h := by
  cases g with
  | zero => exact absurd rfl hg
  | some x y h =>
      refine ⟨coordinateOf x, coordinateOf y, ?_, ?_⟩
      · rwa [residueClass_coordinateOf, residueClass_coordinateOf]
      · simp only [residueClass_coordinateOf]

theorem pointOf_some {x y : Coordinate}
    (h : curve.Nonsingular (residueClass x) (residueClass y)) :
    pointOf (.some _ _ h) = .affine x y := by
  rw [pointOf, coordinateOf_residueClass, coordinateOf_residueClass]

/-! ## The group law -/

/-- The formulas for the third point on a line are those of the curve. -/
theorem pointOf_along {slope x₁ y₁ x₂ : Coordinate} {ℓ : ZMod fieldOrder}
    (hℓ : residueClass slope = ℓ)
    (h : curve.Nonsingular (curve.addX (residueClass x₁) (residueClass x₂) ℓ)
      (curve.addY (residueClass x₁) (residueClass x₂) (residueClass y₁) ℓ)) :
    pointOf (.some _ _ h) = .along slope x₁ y₁ x₂ := by
  have hx : curve.addX (residueClass x₁) (residueClass x₂) ℓ
      = residueClass (slope * slope - x₁ - x₂) := by
    simp only [WeierstrassCurve.Affine.addX, curve, residueClass_sub, residueClass_mul, hℓ]
    ring
  have hy : curve.addY (residueClass x₁) (residueClass x₂) (residueClass y₁) ℓ
      = residueClass (slope * (x₁ - (slope * slope - x₁ - x₂)) - y₁) := by
    rw [WeierstrassCurve.Affine.addY, negY_curve, WeierstrassCurve.Affine.negAddY, hx]
    simp only [residueClass_sub, residueClass_mul, hℓ]
    ring
  rw [pointOf, Point.along, hx, hy, coordinateOf_residueClass, coordinateOf_residueClass]

/-- The double of a point is the element added to itself. -/
theorem double_pointOf (g : Element) : (pointOf g).double = pointOf (g + g) := by
  by_cases hg : g = 0
  · rw [hg, add_zero]
    rfl
  obtain ⟨x, y, h, rfl⟩ := exists_affine hg
  rw [pointOf_some, Point.double]
  by_cases hy : y = coordinate 0
  -- a vertical tangent: the element is its own negative
  · have hneg : residueClass y = curve.negY (residueClass x) (residueClass y) := by
      rw [negY_curve, residueClass_eq_zero.mpr hy, neg_zero]
    rw [if_pos hy, WeierstrassCurve.Affine.Point.add_self_of_Y_eq hneg, pointOf_zero]
  · have hneg : residueClass y ≠ curve.negY (residueClass x) (residueClass y) := by
      rw [negY_curve, Ne, ← add_eq_zero_iff_eq_neg, add_self_eq_zero_iff, residueClass_eq_zero]
      exact hy
    -- the slope as the curve has it, with three of the general equation's terms zero
    have hnumerator : residueClass (coordinate 3 * x * x - coordinate 3)
        = 3 * residueClass x ^ 2 + 2 * curve.a₂ * residueClass x + curve.a₄
          - curve.a₁ * residueClass y := by
      simp only [curve, residueClass_sub, residueClass_mul, residueClass_coordinate]
      push_cast
      ring
    rw [if_neg hy, WeierstrassCurve.Affine.Point.add_self_of_Y_ne hneg]
    refine (pointOf_along ?_ _).symm
    rw [WeierstrassCurve.Affine.slope_of_Y_ne rfl hneg, negY_curve, div_eq_mul_inv,
      residueClass_mul, residueClass_coordinate_inverse, residueClass_add, sub_neg_eq_add,
      hnumerator]

/-- The sum of points is the sum of the elements. -/
theorem add_pointOf (g k : Element) : (pointOf g).add (pointOf k) = pointOf (g + k) := by
  by_cases hg : g = 0
  · rw [hg, zero_add, pointOf_zero, Point.add]
  by_cases hk : k = 0
  · rw [hk, add_zero, pointOf_zero]
    cases pointOf g <;> rfl
  obtain ⟨x₁, y₁, h₁, rfl⟩ := exists_affine hg
  obtain ⟨x₂, y₂, h₂, rfl⟩ := exists_affine hk
  by_cases hx : x₁ = x₂
  · subst hx
    by_cases hy : y₁ = y₂
    · subst hy
      rw [← double_pointOf, pointOf_some, Point.add, if_pos rfl, if_pos rfl]
    · -- two points with one first coordinate are the same or each other's negative
      have hneg : residueClass y₁ = curve.negY (residueClass x₁) (residueClass y₂) :=
        (WeierstrassCurve.Affine.Y_eq_of_X_eq h₁.1 h₂.1 rfl).resolve_left
          fun heq => hy (residueClass_inj.mp heq)
      rw [WeierstrassCurve.Affine.Point.add_of_Y_eq rfl hneg, pointOf_zero, pointOf_some,
        pointOf_some, Point.add, if_pos rfl, if_neg hy]
  · have hne : residueClass x₁ ≠ residueClass x₂ := fun heq => hx (residueClass_inj.mp heq)
    rw [WeierstrassCurve.Affine.Point.add_of_X_ne hne, pointOf_some, pointOf_some, Point.add,
      if_neg hx]
    refine (pointOf_along ?_ _).symm
    -- the slope is taken between the points in the other order, which changes both signs
    rw [WeierstrassCurve.Affine.slope_of_X_ne hne, residueClass_mul,
      residueClass_coordinate_inverse, residueClass_sub, residueClass_sub,
      ← neg_sub (residueClass y₁), ← neg_sub (residueClass x₁), inv_neg, neg_mul_neg,
      div_eq_mul_inv]

/-- The multiple of a point is the multiple of the element. -/
theorem multiply_pointOf {k : Nat} (hk : k < 2 ^ 256) (g : Element) :
    Point.multiply k (pointOf g) = pointOf (k • g) := by
  have htwice (j : Nat) (p : Point) (hp : p = pointOf (j • g)) :
      p.double = pointOf ((2 * j) • g) := by
    rw [hp, double_pointOf, two_mul, add_nsmul]
  have hfurther (j : Nat) (p : Point) (hp : p = pointOf ((2 * j) • g)) :
      p.add (pointOf g) = pointOf ((2 * j + 1) • g) := by
    rw [hp, add_pointOf, succ_nsmul]
  have hnone : Point.infinity = pointOf (0 • g) := by rw [zero_nsmul, pointOf_zero]
  have hfold := foldr_bits (fun j p => p = pointOf (j • g)) htwice hfurther k Point.factorBits hnone
  rwa [zero_mul, zero_add, Point.factorBits, Nat.mod_eq_of_lt hk] at hfold

/-! ## The base point -/

theorem onCurve_base :
    onCurve (coordinate 0x6b17d1f2e12c4247f8bce6e563a440f277037d812deb33a0f4a13945d898c296)
      (coordinate 0x4fe342e2fe1a7f9b8ee7eb4a7c0f9e162bce33576b315ececbb6406837bf51f5) := by
  decide

/-- The element of the base point. -/
def generator : Element := .some _ _ (onCurve_iff.mp onCurve_base)

theorem pointOf_generator : pointOf generator = .base := pointOf_some _

theorem generator_ne_zero : generator ≠ 0 := WeierstrassCurve.Affine.Point.some_ne_zero _

set_option maxRecDepth 8000 in
/-- As many times the base point as there are points is infinity. -/
theorem multiply_groupOrder_base : Point.multiply groupOrder .base = .infinity := by
  decide +kernel

/-- The base point has the order that is the number of points. -/
theorem addOrderOf_generator : addOrderOf generator = groupOrder := by
  refine addOrderOf_eq_prime ?_ generator_ne_zero
  rw [← pointOf_eq_infinity, ← multiply_pointOf (by decide), pointOf_generator]
  exact multiply_groupOrder_base

/-- Multiples of the base point depend on the factor modulo the order. -/
theorem nsmul_generator_eq_iff {j k : Nat} :
    j • generator = k • generator ↔ (j : ZMod groupOrder) = (k : ZMod groupOrder) := by
  rw [ZMod.natCast_eq_natCast_iff, ← addOrderOf_generator]
  exact nsmul_eq_nsmul_iff_modEq

theorem nsmul_generator_ne_zero {k : Nat} (hpos : 0 < k) (hlt : k < groupOrder) :
    k • generator ≠ 0 := by
  rw [Ne, ← addOrderOf_dvd_iff_nsmul_eq_zero, addOrderOf_generator]
  exact Nat.not_dvd_of_pos_of_lt hpos hlt

end PooledCrypto.Curve.P256
