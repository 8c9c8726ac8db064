import Mathlib.Algebra.BigOperators.Associated
import Mathlib.Tactic.NormNum.Prime
import PooledCrypto.Curve.P256.Point
import PooledCrypto.Proofs.Residues

/-!
# The two moduli are prime

The coordinates and the residues that signatures are made of are fields, since the order of the
coordinates and the number of points are prime. Both are too large to be divided by everything that
is smaller, so each comes with a certificate after Pocklington. It names primes that divide `n - 1`
and are together at least the root of `n`. If 2 has the right powers modulo `n`, each of them
divides `r - 1` for every prime divisor `r` of `n`, and then `r` is larger than the root.

The powers are those that the curve computes with (`Modular.pow`).
-/

namespace PooledCrypto.Curve

open PooledCrypto.Curve.Modular

/-- The factors of `n - 1` certify that `n` is prime, if they are prime themselves. -/
def Certified (n : Nat) (h : 2 < n) (factors : List Nat) : Prop :=
  n < 2 ^ 256 ∧ n ≤ factors.prod ^ 2 ∧ factors.Nodup ∧ pow ⟨2, h⟩ (n - 1) = one ⟨2, h⟩
    ∧ ∀ q ∈ factors, q ∣ n - 1 ∧ ((pow ⟨2, h⟩ ((n - 1) / q)).val + (n - 1)).Coprime n

instance (n : Nat) (h : 2 < n) (factors : List Nat) : Decidable (Certified n h factors) :=
  inferInstanceAs (Decidable (_ ∧ _))

variable {n r q : Nat}

/-- A power modulo `n`, seen modulo a divisor of `n`. -/
theorem natCast_pow_of_dvd (hr : r ∣ n) (x : Fin n) {k : Nat} (hk : k < 2 ^ 256) :
    ((pow x k).val : ZMod r) = (x.val : ZMod r) ^ k := by
  have hmod : (pow x k).val ≡ x.val ^ k [MOD n] := by
    rw [← ZMod.natCast_eq_natCast_iff, Nat.cast_pow]
    exact residueClass_pow x hk
  rw [← Nat.cast_pow]
  exact (ZMod.natCast_eq_natCast_iff _ _ _).mpr (hmod.of_dvd hr)

/-- What kills an element but not after division by a prime, has that prime in common with the
element's order. -/
theorem dvd_orderOf_of_pow_ne_one {G : Type} [Monoid G] {b : G} {k : Nat} (hq : q.Prime)
    (hdvd : q ∣ k) (hone : b ^ k = 1) (hne : b ^ (k / q) ≠ 1) : q ∣ orderOf b := by
  obtain ⟨t, ht⟩ := orderOf_dvd_of_pow_eq_one hone
  rcases (hq.dvd_mul).mp (ht ▸ hdvd) with horder | ⟨s, rfl⟩
  · exact horder
  · refine absurd ?_ hne
    rw [ht, Nat.mul_left_comm, Nat.mul_div_cancel_left _ hq.pos]
    exact orderOf_dvd_iff_pow_eq_one.mp (Dvd.intro s rfl)

/-- Every prime divisor of a number that is certified is 1 more than a multiple of the factors. -/
theorem factors_dvd_pred {h : 2 < n} {factors : List Nat} (hc : Certified n h factors)
    (hprime : ∀ q ∈ factors, q.Prime) (hr : r.Prime) (hdvd : r ∣ n) : factors.prod ∣ r - 1 := by
  obtain ⟨hbound, _, hnodup, hone, hfactors⟩ := hc
  have : Fact r.Prime := ⟨hr⟩
  have hpred : ((n - 1 : Nat) : ZMod r) = -1 := by
    have hn : ((n - 1 + 1 : Nat) : ZMod r) = 0 := by
      rw [Nat.sub_add_cancel (by omega)]
      exact (ZMod.natCast_eq_zero_iff n r).mpr hdvd
    rw [Nat.cast_add, Nat.cast_one] at hn
    exact eq_neg_of_add_eq_zero_left hn
  have htwo : (2 : ZMod r) ^ (n - 1) = 1 := by
    have hval := natCast_pow_of_dvd hdvd ⟨2, h⟩ (k := n - 1) (by omega)
    rw [hone] at hval
    simpa [one, Nat.mod_eq_of_lt (show 1 < n by omega)] using hval.symm
  have hunit : (2 : ZMod r) ≠ 0 := by
    intro hzero
    rw [hzero, zero_pow (by omega)] at htwo
    exact zero_ne_one htwo
  have horder : orderOf (2 : ZMod r) ∣ r - 1 := ZMod.orderOf_dvd_card_sub_one hunit
  have hall : ∀ q ∈ factors, q ∣ r - 1 := by
    intro q hq
    obtain ⟨hk, hcoprime⟩ := hfactors q hq
    refine (dvd_orderOf_of_pow_ne_one (hprime q hq) hk htwo fun heq => ?_).trans horder
    -- else the divisor would have something in common with `n` that it has not
    have hval := natCast_pow_of_dvd hdvd ⟨2, h⟩ (k := (n - 1) / q)
      (lt_of_le_of_lt (Nat.div_le_self _ _) (by omega))
    have hzero : (((pow ⟨2, h⟩ ((n - 1) / q)).val + (n - 1) : Nat) : ZMod r) = 0 := by
      rw [Nat.cast_add, hval, hpred, Nat.cast_two, heq, add_neg_cancel]
    exact hr.not_dvd_one
      (hcoprime ▸ Nat.dvd_gcd ((ZMod.natCast_eq_zero_iff _ r).mp hzero) hdvd)
  have hprod := Finset.prod_primes_dvd (s := factors.toFinset) (r - 1)
    (fun q hq => (hprime q (List.mem_toFinset.mp hq)).prime)
    fun q hq => hall q (List.mem_toFinset.mp hq)
  rwa [List.prod_toFinset _ hnodup, List.map_id'] at hprod

/-- A number is prime if primes certify it. -/
theorem prime_of_certified (factors : List Nat) {h : 2 < n} (hc : Certified n h factors)
    (hprime : ∀ q ∈ factors, q.Prime) : n.Prime := by
  by_contra hcomposite
  have hr : n.minFac.Prime := Nat.minFac_prime (by omega)
  have hsmall : n.minFac ^ 2 ≤ n := Nat.minFac_sq_le_self (by omega) hcomposite
  have hle : factors.prod ≤ n.minFac - 1 :=
    Nat.le_of_dvd (Nat.sub_pos_of_lt hr.one_lt) (factors_dvd_pred hc hprime hr n.minFac_dvd)
  have hlt : factors.prod < n.minFac := by
    have := hr.pos
    omega
  have hlarge : n < n.minFac ^ 2 := hc.2.1.trans_lt (Nat.pow_lt_pow_left hlt (by decide))
  omega

namespace P256

/-! ## The certificates -/

set_option maxRecDepth 4000

/-- The order of the coordinates is prime. -/
theorem prime_fieldOrder : fieldOrder.Prime := by
  have p₁ : Nat.Prime 66417393611 :=
    prime_of_certified [3677, 197] (h := by decide) (by decide +kernel) (by norm_num)
  have p₂ : Nat.Prime 11290956913871 :=
    prime_of_certified [66417393611] (h := by decide) (by decide +kernel) (by simp [p₁])
  have p₃ : Nat.Prime 46076956964474543 :=
    prime_of_certified [704251, 78283] (h := by decide) (by decide +kernel) (by norm_num)
  have p₄ : Nat.Prime 774023187263532362759620327192479577272145303 :=
    prime_of_certified [46076956964474543, 11290956913871] (h := by decide) (by decide +kernel)
      (by simp [p₂, p₃])
  have p₅ : Nat.Prime 835945042244614951780389953367877943453916927241 :=
    prime_of_certified [774023187263532362759620327192479577272145303] (h := by decide)
      (by decide +kernel) (by simp [p₄])
  exact prime_of_certified [835945042244614951780389953367877943453916927241] (h := by decide)
    (by decide +kernel) (by simp [p₅])

/-- The number of points is prime. -/
theorem prime_groupOrder : groupOrder.Prime := by
  have p₁ : Nat.Prime 3969899 :=
    prime_of_certified [104471] (h := by decide) (by decide +kernel) (by norm_num)
  have p₂ : Nat.Prime 1002328039319 :=
    prime_of_certified [3969899] (h := by decide) (by decide +kernel) (by simp [p₁])
  have p₃ : Nat.Prime 191039911 :=
    prime_of_certified [155317] (h := by decide) (by decide +kernel) (by norm_num)
  have p₄ : Nat.Prime 208150935158385979 :=
    prime_of_certified [191039911, 3023] (h := by decide) (by decide +kernel)
      (by simp [p₃]; norm_num)
  have p₅ : Nat.Prime 2624747550333869278416773953 :=
    prime_of_certified [208150935158385979] (h := by decide) (by decide +kernel) (by simp [p₄])
  exact prime_of_certified [2624747550333869278416773953, 1002328039319] (h := by decide)
    (by decide +kernel) (by simp [p₂, p₅])

instance : Fact fieldOrder.Prime := ⟨prime_fieldOrder⟩

instance : Fact groupOrder.Prime := ⟨prime_groupOrder⟩

end P256
end PooledCrypto.Curve
