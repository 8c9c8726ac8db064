/-!
# Arithmetic modulo a prime

Powers, inverses and square roots of the numbers modulo `m`. They are what their names say when `m`
is prime, and for the square root when `m` is one less than a multiple of four besides; a square
root is checked before it is given out.
-/

namespace PooledCrypto.Curve.Modular

variable {m : Nat}

/-- The number 1, where there are numbers. -/
def one (x : Fin m) : Fin m := ⟨1 % m, Nat.mod_lt 1 x.pos⟩

/-- How many bits an exponent may have. -/
def exponentBits : Nat := 256

/-- A power with an exponent of at most 256 bits: squares all the way, and multiplies where the
exponent has a bit. -/
def pow (x : Fin m) (n : Nat) : Fin m :=
  (List.range exponentBits).foldr
    (fun i acc => if n.testBit i then acc * acc * x else acc * acc) (one x)

/-- The number whose product with `x` is 1, unless `x` is 0. -/
def inverse (x : Fin m) : Fin m := pow x (m - 2)

/-- A number whose square is `x`, if there is one. -/
def sqrt? (x : Fin m) : Option (Fin m) :=
  let root := pow x ((m + 1) / 4)
  if root * root = x then some root else none

theorem mul_self_of_sqrt? {x root : Fin m} (found : sqrt? x = some root) : root * root = x := by
  simp only [sqrt?] at found
  split at found
  next valid => simpa [← Option.some.inj found] using valid
  next => simp at found

end PooledCrypto.Curve.Modular
