/-!
# Constants from roots of primes

Where an algorithm needs many constants that nobody can have chosen with a purpose, it takes the
fractional parts of square and cube roots of the first primes.
-/

namespace PooledCrypto.Digest.Roots

/-- Whether a number from 2 on has no divisor between 2 and itself. -/
def isPrime (n : Nat) : Bool := (List.range n).all fun d => d < 2 || n % d != 0

/-- The primes below 410, of which there are eighty. -/
def primes : List Nat := (List.range 410).filter fun n => 2 ≤ n && isPrime n

/-- The largest number with at most `bits` bits whose `k`-th power is at most `n`. -/
def rootFloor (k bits n : Nat) : Nat :=
  (List.range bits).foldr
    (fun i root => if Nat.pow (root + (1 <<< i)) k ≤ n then root + (1 <<< i) else root) 0

/-- The first `w` bits of the fractional part of the `k`-th root of `n`. -/
def fraction (k w n : Nat) : BitVec w := BitVec.ofNat w (rootFloor k (w + 5) (n <<< (w * k)))

/-- The first `w` bits of the fractional parts of the square roots of eight primes, from a given
one on. -/
def squareRoots (w first : Nat) : List (BitVec w) := ((primes.drop first).take 8).map (fraction 2 w)

/-- The first `w` bits of the fractional parts of the cube roots of the first `count` primes. -/
def cubeRoots (w count : Nat) : List (BitVec w) := (primes.take count).map (fraction 3 w)

end PooledCrypto.Digest.Roots
