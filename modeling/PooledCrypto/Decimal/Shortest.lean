/-!
# The shortest decimal of a binary float

A finite float is `m * 2 ^ q`. Every real closer to it than to its neighbours reads back as the same
float; these reals form an interval, whose ends belong to it when `m` is even. Of all decimals in
the interval the one with the fewest digits is taken, and of several with equally few digits the
nearest to the float, a tie going to the even last digit.
-/

namespace PooledCrypto.Decimal

/-- A positive float as a fraction, with the interval of the reals that read back as it. The three
numerators share one denominator. -/
structure Cell where
  low : Nat
  value : Nat
  high : Nat
  denominator : Nat
  closed : Bool

/-- The cell of the positive float `m * 2 ^ (exponent - bias)`. The neighbour below is half as far
away where `m` is the least of its binade. -/
def Cell.ofParts (m exponent bias : Nat) (leastOfBinade : Bool) : Cell :=
  let scale := 1 <<< exponent
  { low := (4 * m - (if leastOfBinade then 1 else 2)) * scale
    value := 4 * m * scale
    high := (4 * m + 2) * scale
    denominator := 4 <<< bias
    closed := m % 2 = 0 }

/-- Whether the decimal `digits * 10 ^ (up - down)` lies in the cell. -/
def Cell.contains (c : Cell) (digits up down : Nat) : Bool :=
  let point := digits * Nat.pow 10 up * c.denominator
  let low := c.low * Nat.pow 10 down
  let high := c.high * Nat.pow 10 down
  if c.closed then low ≤ point && point ≤ high else low < point && point < high

/-- The least `j` from `start` on with `den ≤ num * 10 ^ j`, tried `fuel` times. -/
def leadingZeros (num den : Nat) : Nat → Nat → Nat
  | 0, j => j
  | fuel + 1, j => if den ≤ num * Nat.pow 10 j then j else leadingZeros num den fuel (j + 1)

/-- The power of ten of the first digit of `num / den`, as what to add and what to take away. -/
def leadingPlace (num den : Nat) : Nat × Nat :=
  if den ≤ num then ((Nat.toDigits 10 (num / den)).length - 1, 0)
  else (0, leadingZeros num den 400 0)

/-- A decimal `digits * 10 ^ (up - down)`. -/
structure Scaled where
  digits : Nat
  up : Nat
  down : Nat

/-- The decimal with `count` digits in the cell, if there is one. -/
def Cell.decimal? (c : Cell) (count : Nat) : Option Scaled :=
  let (place, below) := leadingPlace c.value c.denominator
  let up := place - (below + count - 1)
  let down := below + count - 1 - place
  let num := c.value * Nat.pow 10 down
  let den := c.denominator * Nat.pow 10 up
  let floor := num / den
  let rest := 2 * (num % den)
  let takeUpper := if rest = den then floor % 2 = 1 else den < rest
  let first := if takeUpper then floor + 1 else floor
  let second := if takeUpper then floor else floor + 1
  if c.contains first up down then some ⟨first, up, down⟩
  else if c.contains second up down then some ⟨second, up, down⟩
  else none

/-- The shortest decimal of the cell, tried with `count` digits, then with more. -/
def Cell.shortestFrom (c : Cell) : Nat → Nat → Scaled
  | 0, _ => ⟨0, 0, 0⟩
  | fuel + 1, count =>
    match c.decimal? count with
    | some d => d
    | none => shortestFrom c fuel (count + 1)

/-- The shortest decimal of the cell. Seventeen digits always suffice. -/
def Cell.shortest (c : Cell) : Scaled := c.shortestFrom 17 1

/-- What a float is. -/
inductive Class
  | nan
  | infinite (negative : Bool)
  | zero (negative : Bool)
  | finite (negative : Bool) (cell : Cell)

/-- Takes the bits of a float apart. -/
def Class.ofFloat (x : Float) : Class :=
  let bits := x.toBits.toNat
  let negative := 1 <<< 63 ≤ bits
  let exponent := (bits >>> 52) % (1 <<< 11)
  let fraction := bits % (1 <<< 52)
  if exponent = 2047 then (if fraction = 0 then .infinite negative else .nan)
  else if exponent = 0 then
    (if fraction = 0 then .zero negative
     else .finite negative (Cell.ofParts fraction 0 1074 false))
  else .finite negative
    (Cell.ofParts ((1 <<< 52) + fraction) (exponent - 1) 1074 (fraction = 0 && exponent ≠ 1))

/-- How decimals are laid out: positional for first digits from the place `lowest` to the place
`highest`, else with an exponent that carries a sign when `signed`. -/
structure Layout where
  lowest : Int
  highest : Int
  signed : Bool

/-- Digits without trailing zeros, and how many were taken away. -/
def stripZeros : Nat → Nat → Nat → Nat × Nat
  | 0, n, k => (n, k)
  | fuel + 1, n, k => if n % 10 = 0 ∧ n ≠ 0 then stripZeros fuel (n / 10) (k + 1) else (n, k)

/-- A decimal as text under a layout. An integral number keeps one zero after the point. -/
def Scaled.text (d : Scaled) (layout : Layout) : String :=
  let (digits, cut) := stripZeros 400 d.digits 0
  let shown := Nat.toDigits 10 digits
  let exponent : Int := (d.up : Int) - d.down + cut
  let place : Int := exponent + shown.length - 1
  if layout.lowest ≤ place ∧ place ≤ layout.highest then
    if 0 ≤ exponent then
      String.ofList (shown ++ List.replicate exponent.toNat '0' ++ ['.', '0'])
    else if 0 ≤ place then
      let whole := (place + 1).toNat
      String.ofList (shown.take whole ++ ['.'] ++ shown.drop whole)
    else
      String.ofList (['0', '.'] ++ List.replicate (-place - 1).toNat '0' ++ shown)
  else
    let mantissa := match shown with
      | [] => []
      | [d] => [d]
      | d :: rest => d :: '.' :: rest
    let sign := if place < 0 then ['-'] else if layout.signed then ['+'] else []
    String.ofList (mantissa ++ ['e'] ++ sign ++ Nat.toDigits 10 place.natAbs)

/-- A float as text under a layout. -/
def floatText (layout : Layout) (x : Float) : String :=
  match Class.ofFloat x with
  | .nan => "NaN"
  | .infinite negative => if negative then "-inf" else "inf"
  | .zero negative => if negative then "-0.0" else "0.0"
  | .finite negative cell =>
    let text := cell.shortest.text layout
    if negative then "-" ++ text else text

end PooledCrypto.Decimal
