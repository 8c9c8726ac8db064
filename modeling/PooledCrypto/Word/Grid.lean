import PooledCrypto.Word.Basic

/-!
# Grids of words

Sixteen words in four rows of four. A grid is mixed by additions, exclusive ors and rotations within
each column (`Grid.mixColumns`) and within each diagonal (`Grid.mixDiagonals`). What is mixed in
from outside and how far words are rotated is up to the algorithm that uses the grid.
-/

namespace PooledCrypto.Word

variable {w : Nat}

/-- Four words. -/
structure Row (w : Nat) where
  p : BitVec w
  q : BitVec w
  r : BitVec w
  s : BitVec w
  deriving DecidableEq, Repr

namespace Row

/-- Four zero words. -/
def zero : Row w := ⟨0, 0, 0, 0⟩

/-- Combines the words of two rows one by one. -/
def zipWith (f : BitVec w → BitVec w → BitVec w) (x y : Row w) : Row w :=
  ⟨f x.p y.p, f x.q y.q, f x.r y.r, f x.s y.s⟩

/-- Word by word sum. -/
def add (x y : Row w) : Row w := zipWith (· + ·) x y

/-- Word by word exclusive or. -/
def xor (x y : Row w) : Row w := zipWith (· ^^^ ·) x y

/-- Rotates every word to the right. -/
def rotateRight (n : Nat) (x : Row w) : Row w :=
  ⟨x.p.rotateRight n, x.q.rotateRight n, x.r.rotateRight n, x.s.rotateRight n⟩

/-- Moves every word one place to the front, and the first one to the end. -/
def turn (x : Row w) : Row w := ⟨x.q, x.r, x.s, x.p⟩

/-- The words in order. -/
def toList (x : Row w) : List (BitVec w) := [x.p, x.q, x.r, x.s]

/-- The four words of a list that start at an index, with 0 for those that are not there. -/
def ofListAt (words : List (BitVec w)) (i : Nat) : Row w :=
  ⟨words.getD i 0, words.getD (i + 1) 0, words.getD (i + 2) 0, words.getD (i + 3) 0⟩

end Row

/-- Sixteen words in four rows. -/
structure Grid (w : Nat) where
  a : Row w
  b : Row w
  c : Row w
  d : Row w
  deriving DecidableEq, Repr

/-- How far words are rotated to the right in the four parts of a mixing step. -/
structure Rotations where
  first : Nat
  second : Nat
  third : Nat
  fourth : Nat
  deriving DecidableEq, Repr

namespace Grid

/-- Mixes every column of the grid, adding words from outside. -/
def mixColumns (turns : Rotations) (x y : Row w) (g : Grid w) : Grid w :=
  let a := (g.a.add g.b).add x
  let d := (g.d.xor a).rotateRight turns.first
  let c := g.c.add d
  let b := (g.b.xor c).rotateRight turns.second
  let a := (a.add b).add y
  let d := (d.xor a).rotateRight turns.third
  let c := c.add d
  let b := (b.xor c).rotateRight turns.fourth
  ⟨a, b, c, d⟩

/-- Turns the rows so that diagonals become columns. -/
def skew (g : Grid w) : Grid w := ⟨g.a, g.b.turn, g.c.turn.turn, g.d.turn.turn.turn⟩

/-- Turns the rows so that columns become diagonals. -/
def unskew (g : Grid w) : Grid w := ⟨g.a, g.b.turn.turn.turn, g.c.turn.turn, g.d.turn⟩

/-- Mixes every diagonal of the grid, adding words from outside. -/
def mixDiagonals (turns : Rotations) (x y : Row w) (g : Grid w) : Grid w :=
  (g.skew.mixColumns turns x y).unskew

/-- Word by word sum. -/
def add (g h : Grid w) : Grid w := ⟨g.a.add h.a, g.b.add h.b, g.c.add h.c, g.d.add h.d⟩

/-- The words in order. -/
def toList (g : Grid w) : List (BitVec w) :=
  g.a.toList ++ g.b.toList ++ g.c.toList ++ g.d.toList

/-- The first sixteen words of a list, with 0 for those that are not there. -/
def ofList (words : List (BitVec w)) : Grid w :=
  ⟨.ofListAt words 0, .ofListAt words 4, .ofListAt words 8, .ofListAt words 12⟩

theorem unskew_skew (g : Grid w) : g.skew.unskew = g := rfl

@[simp] theorem length_toList (g : Grid w) : g.toList.length = 16 := rfl

end Grid
end PooledCrypto.Word
