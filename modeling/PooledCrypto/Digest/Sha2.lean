import PooledCrypto.Digest.Block
import PooledCrypto.Digest.Roots
import PooledCrypto.Word.Basic

/-!
# SHA-2

The family has one design at two word sizes. `SHA-256` works with words of 32 bits; `SHA-384` and
`SHA-512` work with words of 64 bits and differ in where they start and in how much of the last
chaining value they give out.
-/

namespace PooledCrypto.Digest.Sha2

/-- What the design leaves open. -/
structure Design (w : Nat) where
  /-- The rotations mixed into the first working word. -/
  firstSum : Nat × Nat × Nat
  /-- The rotations mixed into the fifth working word. -/
  fifthSum : Nat × Nat × Nat
  /-- Two rotations and a shift for the schedule word fifteen places back. -/
  nearMix : Nat × Nat × Nat
  /-- Two rotations and a shift for the schedule word two places back. -/
  farMix : Nat × Nat × Nat
  /-- One constant for each round. -/
  constants : List (BitVec w)

/-- The eight working words. -/
structure Words (w : Nat) where
  a : BitVec w
  b : BitVec w
  c : BitVec w
  d : BitVec w
  e : BitVec w
  f : BitVec w
  g : BitVec w
  h : BitVec w
  deriving DecidableEq, Repr

namespace Words

variable {w : Nat}

/-- The first eight words of a list, with 0 for those that are not there. -/
def ofList (l : List (BitVec w)) : Words w :=
  ⟨l.getD 0 0, l.getD 1 0, l.getD 2 0, l.getD 3 0, l.getD 4 0, l.getD 5 0, l.getD 6 0, l.getD 7 0⟩

/-- The words in order. -/
def toList (x : Words w) : List (BitVec w) := [x.a, x.b, x.c, x.d, x.e, x.f, x.g, x.h]

/-- Word by word sum. -/
def add (x y : Words w) : Words w :=
  ⟨x.a + y.a, x.b + y.b, x.c + y.c, x.d + y.d, x.e + y.e, x.f + y.f, x.g + y.g, x.h + y.h⟩

end Words

variable {w : Nat}

/-- Exclusive or of three rotations of a word. -/
def sum (turns : Nat × Nat × Nat) (x : BitVec w) : BitVec w :=
  x.rotateRight turns.1 ^^^ x.rotateRight turns.2.1 ^^^ x.rotateRight turns.2.2

/-- Exclusive or of two rotations and a shift of a word. -/
def mix (turns : Nat × Nat × Nat) (x : BitVec w) : BitVec w :=
  x.rotateRight turns.1 ^^^ x.rotateRight turns.2.1 ^^^ x >>> turns.2.2

/-- Takes each bit from the second or third word as the first one says. -/
def choose (x y z : BitVec w) : BitVec w := (x &&& y) ^^^ (~~~x &&& z)

/-- Takes each bit that at least two of the words have. -/
def majority (x y z : BitVec w) : BitVec w := (x &&& y) ^^^ (x &&& z) ^^^ (y &&& z)

/-- One round with a constant and a schedule word. -/
def round (design : Design w) (x : Words w) (constant scheduled : BitVec w) : Words w :=
  let fresh := x.h + sum design.fifthSum x.e + choose x.e x.f x.g + constant + scheduled
  let mixed := sum design.firstSum x.a + majority x.a x.b x.c
  ⟨fresh + mixed, x.a, x.b, x.c, x.d + fresh, x.e, x.f, x.g⟩

/-- The schedule word that follows sixteen others. -/
def nextScheduled (design : Design w) (window : List (BitVec w)) : BitVec w :=
  mix design.farMix (window.getD 14 0) + window.getD 9 0 +
    mix design.nearMix (window.getD 1 0) + window.getD 0 0

/-- The rounds of one block. The window holds the next sixteen schedule words. -/
def rounds (design : Design w) : List (BitVec w) → List (BitVec w) → Words w → Words w
  | [], _, x => x
  | constant :: rest, window, x =>
    let x := round design x constant (window.getD 0 0)
    rounds design rest (window.tail ++ [nextScheduled design window]) x

/-- Works a block into a chaining value. -/
def compress (design : Design w) (chain : Words w) (block : Bytes) : Words w :=
  (rounds design design.constants (Word.listBE w block) chain).add chain

/-- The size of a block in bytes: sixteen words. -/
def blockSize (w : Nat) : Nat := 16 * (w / 8)

/-- What follows a message of `total` bytes: a one bit, zeros up to the end of a block, and the
length of the message in bits as two words. -/
def padding (w total : Nat) : Bytes :=
  let lengthSize := 2 * (w / 8)
  let size := blockSize w
  let zeros := (size - (total + 1 + lengthSize) % size) % size
  0x80 :: Bytes.zeros zeros ++ Bytes.ofNatBE lengthSize (8 * total)

/-- A hash function of the design: where it starts and how many bytes it gives out. -/
def hash (design : Design w) (initial : List (BitVec w)) (outputSize : Nat) : BlockHash where
  Chain := Words w
  blockSize := blockSize w
  outputSize := outputSize
  initial := Words.ofList initial
  compress chain _ block := compress design chain block
  finish chain total rest :=
    let last := (rest ++ padding w total).pieces (blockSize w)
    let chain := last.foldl (compress design) chain
    (chain.toList.flatMap Word.toBytesBE).take outputSize

/-- A digest has the size that it was asked for, up to that of a chaining value. -/
theorem length_finish {design : Design w} {initial : List (BitVec w)} {outputSize : Nat}
    (h : outputSize ≤ 8 * (w / 8)) (chain : Words w) (total : Nat) (rest : Bytes) :
    ((hash design initial outputSize).finish chain total rest).length = outputSize := by
  simp only [hash, Words.toList, List.length_take, List.flatMap_cons, List.flatMap_nil,
    List.length_append, Word.length_toBytesBE, List.length_nil]
  omega

/-- The design at 32 bits. -/
def design32 : Design 32 :=
  ⟨(2, 13, 22), (6, 11, 25), (7, 18, 3), (17, 19, 10), Roots.cubeRoots 32 64⟩

/-- The design at 64 bits. -/
def design64 : Design 64 :=
  ⟨(28, 34, 39), (14, 18, 41), (1, 8, 7), (19, 61, 6), Roots.cubeRoots 64 80⟩

/-- `SHA-256`. -/
def sha256 : BlockHash := hash design32 (Roots.squareRoots 32 0) 32

/-- `SHA-384`. -/
def sha384 : BlockHash := hash design64 (Roots.squareRoots 64 8) 48

/-- `SHA-512`. -/
def sha512 : BlockHash := hash design64 (Roots.squareRoots 64 0) 64

end PooledCrypto.Digest.Sha2
