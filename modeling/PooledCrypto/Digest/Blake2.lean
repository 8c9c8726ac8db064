import PooledCrypto.Digest.Block
import PooledCrypto.Digest.Roots
import PooledCrypto.Word.Grid

/-!
# BLAKE2

One design at two word sizes, without a key. The chaining value is mixed with a block by rounds on a
grid of sixteen words, eight from the chaining value and eight constants. How many bytes there are
up to the end of the block is mixed in too, and a mark if the block is the last.
-/

namespace PooledCrypto.Digest.Blake2

open Word

/-- A chaining value: eight words in two rows. -/
structure Chain (w : Nat) where
  upper : Row w
  lower : Row w
  deriving DecidableEq, Repr

/-- What the design leaves open. -/
structure Design (w : Nat) where
  rounds : Nat
  turns : Rotations
  constants : Chain w

/-- The order in which the words of a block are taken in each of ten rounds. -/
def orders : List (List Nat) :=
  [[0, 1, 2, 3, 4, 5, 6, 7, 8, 9, 10, 11, 12, 13, 14, 15],
    [14, 10, 4, 8, 9, 15, 13, 6, 1, 12, 0, 2, 11, 7, 5, 3],
    [11, 8, 12, 0, 5, 2, 15, 13, 10, 14, 3, 6, 7, 1, 9, 4],
    [7, 9, 3, 1, 13, 12, 11, 14, 2, 6, 5, 10, 4, 0, 15, 8],
    [9, 0, 5, 7, 2, 4, 10, 15, 14, 1, 11, 12, 6, 8, 3, 13],
    [2, 12, 6, 10, 0, 11, 8, 3, 4, 13, 7, 5, 15, 14, 1, 9],
    [12, 5, 1, 15, 14, 13, 4, 10, 0, 7, 6, 3, 9, 2, 8, 11],
    [13, 11, 7, 14, 12, 1, 3, 9, 5, 0, 15, 4, 8, 6, 2, 10],
    [6, 15, 14, 9, 11, 3, 0, 8, 12, 2, 13, 7, 1, 4, 10, 5],
    [10, 2, 8, 4, 7, 6, 1, 5, 15, 11, 9, 14, 3, 12, 13, 0]]

variable {w : Nat}

/-- The words of a block in the order of a round. -/
def ordered (words : List (BitVec w)) (round : Nat) : List (BitVec w) :=
  (orders.getD (round % 10) []).map fun i => words.getD i 0

/-- The words at every other of eight places from an index on. -/
def everyOther (words : List (BitVec w)) (i : Nat) : Row w :=
  ⟨words.getD i 0, words.getD (i + 2) 0, words.getD (i + 4) 0, words.getD (i + 6) 0⟩

/-- One round: the first eight words go into the columns, the other eight into the diagonals. -/
def mixRound (design : Design w) (words : List (BitVec w)) (g : Grid w) (round : Nat) : Grid w :=
  let m := ordered words round
  let g := g.mixColumns design.turns (everyOther m 0) (everyOther m 1)
  g.mixDiagonals design.turns (everyOther m 8) (everyOther m 9)

/-- Works a block into a chaining value. `total` is the number of bytes up to its end. -/
def compress (design : Design w) (chain : Chain w) (total : Nat) (block : Bytes) (last : Bool) :
    Chain w :=
  let words := Word.listLE w block
  let mark : Row w :=
    ⟨BitVec.ofNat w total, BitVec.ofNat w (total >>> w), if last then BitVec.allOnes w else 0, 0⟩
  let start : Grid w :=
    ⟨chain.upper, chain.lower, design.constants.upper, design.constants.lower.xor mark⟩
  let g := (List.range design.rounds).foldl (mixRound design words) start
  ⟨(chain.upper.xor g.a).xor g.c, (chain.lower.xor g.b).xor g.d⟩

/-- The size of a block in bytes: sixteen words. -/
def blockSize (w : Nat) : Nat := 16 * (w / 8)

/-- Where hashing without a key starts for a digest of a given size. -/
def initial (design : Design w) (outputSize : Nat) : Chain w :=
  let mark : Row w := ⟨BitVec.ofNat w (0x01010000 + outputSize), 0, 0, 0⟩
  ⟨design.constants.upper.xor mark, design.constants.lower⟩

/-- The hash function of a design for digests of a given size. -/
def hash (design : Design w) (outputSize : Nat) : BlockHash where
  Chain := Chain w
  blockSize := blockSize w
  outputSize := outputSize
  initial := initial design outputSize
  compress chain total block := compress design chain total block false
  finish chain total rest :=
    let block := rest ++ Bytes.zeros (blockSize w - rest.length)
    let chain := compress design chain total block true
    ((chain.upper.toList ++ chain.lower.toList).flatMap Word.toBytesLE).take outputSize

/-- A digest has the size that it was asked for, up to that of a chaining value. -/
theorem length_finish {design : Design w} {outputSize : Nat} (h : outputSize ≤ 8 * (w / 8))
    (chain : Chain w) (total : Nat) (rest : Bytes) :
    ((hash design outputSize).finish chain total rest).length = outputSize := by
  simp only [hash, Row.toList, List.length_take, List.cons_append, List.nil_append,
    List.flatMap_cons, List.flatMap_nil, List.length_append, length_toBytesLE, List.length_nil]
  omega

/-- The constants at a word size: the first bits of the square roots of the first eight primes. -/
def constants (w : Nat) : Chain w :=
  let words := Roots.squareRoots w 0
  ⟨.ofListAt words 0, .ofListAt words 4⟩

/-- The design at 64 bits. -/
def design64 : Design 64 := ⟨12, ⟨32, 24, 16, 63⟩, constants 64⟩

/-- The design at 32 bits. -/
def design32 : Design 32 := ⟨10, ⟨16, 12, 8, 7⟩, constants 32⟩

/-- `BLAKE2b-512`. -/
def blake2b512 : BlockHash := hash design64 64

/-- `BLAKE2s-256`. -/
def blake2s256 : BlockHash := hash design32 32

end PooledCrypto.Digest.Blake2
