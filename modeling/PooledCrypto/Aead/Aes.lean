import PooledCrypto.Bytes.Basic

/-!
# AES

The block cipher at its three key lengths, in the enciphering direction only, which is all that
counter mode needs. A block is sixteen bytes, four columns of four. The substitution is computed
from its definition: the inverse in the field of 256 elements, followed by an affine map.
-/

namespace PooledCrypto.Aead.Aes

/-- A block: four columns of four bytes. -/
abbrev Block := Vector UInt8 16

/-- A column, or a word of the key. -/
abbrev Column := Vector UInt8 4

/-- Twice a field element. -/
def double (x : UInt8) : UInt8 := if x &&& 0x80 = 0 then x <<< 1 else (x <<< 1) ^^^ 0x1b

/-- The product of two field elements, over the lowest `bits` bits of the second. -/
def times : Nat → UInt8 → UInt8 → UInt8
  | 0, _, _ => 0
  | bits + 1, x, y => (if y &&& 1 = 0 then 0 else x) ^^^ times bits (double x) (y >>> 1)

/-- The product of two field elements. -/
def mul (x y : UInt8) : UInt8 := times 8 x y

/-- A power of a field element. -/
def pow (x : UInt8) : Nat → UInt8
  | 0 => 1
  | n + 1 => mul x (pow x n)

/-- A byte rotated to the left. -/
def rotl (x : UInt8) (n : UInt8) : UInt8 := (x <<< n) ||| (x >>> (8 - n))

/-- The substitute of a byte, from its definition. The inverse of an element is its 254th power. -/
def substitute (x : UInt8) : UInt8 :=
  let y := pow x 254
  y ^^^ rotl y 1 ^^^ rotl y 2 ^^^ rotl y 3 ^^^ rotl y 4 ^^^ 0x63

/-- The substitutes of all bytes. -/
def substitutes : Array UInt8 := (Array.range 256).map fun i => substitute (UInt8.ofNat i)

/-- The substitute of a byte. -/
def sub (x : UInt8) : UInt8 := substitutes.getD x.toNat 0

/-- Turns row `r` of the block by `r` places. -/
def shiftRows (s : Block) : Block := Vector.ofFn fun i => s[5 * i.val % 16]

/-- The place `k` rows below a place, in the same column. -/
def below (i k : Nat) : Nat := 4 * (i / 4) + (i + k) % 4

theorem below_lt (i : Fin 16) (k : Nat) : below i.val k < 16 := by
  simp only [below]
  omega

/-- Mixes the four bytes of every column. -/
def mixColumns (s : Block) : Block :=
  Vector.ofFn fun i =>
    have h1 := below_lt i 1
    have h2 := below_lt i 2
    have h3 := below_lt i 3
    double s[i] ^^^ mul 3 s[below i.val 1] ^^^ s[below i.val 2] ^^^ s[below i.val 3]

/-- Adds a round key. -/
def addKey (s key : Block) : Block := Vector.zipWith (· ^^^ ·) s key

/-- Sum of two key words. -/
def addColumn (x y : Column) : Column := Vector.zipWith (· ^^^ ·) x y

/-- The key word that follows the last `size` ones, of which the list holds the first in front. The
word has the index `i`. -/
def nextWord (size i : Nat) (window : List Column) : Column :=
  let last := window.getLastD (Vector.replicate 4 0)
  let mixed :=
    if i % size = 0 then
      let turned : Column := Vector.ofFn fun k => sub last[(k.val + 1) % 4]
      turned.set 0 (turned[0] ^^^ pow 2 (i / size - 1))
    else if size > 6 && i % size == 4 then last.map sub
    else last
  addColumn (window.headD (Vector.replicate 4 0)) mixed

/-- The next `count` key words. The window holds the last `size` ones, and the word that follows
them has the index `i`. -/
def expand (size : Nat) : Nat → Nat → List Column → List Column
  | 0, _, _ => []
  | count + 1, i, window =>
    let word := nextWord size i window
    word :: expand size count (i + 1) (window.tail ++ [word])

/-- A key word from four bytes. -/
def columnOf (bytes : Bytes) : Column := Vector.ofFn fun k => bytes.getD k.val 0

/-- A block from sixteen bytes. -/
def blockOf (bytes : Bytes) : Block := Vector.ofFn fun k => bytes.getD k.val 0

/-- A round key from four key words. -/
def roundKey (words : List Column) (round : Nat) : Block :=
  Vector.ofFn fun k =>
    (words.getD (4 * round + k.val / 4) (Vector.replicate 4 0))[k.val % 4]

/-- A key with its round keys, of which the first and the last stand apart. -/
structure Schedule where
  first : Block
  inner : List Block
  last : Block

/-- The round keys of a key: six rounds more than the key has words. -/
def schedule (key : Bytes) : Schedule :=
  let words := (key.pieces 4).map columnOf
  let size := words.length
  let rounds := size + 6
  let all := words ++ expand size (4 * (rounds + 1) - size) size words
  let inner := (List.range (rounds - 1)).map fun r => roundKey all (r + 1)
  ⟨roundKey all 0, inner, roundKey all rounds⟩

/-- Enciphers a block. -/
def encipher (s : Schedule) (block : Block) : Block :=
  let mixed := s.inner.foldl
    (fun x key => addKey (mixColumns (shiftRows (x.map sub))) key) (addKey block s.first)
  addKey (shiftRows (mixed.map sub)) s.last

end PooledCrypto.Aead.Aes
