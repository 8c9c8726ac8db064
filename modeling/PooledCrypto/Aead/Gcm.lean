import PooledCrypto.Aead.Aes
import PooledCrypto.Aead.Engine

/-!
# AES in Galois/counter mode

The keystream enciphers a counter that follows the nonce. The tag is a polynomial over the field of
2 ^ 128 elements, evaluated at a secret point, with the keystream block before the first one added.
Tags shorter than sixteen bytes are the front of a full one.
-/

namespace PooledCrypto.Aead.Gcm

/-- The product of two field elements. The first bit is the constant coefficient. -/
def mul (x y : BitVec 128) : BitVec 128 :=
  let step (acc : BitVec 128 × BitVec 128) (i : Nat) : BitVec 128 × BitVec 128 :=
    let (z, v) := acc
    let z := if x.getMsbD i then z ^^^ v else z
    let shifted := v >>> 1
    (z, if v.getLsbD 0 then shifted ^^^ (0xe1#128 <<< 120) else shifted)
  ((List.range 128).foldl step (0, y)).1

/-- The polynomial with the blocks as coefficients, at a point. -/
def evaluate (point : BitVec 128) (data : Bytes) : BitVec 128 :=
  (data.pieces 16).foldl (fun y block => mul (y ^^^ BitVec.ofNat 128 block.toNatBE) point) 0

/-- The block of the keystream with a counter. -/
def counterBlock (s : Aes.Schedule) (nonce : Bytes) (counter : Nat) : Bytes :=
  (Aes.encipher s (Aes.blockOf (nonce ++ Bytes.ofNatBE 4 counter))).toList

/-- What is authenticated: the associated data and the ciphertext, each filled up to whole blocks,
and their lengths in bits. -/
def authenticated (associated text : Bytes) : Bytes :=
  associated.padTo 16 ++ text.padTo 16 ++ Bytes.ofNatBE 8 (8 * associated.length) ++
    Bytes.ofNatBE 8 (8 * text.length)

/-- The full tag. -/
def fullTag (s : Aes.Schedule) (nonce associated text : Bytes) : Bytes :=
  let point := BitVec.ofNat 128 (Bytes.toNatBE (Aes.encipher s (Vector.replicate 16 0)).toList)
  let mask := Bytes.toNatBE (counterBlock s nonce 1)
  Bytes.ofNatBE 16 ((evaluate point (authenticated associated text)).toNat ^^^ mask)

/-- The longest text and the longest associated data in bytes. -/
def maxLength : Nat := 1 <<< 36

theorem length_counterBlock (s : Aes.Schedule) (nonce : Bytes) (counter : Nat) :
    (counterBlock s nonce counter).length = 16 := by
  simp [counterBlock]

theorem length_take_fullTag (s : Aes.Schedule) (nonce associated text : Bytes) {tagSize : Nat}
    (short : tagSize ≤ 16) : ((fullTag s nonce associated text).take tagSize).length = tagSize := by
  rw [List.length_take, fullTag, Bytes.length_ofNatBE]
  omega

/-- The engine of a key with tags of a given size, at most sixteen bytes. -/
def engine (key : Bytes) (tagSize : Nat) (short : tagSize ≤ 16) : Engine :=
  let s := Aes.schedule key
  { nonceSize := 12
    tagSize := tagSize
    admits := fun associated text => associated ≤ maxLength && text ≤ maxLength
    blockSize := 16
    block := fun nonce i => counterBlock s nonce (i + 2)
    tag := fun nonce associated text => (fullTag s nonce associated text).take tagSize
    blockSize_pos := by decide
    length_block := fun nonce i => length_counterBlock s nonce (i + 2)
    length_tag := fun nonce associated text => length_take_fullTag s nonce associated text short }

end PooledCrypto.Aead.Gcm
