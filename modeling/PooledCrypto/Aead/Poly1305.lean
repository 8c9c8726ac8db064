import PooledCrypto.Aead.ChaCha20
import PooledCrypto.Aead.Engine

/-!
# ChaCha20-Poly1305

The keystream is that of ChaCha20 from its second block on. The first block is the key of a
polynomial over the integers modulo 2 ^ 130 - 5, which gives the tag.

The variant with the longer nonce first turns the key and the front of the nonce into a fresh key.
-/

namespace PooledCrypto.Aead.Poly1305

/-- The modulus. -/
def modulus : Nat := (1 <<< 130) - 5

/-- The bits that the point of evaluation keeps. -/
def pointMask : Nat := 0x0ffffffc0ffffffc0ffffffc0fffffff

/-- The authenticator of data under a key of 32 bytes that is used once. -/
def authenticator (key data : Bytes) : Bytes :=
  let point := Bytes.toNatLE (key.take 16) &&& pointMask
  let sum := (data.pieces 16).foldl
    (fun acc block => (acc + Bytes.toNatLE (block ++ [1])) * point % modulus) 0
  Bytes.ofNatLE 16 (sum + Bytes.toNatLE (key.drop 16))

/-- What is authenticated: the associated data and the ciphertext, each filled up to whole blocks,
and their lengths in bytes. -/
def authenticated (associated text : Bytes) : Bytes :=
  associated.padTo 16 ++ text.padTo 16 ++ Bytes.ofNatLE 8 associated.length ++
    Bytes.ofNatLE 8 text.length

/-- The tag for a nonce of twelve bytes. -/
def tag (key nonce associated text : Bytes) : Bytes :=
  authenticator ((ChaCha20.block key nonce 0).take 32) (authenticated associated text)

/-- The longest text in bytes: the block counter must not run over. -/
def maxLength : Nat := 64 * ((1 <<< 32) - 1) - 1

/-- The engine of a key of 32 bytes. -/
def engine (key : Bytes) : Engine where
  nonceSize := 12
  tagSize := 16
  admits _ text := text ≤ maxLength
  blockSize := 64
  block nonce i := ChaCha20.block key nonce (i + 1)
  tag := tag key
  blockSize_pos := by decide
  length_block nonce i := ChaCha20.length_block key nonce (i + 1)
  length_tag nonce associated text := by simp [tag, authenticator]

/-- The engine of a key of 32 bytes for nonces of 24 bytes: the first sixteen make a fresh key, and
the other eight are the end of a short nonce. -/
def extendedEngine (key : Bytes) : Engine where
  nonceSize := 24
  tagSize := 16
  admits := (engine key).admits
  blockSize := 64
  block nonce i :=
    (engine (ChaCha20.subkey key (nonce.take 16))).block (Bytes.zeros 4 ++ nonce.drop 16) i
  tag nonce associated text :=
    (engine (ChaCha20.subkey key (nonce.take 16))).tag (Bytes.zeros 4 ++ nonce.drop 16) associated
      text
  blockSize_pos := by decide
  length_block nonce i := Engine.length_block _ _ _
  length_tag nonce associated text := Engine.length_tag _ _ _ _

end PooledCrypto.Aead.Poly1305
