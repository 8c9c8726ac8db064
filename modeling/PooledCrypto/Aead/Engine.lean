import PooledCrypto.Bytes.Basic

/-!
# Authenticated encryption engines

An engine is an authenticated cipher with its key in place. It enciphers by a keystream that it
makes block by block from a nonce, and it computes a tag of the ciphertext and of data that travels
along with it. Because enciphering is an exclusive or, deciphering is the same operation
(`cipher_cipher`).

Decryption accepts a ciphertext with exactly one tag: `decrypt?_eq_some_iff` says that it gives back
what encryption was given, and nothing else.
-/

namespace PooledCrypto.Aead

/-- An authenticated cipher under a key. -/
structure Engine where
  /-- The length of a nonce in bytes. -/
  nonceSize : Nat
  /-- The length of a tag in bytes. -/
  tagSize : Nat
  /-- Whether associated data and a text of these lengths can be taken. -/
  admits : Nat → Nat → Bool
  /-- The length of a block of keystream in bytes. -/
  blockSize : Nat
  /-- The block of a nonce's keystream with an index from 0 on. -/
  block : Bytes → Nat → Bytes
  /-- The tag for a nonce, associated data and a ciphertext. -/
  tag : Bytes → Bytes → Bytes → Bytes
  blockSize_pos : 0 < blockSize
  length_block : ∀ nonce i, (block nonce i).length = blockSize
  length_tag : ∀ nonce associated text, (tag nonce associated text).length = tagSize

namespace Engine

variable (e : Engine)

/-- The first `len` bytes of a nonce's keystream. -/
def keystream (nonce : Bytes) (len : Nat) : Bytes := Bytes.ofBlocks e.blockSize (e.block nonce) len

/-- Enciphers or deciphers a text. -/
def cipher (nonce text : Bytes) : Bytes := text.xor (e.keystream nonce text.length)

/-- The ciphertext and the tag of a plaintext, unless a length is too much for the engine. -/
def encrypt? (nonce associated plaintext : Bytes) : Option (Bytes × Bytes) :=
  if e.admits associated.length plaintext.length then
    let text := e.cipher nonce plaintext
    some (text, e.tag nonce associated text)
  else none

/-- The plaintext of a ciphertext, if the tag is right and no length is too much for the engine. -/
def decrypt? (nonce associated text tag : Bytes) : Option Bytes :=
  if e.admits associated.length text.length && tag == e.tag nonce associated text then
    some (e.cipher nonce text)
  else none

@[simp] theorem length_keystream (nonce : Bytes) (len : Nat) :
    (e.keystream nonce len).length = len :=
  Bytes.length_ofBlocks e.blockSize_pos (e.length_block nonce) len

@[simp] theorem length_cipher (nonce text : Bytes) :
    (e.cipher nonce text).length = text.length := by
  simp [cipher]

/-- Enciphering twice under the same nonce gives the text back. -/
theorem cipher_cipher (nonce text : Bytes) : e.cipher nonce (e.cipher nonce text) = text := by
  rw [cipher, length_cipher]
  exact Bytes.xor_xor_cancel (by simp)

/-- Decryption accepts just what encryption makes. -/
theorem decrypt?_eq_some_iff (nonce associated text tag plaintext : Bytes) :
    e.decrypt? nonce associated text tag = some plaintext ↔
      e.encrypt? nonce associated plaintext = some (text, tag) := by
  constructor
  · intro accepted
    simp only [decrypt?] at accepted
    split at accepted
    next valid =>
      simp only [Bool.and_eq_true, beq_iff_eq] at valid
      obtain ⟨admitted, rfl⟩ := valid
      obtain rfl := Option.some.inj accepted
      simp [encrypt?, cipher_cipher, admitted]
    next => simp at accepted
  · intro made
    simp only [encrypt?] at made
    split at made
    next admitted =>
      simp only [Option.some.injEq, Prod.mk.injEq] at made
      obtain ⟨rfl, rfl⟩ := made
      simp [decrypt?, cipher_cipher, admitted]
    next => simp at made

end Engine
end PooledCrypto.Aead
