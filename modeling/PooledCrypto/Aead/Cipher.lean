import PooledCrypto.Aead.Box
import PooledCrypto.Aead.Entries
import PooledCrypto.Aead.Kind
import PooledCrypto.Streaming.Function

/-!
# Ciphers

A cipher puts an engine behind checks of lengths. A nonce of the wrong length is an invalid input. A
ciphertext that is too short, badly boxed or not authentic is a cryptographic failure; what exactly
was wrong is in the cause only.

The lengths that a cipher checks for are its own. That of a nonce comes from the table of its kind
and that of a tag from whoever asked for the cipher, and the type says that they are the lengths of
the engine.

Fed in chunks, a cipher keeps everything until the last one, so that no plaintext leaves it before
the tag is checked.
-/

namespace PooledCrypto.Aead

/-- An engine has nonces and tags of the lengths in the tables. -/
theorem Kind.sizes_of_dispatch {kind : Kind} {key : Bytes} {tagSize : Nat} {e : Engine}
    (h : kind.dispatch key tagSize = .ok e) :
    e.nonceSize = kind.nonceSize ∧ e.tagSize = tagSize := by
  cases kind with
  | aesGcm =>
      unfold dispatch at h
      dsimp only at h
      split at h
      · split at h
        · obtain rfl := Except.ok.inj h
          exact ⟨rfl, rfl⟩
        · exact absurd h (by simp)
      · exact absurd h (by simp)
  | chaCha20Poly1305 | xChaCha20Poly1305 =>
      unfold dispatch at h
      dsimp only at h
      split at h
      · exact absurd h (by simp)
      -- these two have tags of sixteen bytes and were asked for that
      · rename_i htag
        split at h
        · obtain rfl := Except.ok.inj h
          exact ⟨rfl, (Decidable.not_not.mp htag).symm⟩
        · exact absurd h (by simp)

/-- A cipher: an engine, and the lengths that are checked for before it is entered. -/
structure Cipher where
  engine : Engine
  /-- The length of a nonce in bytes. -/
  nonceSize : Nat
  /-- The length of a tag in bytes. -/
  tagSize : Nat
  nonce_fits : nonceSize = engine.nonceSize
  tag_fits : tagSize = engine.tagSize

/-- The cipher of a key with tags of a given length. -/
def Key.cipher (key : Key) (tagSize : Nat) : Except Error Cipher :=
  match h : key.engine tagSize with
  | .ok engine =>
    have fits := Kind.sizes_of_dispatch h
    .ok ⟨engine, key.kind.nonceSize, tagSize, fits.1.symm, fits.2.symm⟩
  | .error e => .error e

namespace Cipher

variable (c : Cipher)

/-- The length of the flat form of a text of some length. -/
def ciphertextSize (plaintextSize : Nat) : Nat := c.nonceSize + plaintextSize + c.tagSize

/-- The length of the text in a flat form of some length. -/
def plaintextSize (ciphertextSize : Nat) : Except Error Nat :=
  let overhead := c.nonceSize + c.tagSize
  if ciphertextSize < overhead then
    .error (.invalidInput (.ciphertextLength ciphertextSize overhead))
  else .ok (ciphertextSize - overhead)

/-- Refuses nonces of the wrong length. -/
def checkNonce (nonce : Bytes) : Except Error Bytes :=
  if nonce.length = c.nonceSize then .ok nonce
  else .error (.invalidInput (.nonceLength c.nonceSize nonce.length))

/-! ### Work of a cipher -/

section

variable {m : Type → Type} [Monad m] [MonadExcept Error m] [Enters m]

/-- Encrypts a text into a box. -/
def encryptBoxM (nonce associated plaintext : Bytes) : m Box := do
  let nonce ← MonadExcept.ofExcept (c.checkNonce nonce)
  let made ← c.engine.encrypt nonce associated plaintext
  return ⟨nonce, made.1, made.2⟩

/-- Encrypts a text into its flat form. -/
def encryptM (nonce associated plaintext : Bytes) : m Bytes := do
  let box : Box ← c.encryptBoxM nonce associated plaintext
  return box.toFlat

/-- Decrypts a box. -/
def decryptBoxM (box : Box) (associated : Bytes) : m Bytes :=
  if box.nonce.length ≠ c.nonceSize ∨ box.tag.length ≠ c.tagSize then
    throw (.crypto (some .malformedBox))
  else c.engine.decrypt box.nonce associated box.ciphertext box.tag

/-- Decrypts a flat form. -/
def decryptM (flat associated : Bytes) : m Bytes := do
  let box ← MonadExcept.ofExcept (Box.ofFlat flat c.nonceSize c.tagSize)
  c.decryptBoxM box associated

end

/-- The box that a text is encrypted into. -/
def encryptBox (nonce associated plaintext : Bytes) : Except Error Box :=
  c.encryptBoxM nonce associated plaintext

/-- The flat form that a text is encrypted into. -/
def encrypt (nonce associated plaintext : Bytes) : Except Error Bytes :=
  c.encryptM nonce associated plaintext

/-- The text of a box. -/
def decryptBox (box : Box) (associated : Bytes) : Except Error Bytes :=
  c.decryptBoxM box associated

/-- The text of a flat form. -/
def decrypt (flat associated : Bytes) : Except Error Bytes := c.decryptM flat associated

end Cipher

/-- What a cipher is fed for. -/
inductive Direction
  /-- To encrypt under a nonce. -/
  | encrypt (nonce : Bytes)
  /-- To decrypt. -/
  | decrypt
  deriving DecidableEq, Repr

/-- A cipher that is fed in chunks. -/
structure Buffer where
  cipher : Cipher
  direction : Direction
  associated : Bytes
  /-- What it was fed. -/
  kept : Bytes

namespace Buffer

/-- A cipher that has been fed nothing. -/
def start (cipher : Cipher) (direction : Direction) (associated : Bytes) : Buffer :=
  ⟨cipher, direction, associated, []⟩

/-- Takes one more chunk. -/
def keep (b : Buffer) (chunk : Bytes) : Buffer := { b with kept := b.kept ++ chunk }

/-- Makes something of everything that the cipher was fed. -/
def resultM {m : Type → Type} [Monad m] [MonadExcept Error m] [Enters m] (b : Buffer) : m Bytes :=
  match b.direction with
  | .encrypt nonce => b.cipher.encryptM nonce b.associated b.kept
  | .decrypt => b.cipher.decryptM b.kept b.associated

/-- What the cipher makes of everything it was fed. -/
def result (b : Buffer) : Except Error Bytes := b.resultM

end Buffer

/-- Feeding a cipher in chunks. Nothing comes out before the last one. -/
instance : Streaming.Core Buffer Bytes Bytes where
  update b chunk := (.ok [], b.keep chunk)
  finish b chunk :=
    let b := b.keep chunk
    (b.result, b)

/-- A cipher that is fed in chunks, with what has entered its engine so far. -/
structure Watcher where
  buffer : Buffer
  entered : List Entry

/-- Feeding a cipher that is watched. -/
instance : Streaming.Core Watcher Bytes Bytes where
  update w chunk := (.ok [], { w with buffer := w.buffer.keep chunk })
  finish w chunk :=
    let buffer := w.buffer.keep chunk
    let watched := (buffer.resultM : Watch Bytes) w.entered
    (watched.1, ⟨buffer, watched.2⟩)

end PooledCrypto.Aead
