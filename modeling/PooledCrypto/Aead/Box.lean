import PooledCrypto.Bytes.Basic
import PooledCrypto.Error

/-!
# Boxed ciphertexts

An encrypted text has three parts: nonce, ciphertext and tag. It is written flat by putting them one
after the other. Knowing how long the nonce and the tag are is enough to take it apart again
(`ofFlat_toFlat`).
-/

namespace PooledCrypto.Aead

/-- An encrypted text with its parts kept apart. -/
structure Box where
  nonce : Bytes
  ciphertext : Bytes
  tag : Bytes
  deriving DecidableEq, Repr

namespace Box

/-- The length of the flat form in bytes. -/
def flatLength (b : Box) : Nat := b.nonce.length + b.ciphertext.length + b.tag.length

/-- The flat form: the parts one after the other. -/
def toFlat (b : Box) : Bytes := b.nonce ++ b.ciphertext ++ b.tag

/-- Takes a flat form apart. -/
def ofFlat (flat : Bytes) (nonceSize tagSize : Nat) : Except Error Box :=
  if flat.length < nonceSize + tagSize then .error (.crypto (some .tooShort))
  else
    let rest := flat.drop nonceSize
    let textSize := rest.length - tagSize
    .ok ⟨flat.take nonceSize, rest.take textSize, rest.drop textSize⟩

@[simp] theorem length_toFlat (b : Box) : b.toFlat.length = b.flatLength := by
  simp [toFlat, flatLength, Nat.add_assoc]

/-- Taking the flat form of a box apart gives the box. -/
theorem ofFlat_toFlat (b : Box) : ofFlat b.toFlat b.nonce.length b.tag.length = .ok b := by
  simp [ofFlat, toFlat]

end Box
end PooledCrypto.Aead
