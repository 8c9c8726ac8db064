import PooledCrypto.Aead.Cipher
import PooledCrypto.Provider.Key

/-!
# Enciphering

Ciphers need no context. What they draw from the provider is a nonce, where the caller gives none.
-/

namespace PooledCrypto.Provider

/-- A text that is encrypted or decrypted chunk by chunk. -/
abbrev CipherFunction := Streaming.Function Aead.Buffer

/-- Makes ciphers with a key. -/
def cipherFactory (key : Aead.Key) : Factory State Parameters.Aead (Operation Aead.Cipher) where
  defaults := Parameters.defaults
  construct p := do
    let cipher ← Action.ofExcept (key.cipher p.tagSize)
    Operation.make cipher

namespace Enciphering

/-- The caller's nonce if it has the right length, or else a drawn one. -/
def chooseNonce (c : Aead.Cipher) (nonce : Option Bytes) : Action State Bytes :=
  match nonce with
  | some nonce => Action.ofExcept (c.checkNonce nonce)
  | none => drawBytes c.nonceSize

/-- Encrypts a text into a box. -/
def encryptBox (c : Aead.Cipher) (nonce : Option Bytes) (associated plaintext : Bytes) :
    Action State Aead.Box := do
  let nonce ← chooseNonce c nonce
  Action.ofExcept (c.encryptBox nonce associated plaintext)

/-- Encrypts a text into its flat form. -/
def encrypt (c : Aead.Cipher) (nonce : Option Bytes) (associated plaintext : Bytes) :
    Action State Bytes := do
  let box ← encryptBox c nonce associated plaintext
  return box.toFlat

/-- Starts encrypting chunk by chunk. -/
def startEncrypting (c : Aead.Cipher) (nonce : Option Bytes) (associated : Bytes) :
    Action State CipherFunction := do
  let nonce ← chooseNonce c nonce
  return .start (.start c (.encrypt nonce) associated)

/-- Starts decrypting chunk by chunk. -/
def startDecrypting (c : Aead.Cipher) (associated : Bytes) : CipherFunction :=
  .start (.start c .decrypt associated)

end Enciphering
end PooledCrypto.Provider
