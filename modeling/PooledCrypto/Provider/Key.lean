import PooledCrypto.Aead.Kind
import PooledCrypto.Curve.P256.Key
import PooledCrypto.Parameters.Factory
import PooledCrypto.Provider.Context

/-!
# Keys

Keys are generated, or imported from bytes, and can be exported to bytes again. Only the raw format
is implemented: importing looks at the format before it looks at the bytes, and before that at the
digest or the curve that the key is for.
-/

namespace PooledCrypto.Provider

open Curve (P256.PublicKey P256.PrivateKey P256.KeyPair)

/-- A key of a message authentication code. It has a pool of contexts of its own. -/
structure HmacKey where
  digest : Digest.Kind
  bytes : Bytes
  pool : Nat

/-- A key of any kind. -/
inductive Key
  | hmac (key : HmacKey)
  | aead (key : Aead.Key)
  | ecdsaPublic (key : P256.PublicKey)
  | ecdsaPrivate (key : P256.PrivateKey)
  | ecdhPublic (key : P256.PublicKey)
  | ecdhPrivate (key : P256.PrivateKey)

namespace Key

/-- The key's raw form. -/
def raw : Key → Bytes
  | .hmac key => key.bytes
  | .aead key => key.bytes
  | .ecdsaPublic key => key.toBytes
  | .ecdsaPrivate key => key.toBytes
  | .ecdhPublic key => key.toBytes
  | .ecdhPrivate key => key.toBytes

end Key

/-- Refuses all formats but the raw one. -/
def requireRaw (format : KeyFormat) : Except Error Unit :=
  match format with
  | .raw => .ok ()
  | other => .error (.operationNotSupported (.keyEncoding other))

/-- Refuses all curves but the one that is implemented. -/
def requireP256 (curve : Curve) : Except Error Unit :=
  match curve with
  | .p256 => .ok ()
  | other => .error (.operationNotSupported (.curve other))

/-- The SHA-2 digest of a name, for use inside another algorithm. -/
def requireSha2 (algorithm digest : String) : Except Error Digest.Kind :=
  match Digest.Kind.ofName? digest with
  | some kind =>
    if kind.isSha2 then .ok kind else .error (.operationNotSupported (.digest algorithm digest))
  | none => .error (.operationNotSupported (.digest algorithm digest))

/-- Exports a key. -/
def Key.encode (key : Key) (format : KeyFormat) : Except Error Bytes := do
  requireRaw format
  return key.raw

/-! ### Keys of message authentication codes -/

/-- A new key with a pool of its own. -/
def HmacKey.make (digest : Digest.Kind) (bytes : Bytes) : Action State HmacKey := do
  let pool ← openMacPool digest bytes
  return ⟨digest, bytes, pool⟩

/-- Imports a key. -/
def HmacKey.decode (digest : String) (format : KeyFormat) (bytes : Bytes) :
    Action State HmacKey := do
  let kind ← Action.ofExcept (requireSha2 Algorithm.hmac digest)
  Action.ofExcept (requireRaw format)
  if bytes.isEmpty then Action.fail (.invalidInput .emptyKey)
  HmacKey.make kind bytes

/-- Generates keys of type `α`. -/
abbrev KeyGenerator (α : Type) := Operation (Action State α)

/-- The generator of keys: of the length asked for, or else as long as a block of the digest. -/
def hmacGenerator : Factory State Parameters.HmacKey (KeyGenerator HmacKey) where
  defaults := Parameters.defaults
  construct p := do
    let kind ← Action.ofExcept (requireSha2 Algorithm.hmac p.digest)
    let size :=
      match p.keySize with
      | some bits => bits / 8
      | none => kind.blockSize
    Operation.make do
      let bytes ← drawBytes size
      HmacKey.make kind bytes

/-! ### Keys of authenticated ciphers -/

/-- Imports a key. -/
def decodeAeadKey (kind : Aead.Kind) (format : KeyFormat) (bytes : Bytes) :
    Except Error Aead.Key := do
  requireRaw format
  Aead.Key.ofBytes kind bytes

/-- The generator of keys for a cipher. -/
def aeadGenerator (kind : Aead.Kind) :
    Factory State Parameters.AeadKey (KeyGenerator Aead.Key) where
  defaults := Parameters.defaults
  construct p := do
    Action.ofExcept (kind.checkKeySize (p.keySize / 8))
    Operation.make do
      let bytes ← drawBytes (p.keySize / 8)
      Action.ofExcept (Aead.Key.ofBytes kind bytes)

/-! ### Keys on elliptic curves -/

/-- Imports a public key. -/
def decodePublicKey (curve : Curve) (format : KeyFormat) (bytes : Bytes) :
    Except Error P256.PublicKey := do
  requireP256 curve
  requireRaw format
  P256.PublicKey.ofBytes bytes

/-- Imports a private key. -/
def decodePrivateKey (curve : Curve) (format : KeyFormat) (bytes : Bytes) :
    Except Error P256.PrivateKey := do
  requireP256 curve
  requireRaw format
  P256.PrivateKey.ofBytes bytes

/-- Draws a key pair. Candidates that are out of range are drawn again. -/
def drawKeyPair : Action State P256.KeyPair := drawing fun e =>
  e.drawUntil Curve.P256.scalarSize (by decide) fun candidate =>
    P256.KeyPair.ofScalar? (Bytes.toNatBE candidate)

/-- The generator of key pairs. -/
def keyPairGenerator : Factory State Parameters.EcKey (KeyGenerator P256.KeyPair) where
  defaults := Parameters.defaults
  construct p := do
    Action.ofExcept (requireP256 p.curve)
    Operation.make drawKeyPair

end PooledCrypto.Provider
