import PooledCrypto.Aead.Gcm
import PooledCrypto.Aead.Poly1305
import PooledCrypto.Error

/-!
# The authenticated ciphers that are implemented

A key belongs to one of the ciphers and has one of the lengths that the cipher knows; the type says
so. From a key and a tag length comes an engine, if the cipher has tags of that length. The engines
do not rely on that: they look at the length of their key once more (`Kind.dispatch`).
-/

namespace PooledCrypto.Aead

/-- An authenticated cipher that is implemented. -/
inductive Kind
  | aesGcm
  | chaCha20Poly1305
  | xChaCha20Poly1305
  deriving DecidableEq, Repr

namespace Kind

/-- Every cipher that is implemented. -/
def all : List Kind := [.aesGcm, .chaCha20Poly1305, .xChaCha20Poly1305]

/-- The cipher's name. -/
def name : Kind → String
  | .aesGcm => "AES-GCM"
  | .chaCha20Poly1305 => "ChaCha20-Poly1305"
  | .xChaCha20Poly1305 => "XChaCha20-Poly1305"

/-- The cipher of a name, which has to be written exactly so. -/
def ofName? (name : String) : Option Kind := all.find? fun k => k.name == name

/-- The length of a nonce in bytes. -/
def nonceSize : Kind → Nat
  | .aesGcm | .chaCha20Poly1305 => 12
  | .xChaCha20Poly1305 => 24

/-- The lengths that a key can have, in bytes. -/
def keySizes : Kind → List Nat
  | .aesGcm => [16, 24, 32]
  | .chaCha20Poly1305 | .xChaCha20Poly1305 => [32]

/-- Refuses to generate keys of a length that the cipher does not have. -/
def checkKeySize (k : Kind) (bytes : Nat) : Except Error Unit :=
  if bytes ∈ k.keySizes then .ok ()
  else .error (.operationNotSupported (.keyBits k.name (bytes * 8)))

/-- The engine for bytes of any length as a key. AES looks at the key before it looks at the tag,
the others the other way around. -/
def dispatch (k : Kind) (key : Bytes) (tagSize : Nat) : Except Error Engine :=
  let badKey : Error := .invalidInput (.engineKeyLength key.length)
  let badTag : Error := .operationNotSupported (.tagBytes k.name tagSize)
  match k with
  | .aesGcm =>
    if key.length = 16 ∨ key.length = 24 ∨ key.length = 32 then
      if h : 12 ≤ tagSize ∧ tagSize ≤ 16 then .ok (Gcm.engine key tagSize h.2)
      else .error badTag
    else .error badKey
  | .chaCha20Poly1305 =>
    if tagSize ≠ 16 then .error badTag
    else if key.length = 32 then .ok (Poly1305.engine key)
    else .error badKey
  | .xChaCha20Poly1305 =>
    if tagSize ≠ 16 then .error badTag
    else if key.length = 32 then .ok (Poly1305.extendedEngine key)
    else .error badKey

theorem ofName?_name (k : Kind) : ofName? k.name = some k := by cases k <;> decide

end Kind

/-- A key of an authenticated cipher. -/
structure Key where
  kind : Kind
  bytes : Bytes
  length_mem : bytes.length ∈ kind.keySizes

namespace Key

/-- Takes bytes as a key, if they have a length that the cipher knows. -/
def ofBytes (kind : Kind) (bytes : Bytes) : Except Error Key :=
  if h : bytes.length ∈ kind.keySizes then .ok ⟨kind, bytes, h⟩
  else .error (.invalidInput (.keyLength kind.name bytes.length))

/-- The length of the key in bits. -/
def bits (key : Key) : Nat := key.bytes.length * 8

/-- The engine of a key for tags of a given length. -/
def engine (key : Key) (tagSize : Nat) : Except Error Engine := key.kind.dispatch key.bytes tagSize

/-- What a key can be exported to can be imported again as the same key. -/
theorem ofBytes_bytes (key : Key) : ofBytes key.kind key.bytes = .ok key := by
  simp [ofBytes, key.length_mem]

end Key
end PooledCrypto.Aead
