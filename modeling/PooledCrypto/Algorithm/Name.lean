import PooledCrypto.Text.Quoted

/-!
# Algorithm identifiers

An identifier is a name together with the family of algorithms it is asked for in. The family is
part of the type and not of the value: two identifiers of a family are equal when their names are.
This module also lists the names that are in common use.
-/

namespace PooledCrypto

/-- A family of algorithms: what an algorithm of it can be used for. -/
inductive Family
  | digest
  | hmac
  | aead
  | ecdsa
  | ecdh
  deriving DecidableEq, Repr

namespace Algorithm

/-- The identifier of an algorithm of a family. -/
structure Id (family : Family) where
  name : String
  deriving DecidableEq, Repr

/-- An identifier as diagnostics show it: the name as it stands. -/
def Id.debug {family : Family} (id : Id family) : String := Text.tuple "AlgorithmId" [id.name]

/-- The names of the digests. -/
def digests : List String :=
  ["SHA-1", "SHA-256", "SHA-384", "SHA-512", "BLAKE2b-512", "BLAKE2s-256"]

/-- The names of the authenticated ciphers. -/
def ciphers : List String := ["AES-GCM", "ChaCha20-Poly1305", "XChaCha20-Poly1305"]

/-- The name of the keyed message authentication code. -/
def hmac : String := "HMAC"

/-- The name of the signature scheme. -/
def ecdsa : String := "ECDSA"

/-- The name of the key agreement. -/
def ecdh : String := "ECDH"

/-- The digest of a name in any case of ASCII letters. -/
def digestByName? (name : String) : Option String :=
  digests.find? fun d => Text.equalUpToCase d name

end Algorithm
end PooledCrypto
