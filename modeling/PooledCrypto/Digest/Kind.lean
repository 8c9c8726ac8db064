import PooledCrypto.Algorithm.Name
import PooledCrypto.Digest.Blake2
import PooledCrypto.Digest.Sha2

/-!
# The digests that are implemented
-/

namespace PooledCrypto.Digest

/-- A digest that is implemented. -/
inductive Kind
  | sha256
  | sha384
  | sha512
  | blake2b512
  | blake2s256
  deriving DecidableEq, Repr

namespace Kind

/-- Every digest that is implemented. -/
def all : List Kind := [.sha256, .sha384, .sha512, .blake2b512, .blake2s256]

/-- The digest's name. -/
def name : Kind → String
  | .sha256 => "SHA-256"
  | .sha384 => "SHA-384"
  | .sha512 => "SHA-512"
  | .blake2b512 => "BLAKE2b-512"
  | .blake2s256 => "BLAKE2s-256"

/-- The digest of a name, which has to be written exactly so. -/
def ofName? (name : String) : Option Kind := all.find? fun k => k.name == name

/-- The hash function behind the digest. -/
def hash : Kind → BlockHash
  | .sha256 => Sha2.sha256
  | .sha384 => Sha2.sha384
  | .sha512 => Sha2.sha512
  | .blake2b512 => Blake2.blake2b512
  | .blake2s256 => Blake2.blake2s256

/-- The size of the digest in bytes. -/
def outputSize (k : Kind) : Nat := k.hash.outputSize

/-- The size of a block in bytes. -/
def blockSize (k : Kind) : Nat := k.hash.blockSize

/-- The digest of a message. -/
def digest (k : Kind) (message : Bytes) : Bytes := k.hash.digest message

/-- Whether the digest is one of the SHA-2 family. -/
def isSha2 : Kind → Bool
  | .sha256 | .sha384 | .sha512 => true
  | .blake2b512 | .blake2s256 => false

theorem ofName?_name (k : Kind) : ofName? k.name = some k := by cases k <;> decide

/-- No two digests have the same name. -/
theorem name_injective {k k' : Kind} (h : k.name = k'.name) : k = k' := by
  have hfound := ofName?_name k
  rw [h, ofName?_name k'] at hfound
  exact (Option.some.inj hfound).symm

theorem length_digest (k : Kind) (message : Bytes) : (k.digest message).length = k.outputSize := by
  cases k with
  | sha256 => exact Sha2.length_finish (by decide) _ _ _
  | sha384 => exact Sha2.length_finish (by decide) _ _ _
  | sha512 => exact Sha2.length_finish (by decide) _ _ _
  | blake2b512 => exact Blake2.length_finish (by decide) _ _ _
  | blake2s256 => exact Blake2.length_finish (by decide) _ _ _

end Kind
end PooledCrypto.Digest
