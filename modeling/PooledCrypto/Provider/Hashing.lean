import PooledCrypto.Provider.Context
import PooledCrypto.Parameters.Factory

/-!
# Hashing

A hasher computes digests with contexts from the pool of its digest. The pool is made when the first
hasher is.
-/

namespace PooledCrypto.Provider

/-- Hashes with one digest. -/
structure Hasher where
  kind : Digest.Kind
  deriving DecidableEq, Repr

/-- A message that is hashed chunk by chunk. -/
abbrev HashFunction := Streaming.Function Loan

namespace Hasher

/-- The size of a digest in bytes. -/
def digestSize (h : Hasher) : Nat := h.kind.outputSize

/-- Makes hashers for a digest. -/
def factory (kind : Digest.Kind) : Factory State Parameters.Empty (Operation Hasher) where
  defaults := Parameters.defaults
  construct _ := do
    openDigestPool kind
    Operation.make ⟨kind⟩

/-- Hashes a message. -/
def hash (h : Hasher) (data : Bytes) : Action State Bytes := compute (.digest h.kind) data

/-- Starts hashing chunk by chunk. -/
def start (h : Hasher) : Action State HashFunction := do
  let loan ← borrow (.digest h.kind)
  return .start loan

end Hasher
end PooledCrypto.Provider
