import PooledCrypto.Bytes.Basic

/-!
# Hashing block by block

A hash function works through its input in blocks of a fixed size and keeps a chaining value between
them. The last block is treated in its own way, so a full block is only worked in once more input
follows it.

What has been taken in so far is an `Absorption`. Input can be taken in piece by piece; where it is
cut does not matter (`absorb_append`).
-/

namespace PooledCrypto.Digest

/-- A hash function that works block by block. -/
structure BlockHash where
  /-- The chaining values. -/
  Chain : Type
  /-- The size of a block in bytes. -/
  blockSize : Nat
  /-- The size of the digest in bytes. -/
  outputSize : Nat
  /-- The chaining value before any input. -/
  initial : Chain
  /-- Works in a full block. The number says how many bytes there are up to its end. -/
  compress : Chain → Nat → Bytes → Chain
  /-- Works in what is left, which is at most a block, and gives the digest. The number says how
  many bytes there are altogether. -/
  finish : Chain → Nat → Bytes → Bytes

/-- What a hash function has taken in so far. -/
structure Absorption (H : BlockHash) where
  chain : H.Chain
  /-- The bytes that are not worked in yet, the latest in front. -/
  pending : Bytes
  /-- How many bytes were taken in altogether. -/
  total : Nat

namespace Absorption

variable {H : BlockHash}

/-- Nothing taken in. -/
def empty : Absorption H := ⟨H.initial, [], 0⟩

/-- Takes in a byte. If a full block was waiting it is worked in first. -/
def push (s : Absorption H) (b : UInt8) : Absorption H :=
  if s.pending.length < H.blockSize then ⟨s.chain, b :: s.pending, s.total + 1⟩
  else ⟨H.compress s.chain s.total s.pending.reverse, [b], s.total + 1⟩

/-- Takes in bytes. -/
def absorb (s : Absorption H) (data : Bytes) : Absorption H := data.foldl push s

/-- The digest of what was taken in. -/
def finish (s : Absorption H) : Bytes := H.finish s.chain s.total s.pending.reverse

@[simp] theorem absorb_nil (s : Absorption H) : s.absorb [] = s := rfl

/-- Taking in two pieces one after the other is taking them in as one. -/
theorem absorb_append (s : Absorption H) (a b : Bytes) :
    s.absorb (a ++ b) = (s.absorb a).absorb b := List.foldl_append

end Absorption

/-- The digest of a message. -/
def BlockHash.digest (H : BlockHash) (message : Bytes) : Bytes :=
  (Absorption.absorb (Absorption.empty : Absorption H) message).finish

end PooledCrypto.Digest
