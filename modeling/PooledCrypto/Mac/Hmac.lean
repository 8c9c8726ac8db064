import PooledCrypto.Digest.Context

/-!
# HMAC

A keyed message authentication code over a hash function: the message is hashed behind one half of
the key, and the result behind the other. Keys longer than a block are hashed first.

A context is bound to a key. Giving out the code makes it fresh for the same key again.
-/

namespace PooledCrypto.Mac

open Digest (BlockHash Absorption Kind)

/-- The key filled up to a block with zeros; hashed first if it is longer than a block. -/
def blockKey (H : BlockHash) (key : Bytes) : Bytes :=
  let short := if key.length ≤ H.blockSize then key else H.digest key
  short ++ Bytes.zeros (H.blockSize - short.length)

/-- The block key with every byte changed by a mask. -/
def masked (H : BlockHash) (key : Bytes) (mask : UInt8) : Bytes :=
  (blockKey H key).map fun b => b ^^^ mask

/-- The inner hash function after its half of the key. -/
def innerStart (H : BlockHash) (key : Bytes) : Absorption H :=
  Absorption.absorb .empty (masked H key 0x36)

/-- The code of a message whose inner hash is given. -/
def outer (H : BlockHash) (key inner : Bytes) : Bytes := H.digest (masked H key 0x5c ++ inner)

/-- The code of a message under a key. -/
def hmac (H : BlockHash) (key message : Bytes) : Bytes :=
  outer H key (H.digest (masked H key 0x36 ++ message))

/-- A code is as long as a digest. -/
theorem length_hmac (kind : Kind) (key message : Bytes) :
    (hmac kind.hash key message).length = kind.outputSize := kind.length_digest _

/-- A code in progress. -/
structure Context where
  kind : Kind
  key : Bytes
  inner : Absorption kind.hash

namespace Context

/-- A context that has taken in nothing. -/
def fresh (kind : Kind) (key : Bytes) : Context := ⟨kind, key, innerStart kind.hash key⟩

/-- Forgets what was taken in. -/
def reset (c : Context) : Context := fresh c.kind c.key

/-- Takes in a piece of the message. -/
def update (c : Context) (data : Bytes) : Context := ⟨c.kind, c.key, c.inner.absorb data⟩

/-- Gives the code of what was taken in and makes the context fresh again. -/
def finish (c : Context) : Bytes × Context := (outer c.kind.hash c.key c.inner.finish, c.reset)

theorem update_append (c : Context) (a b : Bytes) :
    c.update (a ++ b) = (c.update a).update b := by
  simp [update, Absorption.absorb_append]

/-- A fresh context gives the code of just what it takes in. -/
theorem finish_update_fresh (kind : Kind) (key message : Bytes) :
    ((fresh kind key).update message).finish = (hmac kind.hash key message, fresh kind key) := by
  simp [fresh, update, finish, reset, hmac, BlockHash.digest, innerStart,
    Absorption.absorb_append]

end Context

/-- Feeding a context in chunks. -/
instance : Streaming.Core Context Unit Bytes where
  update c chunk := (.ok (), c.update chunk)
  finish c chunk :=
    let (code, c) := (c.update chunk).finish
    (.ok code, c)

end PooledCrypto.Mac
