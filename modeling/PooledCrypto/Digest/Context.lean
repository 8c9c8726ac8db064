import PooledCrypto.Digest.Kind
import PooledCrypto.Streaming.Function

/-!
# Digest contexts

A context takes in a message piece by piece. Giving out the digest makes the context fresh again, so
it can serve another message; a context given up halfway has to be reset first.
-/

namespace PooledCrypto.Digest

/-- A digest in progress. -/
structure Context where
  kind : Kind
  state : Absorption kind.hash

namespace Context

/-- A context that has taken in nothing. -/
def fresh (kind : Kind) : Context := ⟨kind, .empty⟩

/-- Forgets what was taken in. -/
def reset (c : Context) : Context := fresh c.kind

/-- Takes in a piece of the message. -/
def update (c : Context) (data : Bytes) : Context := ⟨c.kind, c.state.absorb data⟩

/-- Gives the digest of what was taken in and makes the context fresh again. -/
def finish (c : Context) : Bytes × Context := (c.state.finish, c.reset)

theorem update_append (c : Context) (a b : Bytes) :
    c.update (a ++ b) = (c.update a).update b := by
  simp [update, Absorption.absorb_append]

/-- A fresh context gives the digest of just what it takes in. -/
theorem finish_update_fresh (kind : Kind) (message : Bytes) :
    ((fresh kind).update message).finish = (kind.digest message, fresh kind) := rfl

end Context

/-- Feeding a context in chunks. -/
instance : Streaming.Core Context Unit Bytes where
  update c chunk := (.ok (), c.update chunk)
  finish c chunk :=
    let (digest, c) := (c.update chunk).finish
    (.ok digest, c)

end PooledCrypto.Digest
