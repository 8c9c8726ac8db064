import PooledCrypto.Provider.Key

/-!
# Key agreement

Two holders of private keys agree on a secret by exchanging public keys. The peer's key is taken in
its raw form, so it does not matter where it comes from.
-/

namespace PooledCrypto.Provider

open Curve (P256.PublicKey P256.PrivateKey)

/-- Agrees on secrets with a private key. -/
structure Agreement where
  key : P256.PrivateKey

/-- Whose key is agreed with. -/
inductive Peer
  /-- A key of some provider. -/
  | key (key : Key)
  /-- A foreign key with a raw form. -/
  | raw (bytes : Bytes)
  /-- A foreign key that cannot be exported. -/
  | refusing (e : Error)

/-- The peer's raw form. -/
def Peer.encode : Peer → Except Error Bytes
  | .key k => k.encode .raw
  | .raw bytes => .ok bytes
  | .refusing e => .error e

namespace Agreement

/-- The size of a secret in bytes. -/
def secretSize (_ : Agreement) : Nat := Curve.P256.scalarSize

/-- Makes agreements with a private key. -/
def factory (key : P256.PrivateKey) : Factory State Parameters.Empty (Operation Agreement) where
  defaults := Parameters.defaults
  construct _ := Operation.make ⟨key⟩

/-- The secret shared with the holder of a key in its raw form. -/
def derive (a : Agreement) (raw : Bytes) : Except Error Bytes := do
  let key ← P256.PublicKey.ofBytes raw
  return a.key.agree key

/-- The secret shared with a peer. -/
def agree (a : Agreement) (peer : Peer) : Except Error Bytes := do
  let raw ← peer.encode
  a.derive raw

/-- Agrees on a secret in one of the shapes of a call. The peer's key is exported by the caller, in
whatever shape the call is. -/
def exchange (o : Operation Agreement) (shape : Shape) (peer : Peer) : Action State Bytes := do
  let raw ← Action.ofExcept peer.encode
  o.call shape (Action.ofExcept (o.core.derive raw))

end Agreement
end PooledCrypto.Provider
