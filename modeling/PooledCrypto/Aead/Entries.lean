import PooledCrypto.Action
import PooledCrypto.Aead.Engine

/-!
# Entering an engine

An engine takes its nonce and its tag as arrays of fixed lengths. Converting bytes of any other
length to such an array does not fail but unwinds, so whoever enters an engine has to see to the
lengths before (`Engine.Takes`).

Work on engines is written for any monad in which engines can be entered. Where it is run there is
nothing more to that. Where it is watched, each call that enters an engine is noted (`Watch`), and
what is watched is the same work.
-/

namespace PooledCrypto.Aead

/-- A call that enters an engine. -/
inductive Entry
  | seal (nonce associated plaintext : Bytes)
  | unseal (nonce associated text tag : Bytes)

/-- Whether the nonce and the tag fit the arrays that the engine takes them as. -/
def Engine.Takes (e : Engine) : Entry → Prop
  | .seal nonce _ _ => nonce.length = e.nonceSize
  | .unseal nonce _ _ tag => nonce.length = e.nonceSize ∧ tag.length = e.tagSize

/-- Work that can enter engines. -/
class Enters (m : Type → Type) where
  enter : Entry → m Unit

/-- Where work is run, nobody notes what enters an engine. -/
instance : Enters (Except Error) where
  enter _ := .ok ()

/-- Work during which is noted what enters engines. -/
abbrev Watch (α : Type) := ExceptT Error (StateM (List Entry)) α

instance : Enters Watch where
  enter entry := fun entered => (.ok (), entered ++ [entry])

/-- Watched work for whoever has it run elsewhere. -/
def Watch.action {α : Type} (work : Watch α) : Action (List Entry) α := fun entered =>
  ((work entered).1.mapError .error, (work entered).2)

namespace Engine

variable {m : Type → Type} [Monad m] [MonadExcept Error m] [Enters m]

/-- Encrypts. The engine can reject a plaintext that is too long for it. -/
def encrypt (e : Engine) (nonce associated plaintext : Bytes) : m (Bytes × Bytes) := do
  Enters.enter (.seal nonce associated plaintext)
  (e.encrypt? nonce associated plaintext).elim (throw (.crypto (some .plaintextRejected))) pure

/-- Decrypts, if the tag is right. -/
def decrypt (e : Engine) (nonce associated text tag : Bytes) : m Bytes := do
  Enters.enter (.unseal nonce associated text tag)
  (e.decrypt? nonce associated text tag).elim (throw (.crypto (some .authentication))) pure

end Engine
end PooledCrypto.Aead
