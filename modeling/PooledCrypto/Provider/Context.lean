import PooledCrypto.Provider.State

/-!
# Borrowing contexts

Hashing and signing need a context, which is borrowed from a pool for one message and given back
afterwards. A context may come back with input left in it, so a borrowed context is reset before it
is used: what it computes depends on its own message only.

A one-shot call borrows a context for its own length (`compute`). A streaming function keeps one as
long as it lives.
-/

namespace PooledCrypto.Provider

/-- Where contexts come from. -/
inductive Source
  /-- The pool of a digest. -/
  | digest (kind : Digest.Kind)
  /-- The pool of a MAC key, by its number. -/
  | mac (pool : Nat)
  deriving DecidableEq, Repr

/-- A borrowed context, with the pool it has to go back to. -/
inductive Loan
  | digest (pool : String) (handle : Handle Digest.Context)
  | mac (pool : Nat) (handle : Handle Mac.Context)

namespace Loan

/-- Forgets what the context was fed. -/
def reset : Loan → Loan
  | .digest pool h => .digest pool ⟨h.serial, h.value.reset⟩
  | .mac pool h => .mac pool ⟨h.serial, h.value.reset⟩

/-- Feeds the context. -/
def update (data : Bytes) : Loan → Loan
  | .digest pool h => .digest pool ⟨h.serial, h.value.update data⟩
  | .mac pool h => .mac pool ⟨h.serial, h.value.update data⟩

/-- Gives what the context computed. -/
def finish : Loan → Bytes × Loan
  | .digest pool h =>
    let (result, context) := h.value.finish
    (result, .digest pool ⟨h.serial, context⟩)
  | .mac pool h =>
    let (result, context) := h.value.finish
    (result, .mac pool ⟨h.serial, context⟩)

end Loan

/-- Sees to it that a digest has a pool of contexts. -/
def openDigestPool (kind : Digest.Kind) : Action State Unit := fun s =>
  let (result, pools) := s.pools.getOrCreate kind.name .digest HandleType.digest.size
    fun _ => .ok (Digest.Context.fresh kind)
  (result, { s with pools })

/-- The bytes that room for a MAC context takes. -/
def macContextSize : Nat := 400

/-- Makes the pool of a new MAC key and gives its number. -/
def openMacPool (kind : Digest.Kind) (key : Bytes) : Action State Nat := fun s =>
  let pool := Pool.reserve macContextSize ("HMAC/" ++ kind.name) s.pools.capacity
    fun _ => .ok (Mac.Context.fresh kind key)
  match pool with
  | .ok pool => (.ok s.macPools.length, { s with macPools := s.macPools ++ [pool] })
  | .error f => (.error f, s)

/-- Borrows a context as it comes out of its pool. -/
def checkout (source : Source) : Action State Loan := fun s =>
  match source with
  | .digest kind =>
    match s.pools.pool? kind.name .digest with
    | none => (.error (.error (.invalidInput (.handleType kind.name))), s)
    | some pool =>
      let (handle, pool) := pool.checkout
      let s := { s with pools := s.pools.replace kind.name .digest pool }
      match handle with
      | .ok h => (.ok (.digest kind.name h), s)
      | .error e => (.error (.error e), s)
  | .mac number =>
    match s.macPools[number]? with
    | none => (.error (.error (.invalidInput (.handleType "HMAC"))), s)
    | some pool =>
      let (handle, pool) := pool.checkout
      let s := { s with macPools := s.macPools.set number pool }
      match handle with
      | .ok h => (.ok (.mac number h), s)
      | .error e => (.error (.error e), s)

/-- Borrows a context that has been fed nothing. -/
def borrow (source : Source) : Action State Loan := do
  let loan ← checkout source
  return loan.reset

/-- Gives a context back. -/
def State.giveBack (s : State) (loan : Loan) : State :=
  match loan with
  | .digest name h =>
    match s.pools.pool? name .digest with
    | none => s
    | some pool => { s with pools := s.pools.replace name .digest (pool.release h) }
  | .mac number h =>
    match s.macPools[number]? with
    | none => s
    | some pool => { s with macPools := s.macPools.set number (pool.release h) }

/-- What a context of a source computes of a message. -/
def compute (source : Source) (data : Bytes) : Action State Bytes := do
  let loan ← borrow source
  let (result, loan) := (loan.update data).finish
  Action.change fun s => s.giveBack loan
  return result

/-- Feeding a borrowed context in chunks. -/
instance : Streaming.Core Loan Unit Bytes where
  update loan chunk := (.ok (), loan.update chunk)
  finish loan chunk :=
    let (result, loan) := (loan.update chunk).finish
    (.ok result, loan)

end PooledCrypto.Provider
