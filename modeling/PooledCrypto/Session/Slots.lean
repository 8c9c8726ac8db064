import PooledCrypto.Provider.Software

/-!
# Slots of a session

A session keeps what it has made in slots, by name. A slot that holds a streaming function also
holds what the function borrowed; when the slot is emptied or filled anew, that goes back
(`Item.release`).

Everything is kept with a note whether it depends on drawn randomness. Such bytes differ from run to
run, and only their number means something.
-/

namespace PooledCrypto

open Provider

namespace Session

/-- Bytes, and whether they depend on drawn randomness. -/
structure Datum where
  bytes : Bytes
  drawn : Bool
  deriving DecidableEq, Repr

/-- What a slot can hold. -/
inductive Item
  | data (d : Datum)
  | key (k : Provider.Key) (drawn : Bool)
  | hasher (o : Operation Hasher)
  | cipher (o : Operation Aead.Cipher) (drawn : Bool)
  | signer (o : Operation Signer) (drawn : Bool)
  | verifier (o : Operation Verifier)
  | agreement (o : Operation Agreement) (drawn : Bool)
  | box (b : Aead.Box) (drawn : Bool)
  | hashing (f : HashFunction) (drawn : Bool)
  | signing (f : SignFunction) (drawn : Bool)
  | verifying (f : VerifyFunction)
  | encrypting (f : CipherFunction) (drawn : Bool)
  | decrypting (f : CipherFunction)

namespace Item

/-- What the item has borrowed. -/
def loan? : Item → Option Loan
  | .hashing f _ => f.close.1
  | .signing f _ => f.close.1.map (·.loan)
  | .verifying f => f.close.1.map (·.loan)
  | _ => none

/-- Gives back what the item has borrowed. -/
def release (item : Item) (s : State) : State :=
  match item.loan? with
  | some loan => s.giveBack loan
  | none => s

end Item

/-- Items by name. -/
abbrev Slots := List (String × Item)

namespace Slots

/-- The item in a slot. -/
def get? (slots : Slots) (name : String) : Option Item :=
  (slots.find? fun s => s.1 == name).map (·.2)

/-- Empties a slot. -/
def erase (slots : Slots) (name : String) : Slots := slots.filter fun s => s.1 != name

/-- Fills a slot. -/
def put (slots : Slots) (name : String) (item : Item) : Slots := (name, item) :: slots.erase name

end Slots

end Session

/-- A provider and the slots filled so far. -/
structure Session where
  provider : Provider
  slots : Session.Slots
  /-- The first instance that was handed out of each algorithm, by family and name. -/
  firstFound : List ((Family × String) × Nat)

/-- A session in which nothing has been done. -/
def Session.start (provider : Provider) : Session := ⟨provider, [], []⟩

namespace Session

/-- Fills a slot, and releases what was in it. -/
def store (s : Session) (name : String) (item : Item) : Session :=
  let state :=
    match s.slots.get? name with
    | some old => old.release s.provider.state
    | none => s.provider.state
  { s with
    provider := { s.provider with state }
    slots := s.slots.put name item }

/-- Empties a slot, and releases what was in it. -/
def discard (s : Session) (name : String) : Session :=
  let state :=
    match s.slots.get? name with
    | some old => old.release s.provider.state
    | none => s.provider.state
  { s with
    provider := { s.provider with state }
    slots := s.slots.erase name }

/-- Puts an item in the place of the one it was made of. Nothing is released. -/
def update (s : Session) (name : String) (item : Item) : Session :=
  { s with slots := s.slots.put name item }

end Session
end PooledCrypto
