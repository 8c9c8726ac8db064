import PooledCrypto.Pool.Basic

/-!
# Pools by name

A directory gives each name one pool, made when the name is first asked for and kept from then on.
The pool holds handles of the type it was first asked for with; asking under another type is an
error and leaves the pool as it is.

Asking happens in two phases, `find?` and `insert`. Between the two another caller may have made the
pool, so `insert` keeps a pool that is already there.
-/

namespace PooledCrypto.Pool

/-- A pool in a directory, with the type of its handles. -/
structure Entry (τ : Type) (carrier : τ → Type) where
  name : String
  type : τ
  pool : Pool (carrier type)

/-- Pools by name, in the order in which they were made. -/
structure Directory (τ : Type) (carrier : τ → Type) where
  /-- How many idle handles each pool keeps at most. -/
  capacity : Nat
  entries : List (Entry τ carrier)

variable {τ : Type} {carrier : τ → Type}

/-- The entry's pool, if its handles are of the given type. -/
def Entry.pool? [DecidableEq τ] (e : Entry τ carrier) (t : τ) : Option (Pool (carrier t)) :=
  if h : e.type = t then some (h ▸ e.pool) else none

namespace Directory

/-- A directory without pools. -/
def empty (capacity : Nat) : Directory τ carrier := ⟨capacity, []⟩

/-- The entry of a name. -/
def find? (d : Directory τ carrier) (name : String) : Option (Entry τ carrier) :=
  d.entries.find? fun e => e.name == name

/-- Makes the pool of a name unless it is there already. -/
def insert (d : Directory τ carrier) (name : String) (t : τ) (handleBytes : Nat)
    (factory : Nat → Except Error (carrier t)) : Except Failure (Directory τ carrier) :=
  match d.find? name with
  | some _ => .ok d
  | none => do
    let pool ← Pool.reserve handleBytes name d.capacity factory
    return { d with entries := d.entries ++ [⟨name, t, pool⟩] }

/-- Whether the pool of a name can be used with handles of a type. -/
def check [DecidableEq τ] (d : Directory τ carrier) (name : String) (t : τ) :
    Except Failure Unit :=
  match d.find? name with
  | some e => if e.type = t then .ok () else .error (.error (.invalidInput (.handleType name)))
  | none => .error (.error (.invalidInput (.handleType name)))

/-- Sees to it that the name has a pool with handles of the type. -/
def getOrCreate [DecidableEq τ] (d : Directory τ carrier) (name : String) (t : τ)
    (handleBytes : Nat) (factory : Nat → Except Error (carrier t)) :
    Except Failure Unit × Directory τ carrier :=
  match d.find? name with
  | some _ => (d.check name t, d)
  | none =>
    match d.insert name t handleBytes factory with
    | .ok d => (d.check name t, d)
    | .error f => (.error f, d)

/-- The pool of a name, if it holds handles of the type. -/
def pool? [DecidableEq τ] (d : Directory τ carrier) (name : String) (t : τ) :
    Option (Pool (carrier t)) :=
  (d.find? name).bind fun e => e.pool? t

/-- Puts a pool in the place of the one of the same name and type. -/
def replace [DecidableEq τ] (d : Directory τ carrier) (name : String) (t : τ)
    (pool : Pool (carrier t)) : Directory τ carrier :=
  { d with
    entries := d.entries.map fun e =>
      if e.name = name ∧ e.type = t then ⟨e.name, t, pool⟩ else e }

/-- The names that have a pool, in the order in which they were made. -/
def names (d : Directory τ carrier) : List String := d.entries.map (·.name)

/-- The directory as diagnostics show it. -/
def debug (d : Directory τ carrier) : String :=
  Text.record "ResourcePools" [("capacity", toString d.capacity),
    ("pools", Text.bracketed (d.names.map Text.quoted))]

end Directory
end PooledCrypto.Pool
