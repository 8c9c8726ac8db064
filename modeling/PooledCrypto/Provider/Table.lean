import PooledCrypto.Error

/-!
# Tables of algorithms

A table says which algorithms a provider has, in the order in which they were entered. Each entry
has a name, the family the algorithm belongs to, and a builder for its instance. Names are unique.

What an instance is depends on the family; `ι f` is the type of the instances of family `f`.
-/

namespace PooledCrypto.Provider

/-- An algorithm in a table. -/
structure TableEntry (φ : Type) (ι : φ → Type) where
  name : String
  family : φ
  /-- Builds the instance. The number says how many builders have run so far, this one included. -/
  build : Nat → ι family

/-- The algorithms of a provider, in the order in which they were entered. -/
structure Table (φ : Type) (ι : φ → Type) where
  entries : List (TableEntry φ ι)

namespace Table

variable {φ : Type} {ι : φ → Type}

/-- A table without algorithms. -/
def empty : Table φ ι := ⟨[]⟩

/-- The entry of a name. -/
def find? (t : Table φ ι) (name : String) : Option (TableEntry φ ι) :=
  t.entries.find? fun e => e.name == name

/-- Whether the table has an algorithm of a name, of whatever family. -/
def contains (t : Table φ ι) (name : String) : Bool := (t.find? name).isSome

/-- The names in order. -/
def names (t : Table φ ι) : List String := t.entries.map (·.name)

/-- Enters an algorithm, unless its name is taken. -/
def register (t : Table φ ι) (entry : TableEntry φ ι) : Except Error (Table φ ι) :=
  if t.contains entry.name then .error (.alreadyExists (.algorithm entry.name))
  else .ok ⟨t.entries ++ [entry]⟩

end Table
end PooledCrypto.Provider
