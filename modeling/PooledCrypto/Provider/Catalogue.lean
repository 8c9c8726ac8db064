import PooledCrypto.Provider.Table

/-!
# Algorithms on demand

A catalogue hands out the instances of the algorithms in a table. An instance is built when it is
first asked for and kept from then on. Whoever asks has to name the family too; an instance of
another family is not given out, but it is kept all the same.

Asking happens in two phases: looking at what is kept (`kept?`), and building what is missing
(`build`). Between the two another caller may have built the instance, so `build` keeps an instance
that is already there.
-/

namespace PooledCrypto.Provider

/-- An instance that was built, with its place in the order of building, from 1 on. -/
structure Instance (φ : Type) (ι : φ → Type) where
  name : String
  family : φ
  serial : Nat
  value : ι family

/-- An algorithm that was handed out, with the serial of its instance. -/
structure Found (α : Type) where
  serial : Nat
  value : α
  deriving DecidableEq, Repr

/-- What is handed out of the instance, if it is of the given family. -/
def Instance.found? {φ : Type} {ι : φ → Type} [DecidableEq φ] (i : Instance φ ι) (f : φ) :
    Option (Found (ι f)) :=
  if h : i.family = f then some ⟨i.serial, h ▸ i.value⟩ else none

/-- A table of algorithms and the instances that were built. -/
structure Catalogue (φ : Type) (ι : φ → Type) where
  /-- The name of the provider that the algorithms are from. -/
  provider : String
  table : Table φ ι
  /-- The instances, in the order in which they were built. -/
  built : List (Instance φ ι)

namespace Catalogue

variable {φ : Type} {ι : φ → Type}

/-- A catalogue of which nothing is built yet. -/
def ofTable (provider : String) (table : Table φ ι) : Catalogue φ ι := ⟨provider, table, []⟩

/-- Whether there is an algorithm of a name. Builds nothing. -/
def supports (c : Catalogue φ ι) (name : String) : Bool := c.table.contains name

/-- The instance of a name, if it is built. -/
def kept? (c : Catalogue φ ι) (name : String) : Option (Instance φ ι) :=
  c.built.find? fun i => i.name == name

/-- Builds the instance of a name unless it is there already. -/
def build (c : Catalogue φ ι) (name : String) : Catalogue φ ι :=
  match c.kept? name with
  | some _ => c
  | none =>
    match c.table.find? name with
    | none => c
    | some entry =>
      let serial := c.built.length + 1
      { c with built := c.built ++ [⟨name, entry.family, serial, entry.build serial⟩] }

/-- The instance of a name, built if need be. -/
def fetch (c : Catalogue φ ι) (name : String) : Option (Instance φ ι) × Catalogue φ ι :=
  match c.kept? name with
  | some i => (some i, c)
  | none =>
    let c := c.build name
    (c.kept? name, c)

/-- The algorithm of a name and a family, if there is one. -/
def lookup? [DecidableEq φ] (c : Catalogue φ ι) (f : φ) (name : String) :
    Option (Found (ι f)) × Catalogue φ ι :=
  let (found, c) := c.fetch name
  (found.bind fun i => i.found? f, c)

/-- The algorithm of a name and a family, or an error if there is none. -/
def lookup [DecidableEq φ] (c : Catalogue φ ι) (f : φ) (name : String) :
    Except Error (Found (ι f)) × Catalogue φ ι :=
  match c.lookup? f name with
  | (some found, c) => (.ok found, c)
  | (none, c) => (.error (.algorithmNotFound name c.provider), c)

/-- Lookups one after the other, as callers make them that all ask at once. -/
def lookupAll? [DecidableEq φ] (f : φ) (name : String) :
    Nat → Catalogue φ ι → List (Option (Found (ι f))) × Catalogue φ ι
  | 0, c => ([], c)
  | callers + 1, c =>
    let (found, c) := c.lookup? f name
    let (others, c) := lookupAll? f name callers c
    (found :: others, c)

end Catalogue
end PooledCrypto.Provider
