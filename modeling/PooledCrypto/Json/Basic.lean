import PooledCrypto.Decimal.Shortest

/-!
# JSON values

A number is a natural number below `2 ^ 64`, the negative of a number up to `2 ^ 63`, or a float;
which of the three it is depends on how it was written. The fields of an object are kept in the
order of their names, each name once.
-/

namespace PooledCrypto

/-- A JSON number, by the way it was written. -/
inductive Json.Number
  /-- An integer from 0 on that fits 64 bits. -/
  | natural (n : Nat)
  /-- The negative of `n`. -/
  | negative (n : Nat)
  /-- Any other number, as a float. -/
  | decimal (x : Float)

/-- A JSON value. -/
inductive Json
  | null
  | bool (b : Bool)
  | number (n : Json.Number)
  | string (s : String)
  | array (items : List Json)
  | object (fields : List (String × Json))

namespace Json

/-- The largest natural number that is read as an integer. -/
def maxNatural : Nat := (1 <<< 64) - 1

/-- Puts a field into fields ordered by name, in the place of one of the same name. -/
def putField (name : String) (value : Json) : List (String × Json) → List (String × Json)
  | [] => [(name, value)]
  | (n, v) :: rest =>
    if name < n then (name, value) :: (n, v) :: rest
    else if name = n then (name, value) :: rest
    else (n, v) :: putField name value rest

/-- The field of a given name, if the value is an object that has it. -/
def field? (value : Json) (name : String) : Option Json :=
  match value with
  | .object fields => (fields.find? fun f => f.1 == name).map (·.2)
  | _ => none

/-- Floats in texts: positional from `0.00001` up to sixteen digits before the point, beyond that
with a signed exponent. -/
def decimalLayout : Decimal.Layout := ⟨-5, 15, true⟩

/-- A number as text. -/
def Number.text : Number → String
  | .natural n => toString n
  | .negative n => "-" ++ toString n
  | .decimal x => Decimal.floatText decimalLayout x

/-- The object with these fields. -/
def ofFields (fields : List (String × Json)) : Json :=
  .object (fields.foldl (fun acc f => putField f.1 f.2 acc) [])

/-- A natural number as a value. -/
def nat (n : Nat) : Json := .number (.natural n)

end Json
end PooledCrypto
