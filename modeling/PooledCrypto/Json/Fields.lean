import PooledCrypto.Json.Basic

/-!
# Fields of JSON objects

Reading typed data out of objects whose fields may be missing. A field that is `null` counts as
missing; one of the wrong type is not overlooked but makes the reading fail.
-/

namespace PooledCrypto.Json.Fields

/-- A field that is there and not null. -/
def field? (j : Json) (name : String) : Option Json :=
  match j.field? name with
  | some .null => none
  | found => found

/-- The text in a string. -/
def asText? : Json → Option String
  | .string s => some s
  | _ => none

/-- The number in a natural number. -/
def asNat? : Json → Option Nat
  | .number (.natural n) => some n
  | _ => none

/-- The number in an integer. -/
def asInt? : Json → Option Int
  | .number (.natural n) => some n
  | .number (.negative n) => some (-(n : Int))
  | _ => none

/-- The truth value in a truth value. -/
def asBool? : Json → Option Bool
  | .bool b => some b
  | _ => none

/-- The items of an array. -/
def asList? : Json → Option (List Json)
  | .array items => some items
  | _ => none

/-- A field that has to be there. -/
def need {α : Type} (j : Json) (name : String) (read : Json → Option α) : Option α :=
  (field? j name).bind read

/-- A field that may be missing. -/
def may {α : Type} (j : Json) (name : String) (read : Json → Option α) : Option (Option α) :=
  match field? j name with
  | none => some none
  | some v => (read v).map some

/-- A field that has a value if it is missing. -/
def orElse {α : Type} (j : Json) (name : String) (absent : α) (read : Json → Option α) :
    Option α :=
  (may j name read).map fun v => v.getD absent

/-- A text that has to be there. -/
def text? (j : Json) (name : String) : Option String := need j name asText?

/-- A natural number that has to be there. -/
def nat? (j : Json) (name : String) : Option Nat := need j name asNat?

/-- A truth value that has a default. -/
def flagOr (j : Json) (name : String) (absent : Bool) : Option Bool := orElse j name absent asBool?

end PooledCrypto.Json.Fields
