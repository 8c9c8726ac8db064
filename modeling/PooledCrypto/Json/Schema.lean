import PooledCrypto.Json.Basic
import PooledCrypto.Text.Quoted

/-!
# Taking typed data out of JSON values

A value that does not have the form that is asked for is refused with a `SchemaFault`, which says
what was found and what was expected.
-/

namespace PooledCrypto.Json

/-- Why a value is not of the form that is asked for. -/
inductive SchemaFault
  /-- A value of the wrong type. -/
  | wrongType (found expected : String)
  /-- A value of the right type outside its range. -/
  | wrongValue (found expected : String)
  /-- An array of the wrong length. -/
  | wrongLength (found : Nat) (expected : String)
  /-- A field that is not there. -/
  | missing (field : String)
  /-- A name that is not among the known ones. -/
  | unknownVariant (found : String) (known : List String)
  deriving DecidableEq, Repr

/-- Names between backticks, with what is said before several of them. -/
def oneOf (known : List String) : String :=
  match known with
  | [] => "there are no variants"
  | [a] => s!"expected `{a}`"
  | [a, b] => s!"expected `{a}` or `{b}`"
  | _ => "expected one of " ++ Text.commaSeparated (known.map fun n => s!"`{n}`")

/-- The fault as text. -/
def SchemaFault.text : SchemaFault → String
  | .wrongType found expected => s!"invalid type: {found}, expected {expected}"
  | .wrongValue found expected => s!"invalid value: {found}, expected {expected}"
  | .wrongLength found expected => s!"invalid length {found}, expected {expected}"
  | .missing field => s!"missing field `{field}`"
  | .unknownVariant found known => s!"unknown variant `{found}`, {oneOf known}"

/-- What a value is called in a fault. -/
def kindText : Json → String
  | .null => "null"
  | .bool b => s!"boolean `{b}`"
  | .number n =>
    match n with
    | .decimal _ => s!"floating point `{n.text}`"
    | _ => s!"integer `{n.text}`"
  | .string s => "string " ++ Text.quoted s
  | .array _ => "sequence"
  | .object _ => "map"

/-- Refuses a value as of the wrong type. -/
def wrongType {α : Type} (found : Json) (expected : String) : Except SchemaFault α :=
  .error (.wrongType (kindText found) expected)

/-- A natural number that fits 64 bits, called a `usize` in faults. -/
def asSize (value : Json) : Except SchemaFault Nat :=
  match value with
  | .number (.natural n) => .ok n
  | .number (.negative _) => .error (.wrongValue (kindText value) "usize")
  | _ => wrongType value "usize"

/-- `null` or what `read` takes. -/
def asOptional {α : Type} (read : Json → Except SchemaFault α) (value : Json) :
    Except SchemaFault (Option α) :=
  match value with
  | .null => .ok none
  | _ => (read value).map some

/-- One of some names. -/
def asName {α : Type} (known : List (String × α)) (name : String) : Except SchemaFault α :=
  match known.find? fun k => k.1 == name with
  | some k => .ok k.2
  | none => .error (.unknownVariant name (known.map (·.1)))

/-- One of some plain names: the name itself, or an object with just that key and `null` in it. -/
def asPlainName {α : Type} (known : List (String × α)) (value : Json) : Except SchemaFault α :=
  match value with
  | .string name => asName known name
  | .object [(name, content)] => do
    let found ← asName known name
    match content with
    | .null => return found
    | other => wrongType other "unit"
  | .object _ => .error (.wrongValue "map" "map with a single key")
  | other => wrongType other "string or map"

end PooledCrypto.Json
