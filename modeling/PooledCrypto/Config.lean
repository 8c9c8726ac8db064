import PooledCrypto.Executor.Basic
import PooledCrypto.Json.Schema

/-!
# Configuration of a provider

A configuration says how many idle handles each pool keeps and how work is run. It is read from
JSON: `null` gives the default configuration, and an object gives what its fields say, with the
defaults for what it leaves out. Fields of other names do not matter.

The two fields can also be given as an array, the capacity first; the same holds of an execution
mode, its name first.
-/

namespace PooledCrypto

/-- How a provider runs its work. -/
inductive ExecutionMode
  /-- In the caller's place. -/
  | inPlace
  /-- On threads kept for blocking work. -/
  | blocking
  /-- On a pool of workers. -/
  | workers (threads : Nat)
  deriving DecidableEq, Repr

namespace ExecutionMode

/-- The kinds of execution mode. -/
inductive Kind
  | inPlace
  | blocking
  | workers
  deriving DecidableEq, Repr

/-- The names of the kinds. -/
def kinds : List (String × Kind) :=
  [("inline", .inPlace), ("blocking", .blocking), ("workers", .workers)]

/-- The kind a mode names. -/
def readKind (value : Json) : Except Json.SchemaFault Kind :=
  match value with
  | .string name => Json.asName kinds name
  | other => Json.wrongType other "variant identifier"

/-- Reads a mode from an object: its kind from the field `mode`, and for workers their number from
the field `threads`. -/
def ofFields (value : Json) : Except Json.SchemaFault ExecutionMode := do
  let some named := value.field? "mode" | throw (.missing "mode")
  match ← readKind named with
  | .inPlace => return .inPlace
  | .blocking => return .blocking
  | .workers =>
    let some count := value.field? "threads" | throw (.missing "threads")
    return .workers (← Json.asSize count)

/-- Reads a mode from the items of an array: its kind, and for workers their number. -/
def ofItems (items : List Json) : Except Json.SchemaFault ExecutionMode := do
  let named :: rest := items | throw (.missing "mode")
  match ← readKind named, rest with
  | .inPlace, [] => return .inPlace
  | .blocking, [] => return .blocking
  | .inPlace, _ | .blocking, _ => throw (.wrongLength rest.length "0 elements in sequence")
  | .workers, [] =>
    throw (.wrongLength 0 "struct variant ExecutionMode::Workers with 1 element")
  | .workers, count :: more =>
    let threads ← Json.asSize count
    if more.isEmpty then return .workers threads
    else throw (.wrongLength rest.length "1 element in sequence")

/-- Reads a mode from JSON. -/
def ofJson (value : Json) : Except Json.SchemaFault ExecutionMode :=
  match value with
  | .object _ => ofFields value
  | .array items => ofItems items
  | other => Json.wrongType other "internally tagged enum ExecutionMode"

/-- The mode as JSON. -/
def toJson : ExecutionMode → Json
  | .inPlace => Json.ofFields [("mode", .string "inline")]
  | .blocking => Json.ofFields [("mode", .string "blocking")]
  | .workers threads => Json.ofFields [("mode", .string "workers"), ("threads", Json.nat threads)]

/-- The executor of a mode. Blocking work needs a runtime to run it, and workers need threads. -/
def build (mode : ExecutionMode) (runtime : Bool) (threads : Executor.Threads) :
    Except Error Executor :=
  match mode with
  | .inPlace => .ok .inPlace
  | .blocking => if runtime then .ok ⟨.blocking⟩ else .error (.execution .noRuntime)
  | .workers count => Executor.startWorkers count threads

end ExecutionMode

/-- A provider's configuration. -/
structure Config where
  /-- How many idle handles each pool keeps at most, if that is said. -/
  poolCapacity : Option Nat
  execution : ExecutionMode
  deriving DecidableEq, Repr

namespace Config

/-- The configuration that says nothing. -/
def default : Config := ⟨none, .inPlace⟩

/-- Reads a field, or takes a value in its place if it is not there. -/
def fieldOr {α : Type} (value : Json) (name : String) (absent : α)
    (read : Json → Except Json.SchemaFault α) : Except Json.SchemaFault α :=
  match value.field? name with
  | some found => read found
  | none => .ok absent

/-- Reads a configuration from an object. The fields are read in the order of their names. -/
def ofFields (value : Json) : Except Json.SchemaFault Config := do
  let execution ← fieldOr value "execution" default.execution ExecutionMode.ofJson
  let poolCapacity ←
    fieldOr value "pool_capacity" default.poolCapacity (Json.asOptional Json.asSize)
  return ⟨poolCapacity, execution⟩

/-- Reads a configuration from the items of an array. -/
def ofItems (items : List Json) : Except Json.SchemaFault Config :=
  match items with
  | [] => .ok default
  | capacity :: rest => do
    let poolCapacity ← Json.asOptional Json.asSize capacity
    match rest with
    | [] => return { default with poolCapacity }
    | mode :: more =>
      let execution ← ExecutionMode.ofJson mode
      if more.isEmpty then return ⟨poolCapacity, execution⟩
      else throw (.wrongLength items.length "fewer elements in array")

/-- Reads a configuration from JSON. -/
def ofJson (value : Json) : Except Error Config :=
  let read : Except Json.SchemaFault Config :=
    match value with
    | .null => .ok default
    | .object _ => ofFields value
    | .array items => ofItems items
    | other => Json.wrongType other "struct RuntimeConfig"
  read.mapError fun f => .serialization (.schema f)

/-- The configuration as JSON. -/
def toJson (c : Config) : Json :=
  let capacity :=
    match c.poolCapacity with
    | some n => Json.nat n
    | none => .null
  Json.ofFields [("execution", c.execution.toJson), ("pool_capacity", capacity)]

/-- The capacity of a pool unless one is configured: room for every processor and two callers
more. -/
def defaultCapacity (processors : Nat) : Nat := processors + 2

/-- The capacity that pools get. -/
def effectiveCapacity (c : Config) (processors : Nat) : Nat :=
  c.poolCapacity.getD (defaultCapacity processors)

end Config
end PooledCrypto
