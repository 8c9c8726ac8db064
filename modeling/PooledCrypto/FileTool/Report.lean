import PooledCrypto.Error

/-!
# What the tool shows

A run of the tool prints lines and notes, in order, and ends with a status. If it fails there is a
report: what it was about to do, and the causes behind that, the outermost first.
-/

namespace PooledCrypto.FileTool

/-- How much it takes for a note to be shown. -/
inductive Urgency
  /-- It is shown on request only. -/
  | debug
  /-- What was done. -/
  | info
  /-- What did not work, where something else might. -/
  | warn
  /-- What did not work. -/
  | error
  deriving DecidableEq, Repr

/-- The urgency as it stands before a note. -/
def Urgency.text : Urgency → String
  | .debug => "DEBUG"
  | .info => "INFO"
  | .warn => "WARN"
  | .error => "ERROR"

/-- What is shown. -/
inductive Output
  /-- A line of what was asked for. -/
  | line (text : String)
  /-- A note on what was done. -/
  | note (urgency : Urgency) (text : String)
  deriving DecidableEq, Repr

/-- Whether something is shown in a run with or without details. -/
def Output.isShown (verbose : Bool) : Output → Bool
  | .line _ => true
  | .note .debug _ => verbose
  | .note _ _ => true

/-- Why a run failed. -/
structure Report where
  headline : String
  causes : List String
  deriving DecidableEq, Repr

namespace Report

/-- The report of a message with what is behind it. -/
def plain (message : String) : Report := ⟨message, []⟩

/-- The report of an error. -/
def ofError (e : Error) : Report := ⟨e.message, e.cause?.toList⟩

/-- Puts what was about to be done before a report. -/
def within (headline : String) (r : Report) : Report := ⟨headline, r.headline :: r.causes⟩

/-- Causes below each other, with numbers. -/
def numbered : Nat → List String → String
  | _, [] => ""
  | n, cause :: rest => s!"    {n}: {cause}\n" ++ numbered (n + 1) rest

/-- The report as text. Several causes are numbered. -/
def text (r : Report) : String :=
  let causes :=
    match r.causes with
    | [] => ""
    | [cause] => s!"\nCaused by:\n    {cause}\n"
    | several => "\nCaused by:\n" ++ numbered 0 several
  s!"Error: {r.headline}\n" ++ causes

end Report

/-- What a run came to. -/
structure Outcome where
  status : Nat
  output : List Output
  /-- What is shown of a failure. -/
  failure : String
  deriving DecidableEq, Repr

namespace Outcome

/-- The status of a run that did what it was told. -/
def success : Nat := 0

/-- The status of a run that failed. -/
def failed : Nat := 1

/-- The status of a run that was not told anything sensible. -/
def misused : Nat := 2

/-- The status of a run that unwound. -/
def unwound : Nat := 101

/-- The lines that are shown, in order. -/
def lines (o : Outcome) : List String :=
  o.output.filterMap fun out =>
    match out with
    | .line text => some text
    | .note .. => none

/-- The notes that are always shown, in order, each with its urgency. -/
def notes (o : Outcome) : List String :=
  o.output.filterMap fun out =>
    match out with
    | .line _ => none
    | .note .debug _ => none
    | .note urgency text => some s!"{urgency.text} {text}"

end Outcome
end PooledCrypto.FileTool
