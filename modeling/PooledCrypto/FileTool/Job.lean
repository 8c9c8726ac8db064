import PooledCrypto.FileTool.Files
import PooledCrypto.FileTool.Report
import PooledCrypto.Provider.Software

/-!
# Jobs

A job is work of the tool. It has a provider to ask, files to read and write, and a place to show
what it did. A job that fails ends with a report; what it did before stays done.
-/

namespace PooledCrypto.FileTool

/-- How a command ends early. -/
inductive Breakdown
  | report (r : Report)
  | unwound
  deriving DecidableEq, Repr

/-- What a command works with: the provider, and what it has shown so far. -/
structure Bench where
  provider : Provider
  output : List Output

/-- How much is read of a file at a time, in bytes. -/
def bufferSize : Nat := 64 * 1024

/-- A command or a part of one, with access to files by `m`. -/
abbrev Job (m : Type → Type) (α : Type) := ExceptT Breakdown (StateT Bench m) α

namespace Job

variable {m : Type → Type} [Monad m] {α : Type}

/-- Ends with a report. -/
def fail (r : Report) : Job m α := throw (.report r)

/-- Shows something. -/
def put (out : Output) : Job m Unit := modify fun b => { b with output := b.output ++ [out] }

/-- Shows a line. -/
def print (text : String) : Job m Unit := put (.line text)

/-- Shows a note. -/
def note (text : String) : Job m Unit := put (.note .info text)

/-- Work on the provider. Some errors are noted before they are reported. -/
def askNoting (noted : Error → Option Output) (work : Action Provider α) : Job m α := do
  let bench ← get
  let (result, provider) := work.runOn bench.provider
  set { bench with provider }
  match result with
  | .ok value => return value
  | .error (.error e) =>
    (noted e).forM put
    fail (.ofError e)
  | .error .unwound => throw .unwound

/-- Work on the provider. -/
def ask (work : Action Provider α) : Job m α := askNoting (fun _ => none) work

/-- A source of randomness that fails is noted where it fails. -/
def sourceNote : Error → Option Output
  | .randomSource why => some (.note .error s!"Secure random source failed: {why}")
  | _ => none

/-- Work on what the provider's operations share. -/
def askState (work : Action Provider.State α) : Job m α :=
  askNoting sourceNote (Provider.onState work)

/-- Puts what a part is about to do before its report, if it fails. -/
def within (headline : String) (job : Job m α) : Job m α :=
  tryCatch job fun b =>
    match b with
    | .report r => fail (r.within headline)
    | .unwound => throw .unwound

/-- Takes a value, or ends with a fault of input or output. -/
def expect (headline : String) (result : Except IoFault α) : Job m α :=
  match result with
  | .ok value => return value
  | .error f => fail ((Report.plain f.text).within headline)

/-- Reads a file in pieces. -/
def readFile [FileAccess m] (path : String) : Job m (Except ReadFault (List Bytes)) := do
  let result : Except ReadFault (List Bytes) ← (FileAccess.read path bufferSize : m _)
  return result

/-- Writes a file. -/
def writeFile [FileAccess m] (path : String) (content : Bytes) : Job m Unit := do
  let result : Except IoFault Unit ← (FileAccess.write path content : m _)
  expect s!"Failed to write {path}" result

end Job

end PooledCrypto.FileTool
