import PooledCrypto.FileTool.Tool
import Std.Time.DateTime

/-!
# The program

Runs the tool on the files of the system, with a seed that the system draws. Lines and notes go to
the standard output, each note with the time; what went wrong goes to the standard error.
-/

namespace PooledCrypto.FileTool

/-- The fault that the system reports under a code. -/
def faultOfCode (code : UInt32) (details : String) : IoFault :=
  match code.toNat with
  | 2 => .noSuchFile
  | 20 => .notDirectory
  | 21 => .isDirectory
  | 36 => .nameTooLong
  | other => .other s!"{details} (os error {other})"

/-- The fault behind an error of the system. -/
def faultOf (e : IO.Error) : IoFault :=
  match e with
  | .noFileOrDirectory _ code details | .interrupted _ code details => faultOfCode code details
  | .alreadyExists _ code details | .invalidArgument _ code details
  | .permissionDenied _ code details | .resourceExhausted _ code details
  | .inappropriateType _ code details | .noSuchThing _ code details => faultOfCode code details
  | .otherError code details | .resourceBusy code details | .resourceVanished code details
  | .unsupportedOperation code details | .hardwareFault code details
  | .unsatisfiedConstraints code details | .illegalOperation code details
  | .protocolError code details | .timeExpired code details => faultOfCode code details
  | .unexpectedEof | .userError _ => .other (toString e)

/-- Reads an open file to its end. -/
partial def readToEnd (file : IO.FS.Handle) (limit : USize) (pieces : Array Bytes) :
    IO (List Bytes) := do
  let piece ← file.read limit
  if piece.isEmpty then return pieces.toList
  readToEnd file limit (pieces.push piece.toList)

/-- Access to the files of the system. -/
instance : FileAccess IO where
  read path limit := do
    match ← (IO.FS.Handle.mk path .read).toBaseIO with
    | .error e => return .error (.opening (faultOf e))
    | .ok file =>
      match ← (readToEnd file limit.toUSize #[]).toBaseIO with
      | .error e => return .error (.reading (faultOf e))
      | .ok pieces => return .ok pieces
  write path content := do
    match ← (IO.FS.writeBinFile path ⟨content.toArray⟩).toBaseIO with
    | .error e => return .error (faultOf e)
    | .ok () => return .ok ()

/-- A number in decimal digits with zeros in front. -/
def padded (width : Nat) (n : Int) : String :=
  let digits := toString n
  "".pushn '0' (width - digits.length) ++ digits

/-- The present time. -/
def timeText : IO String := do
  let now ← Std.Time.Timestamp.now
  let moment := Std.Time.PlainDateTime.ofWallTime (.ofNanoseconds now.toNanosecondsSinceUnixEpoch)
  let date := moment.date
  let time := moment.time
  let day := "-".intercalate
    [padded 4 date.year, padded 2 date.month.val, padded 2 date.day.val]
  let clock := ":".intercalate
    [padded 2 time.hour.val, padded 2 time.minute.val, padded 2 time.second.val]
  return s!"{day}T{clock}." ++ padded 6 (time.nanosecond.val / 1000) ++ "Z"

/-- Shows a line or a note. -/
def showOutput (out : Output) : IO Unit := do
  match out with
  | .line text => IO.println text
  | .note urgency text =>
    let time ← timeText
    let level := urgency.text
    let space := "".pushn ' ' (5 - level.length)
    IO.println s!"{time} {space}{level} {text}"

/-- The number of processors that pools are made for. -/
def processors : Nat := 4

/-- The threads that are started for workers at most. -/
def threads : Executor.Threads := ⟨1 <<< 15, "Resource temporarily unavailable (os error 11)"⟩

end PooledCrypto.FileTool

/-- Runs the tool. -/
def main (args : List String) : IO UInt32 := do
  let seed ← IO.getRandomBytes 32
  let around := ⟨.seeded seed.toList, PooledCrypto.FileTool.processors, true,
    PooledCrypto.FileTool.threads⟩
  let outcome ← PooledCrypto.FileTool.run around args
  outcome.output.forM PooledCrypto.FileTool.showOutput
  IO.eprint outcome.failure
  return outcome.status.toUInt32
