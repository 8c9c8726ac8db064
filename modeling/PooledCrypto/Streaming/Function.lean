import PooledCrypto.Bytes.Basic
import PooledCrypto.Error

/-!
# Streaming functions

A streaming function is fed in chunks and ended by one final chunk. It holds a backend context for
as long as it lives, which is until it is closed.

* `opened`: takes chunks and the final chunk.
* `finished`: after the final chunk, or after a chunk that the backend refused. It can only be
  closed.
* `closed`: the context is gone, and every call is refused.

No call leads back to `opened`, and a call that is refused reaches no backend.
-/

namespace PooledCrypto.Streaming

/-- The backend side of a streaming function with contexts of type `κ`: what a chunk and what the
final chunk do to a context and give back. -/
class Core (κ : Type) (χ ω : outParam Type) where
  /-- Takes a chunk. -/
  update : κ → Bytes → Except Error χ × κ
  /-- Takes the final chunk and gives the result. -/
  finish : κ → Bytes → Except Error ω × κ

/-- The stages of a streaming function's life. -/
inductive Stage
  | opened
  | finished
  | closed
  deriving DecidableEq, Repr

/-- The stage's name. -/
def Stage.name : Stage → String
  | .opened => "Open"
  | .finished => "Finished"
  | .closed => "Closed"

/-- A streaming function over contexts of type `κ`. -/
structure Function (κ : Type) where
  stage : Stage
  /-- The context, until it is released. -/
  core : Option κ

namespace Function

variable {κ χ ω : Type}

/-- A function that has not been fed anything. -/
def start (core : κ) : Function κ := ⟨.opened, some core⟩

/-- The context, if the function may be fed; else why the call is refused. -/
def ready (f : Function κ) (call : String) : Except Error κ :=
  match f.stage with
  | .opened =>
    match f.core with
    | some core => .ok core
    | none => .error (.usage .closed)
  | .finished => .error (.usage (.finished call))
  | .closed => .error (.usage .closed)

/-- Feeds a chunk. If the backend refuses it the function is finished. -/
def update [Core κ χ ω] (f : Function κ) (chunk : Bytes) : Except Error χ × Function κ :=
  match f.ready "update" with
  | .error e => (.error e, f)
  | .ok core =>
    match Core.update core chunk with
    | (.ok out, core) => (.ok out, ⟨.opened, some core⟩)
    | (.error e, core) => (.error e, ⟨.finished, some core⟩)

/-- Feeds the final chunk. The function is finished whatever the backend says. -/
def finish [Core κ χ ω] (f : Function κ) (chunk : Bytes) : Except Error ω × Function κ :=
  match f.ready "finish" with
  | .error e => (.error e, f)
  | .ok core =>
    let (result, core) := Core.finish core chunk
    (result, ⟨.finished, some core⟩)

/-- Ends the function without a final chunk. -/
def complete [Core κ χ ω] (f : Function κ) : Except Error ω × Function κ := f.finish []

/-- Releases the context. Gives it out the first time and nothing from then on. -/
def close (f : Function κ) : Option κ × Function κ := (f.core, ⟨.closed, none⟩)

/-- Runs a block of calls and closes the function afterwards, whatever the block came to. -/
def run {α : Type} (f : Function κ) (block : Function κ → α × Function κ) :
    α × Option κ × Function κ :=
  let (result, f) := block f
  let (core, f) := f.close
  (result, core, f)

/-- Feeds chunks in order up to the first error, and gives what came out. -/
def updateAll [Core κ χ ω] : List Bytes → Function κ → Except Error (List χ) × Function κ
  | [], f => (.ok [], f)
  | chunk :: rest, f =>
    match f.update chunk with
    | (.error e, f) => (.error e, f)
    | (.ok out, f) =>
      match updateAll rest f with
      | (.error e, f) => (.error e, f)
      | (.ok outs, f) => (.ok (out :: outs), f)

/-- Feeds chunks and a final chunk, up to the first error. -/
def feed [Core κ χ ω] (chunks : List Bytes) (last : Bytes) (f : Function κ) :
    Except Error (List χ × ω) × Function κ :=
  match updateAll chunks f with
  | (.error e, f) => (.error e, f)
  | (.ok outs, f) =>
    let (result, f) := f.finish last
    (result.map fun out => (outs, out), f)

/-- The function as diagnostics show it. -/
def debug (f : Function κ) : String :=
  Text.partialRecord "StreamingFunction" [("state", f.stage.name)]

theorem close_close (f : Function κ) : (f.close.2).close = (none, f.close.2) := rfl

end Function
end PooledCrypto.Streaming
