import PooledCrypto.Bytes.Hex
import PooledCrypto.FileTool.Job

/-!
# Hashing a file

A file is read in pieces through one buffer and hashed piece by piece. What an earlier piece left in
the buffer is not hashed again.
-/

namespace PooledCrypto.FileTool

open Provider (Hasher HashFunction)

/-- Feeds pieces as they are read. A piece goes over the beginning of the buffer, and as much of the
buffer as was read is fed. -/
def feedPieces : List Bytes → Bytes → HashFunction → Except Error Unit × HashFunction
  | [], _, f => (.ok (), f)
  | piece :: rest, buffer, f =>
    let buffer := piece ++ buffer.drop piece.length
    match f.update (buffer.take piece.length) with
    | (.ok (), f) => feedPieces rest buffer f
    | (.error e, f) => (.error e, f)

/-- Hashes what is read in pieces. -/
def hashPieces (h : Hasher) (pieces : List Bytes) : Action Provider.State Bytes := do
  let f ← h.start
  let (fed, f) := feedPieces pieces (Bytes.zeros bufferSize) f
  let (result, f) :=
    match fed with
    | .ok () => f.complete
    | .error e => (.error e, f)
  let (context, _) := f.close
  Action.change fun s => (context.map s.giveBack).getD s
  Action.ofExcept result

variable {m : Type → Type} [Monad m] [FileAccess m]

/-- The pieces of a file to hash. -/
def readPieces (path : String) : Job m (List Bytes) := do
  match ← Job.readFile path with
  | .ok pieces => return pieces
  | .error (.opening f) => Job.expect s!"Failed to open {path}" (.error f)
  | .error (.reading f) => Job.expect s!"Failed to read {path}" (.error f)

/-- Hashes a file. -/
def hashFile (algorithm path : String) : Job m Unit := do
  match Algorithm.digestByName? algorithm with
  | none => Job.fail (.plain s!"Unknown digest: {algorithm}")
  | some name =>
    let kind ← (Job.ask (Provider.get .digest name)).within "Digest unavailable"
    let hasher ← Job.askState (Hasher.factory kind).create
    let pieces ← readPieces path
    let digest ← Job.askState (hashPieces hasher.core pieces)
    Job.print s!"{digest.toHex}  {path}"

end PooledCrypto.FileTool
