import PooledCrypto.Bytes.Basic
import PooledCrypto.Error

/-!
# Files

Commands get at files by `FileAccess`: a file is read in pieces, and is written as a whole.

A `Disk` is files in memory. Its reader may cut what it reads in any way into pieces that are not
empty and not longer than asked for. Writing a file and reading it gives what was written
(`read_write_self`).
-/

namespace PooledCrypto.FileTool

/-- Why a file could not be read. -/
inductive ReadFault
  /-- It could not be opened. -/
  | opening (f : IoFault)
  /-- It was opened, but reading failed. -/
  | reading (f : IoFault)
  deriving DecidableEq, Repr

/-- What is behind it. -/
def ReadFault.fault : ReadFault → IoFault
  | .opening f => f
  | .reading f => f

/-- Ways to get at files. -/
class FileAccess (m : Type → Type) where
  /-- Reads the file of a path in pieces of at most so many bytes. -/
  read : String → Nat → m (Except ReadFault (List Bytes))
  /-- Makes bytes the content of the file of a path. -/
  write : String → Bytes → m (Except IoFault Unit)

/-- A place in the tree of directories: the names that lead there from the top. -/
abbrev Place := List String

/-- What there can be at a place. -/
inductive Node
  | file (content : Bytes)
  | directory
  deriving DecidableEq, Repr

/-- A tree of files and directories. -/
structure Files where
  /-- The directory where paths start that do not start at the top. -/
  here : Place
  nodes : List (Place × Node)

/-- The longest name, in bytes. -/
def maxNameSize : Nat := 255

/-- The longest path, in bytes. -/
def maxPathSize : Nat := 4095

/-- A path: through directories to an entry of the last one, or to that directory itself. -/
structure Path where
  /-- Whether it starts at the top. -/
  absolute : Bool
  directories : List String
  /-- The name of the entry, if the path ends in one. -/
  name : Option String
  /-- Whether a slash follows, so that the entry has to be a directory. -/
  slash : Bool
  deriving DecidableEq, Repr

namespace Path

/-- The names that lead to the directory where a path is: a name, one dot for the same directory, or
two dots for the one above. -/
def ofNames (absolute slash : Bool) (names : List String) : Path :=
  match names.getLast? with
  | none => ⟨absolute, [], none, slash⟩
  | some last =>
    if last = "." ∨ last = ".." then ⟨absolute, names, none, slash⟩
    else ⟨absolute, names.dropLast, some last, slash⟩

/-- Takes a path apart. -/
def ofText (text : String) : Except IoFault Path :=
  if text = "" then .error .noSuchFile
  else if maxPathSize < text.utf8ByteSize then .error .nameTooLong
  else
    let names := (text.splitOn "/").filter fun n => n != ""
    .ok (ofNames (text.startsWith "/") (text.endsWith "/") names)

end Path

/-- What a path leads to. -/
inductive Target
  /-- A directory that is there. -/
  | directory
  /-- An entry of a directory that is there. -/
  | entry (place : Place) (slash : Bool)
  deriving DecidableEq, Repr

namespace Files

/-- No files, and one directory where paths start. -/
def startingAt (here : Place) : Files := ⟨here, [(here, .directory)]⟩

/-- What there is at a place. At the top there is a directory. -/
def node? (f : Files) (place : Place) : Option Node :=
  if place = [] then some .directory
  else (f.nodes.find? fun e => e.1 == place).map (·.2)

/-- Follows names through directories. -/
def descend (f : Files) : List String → Place → Except IoFault Place
  | [], place => .ok place
  | name :: rest, place =>
    if name = "." then descend f rest place
    else if name = ".." then descend f rest place.dropLast
    else if maxNameSize < name.utf8ByteSize then .error .nameTooLong
    else
      match f.node? (place ++ [name]) with
      | some .directory => descend f rest (place ++ [name])
      | some (.file _) => .error .notDirectory
      | none => .error .noSuchFile

/-- What a path leads to. -/
def target (f : Files) (path : String) : Except IoFault Target :=
  match Path.ofText path with
  | .error e => .error e
  | .ok p =>
    match f.descend p.directories (if p.absolute then [] else f.here) with
    | .error e => .error e
    | .ok place =>
      match p.name with
      | none => .ok .directory
      | some name =>
        if maxNameSize < name.utf8ByteSize then .error .nameTooLong
        else .ok (.entry (place ++ [name]) p.slash)

/-- The content of the file of a path. A directory can be opened, but not read. -/
def read (f : Files) (path : String) : Except ReadFault Bytes :=
  match f.target path with
  | .error e => .error (.opening e)
  | .ok .directory => .error (.reading .isDirectory)
  | .ok (.entry place slash) =>
    match f.node? place with
    | none => .error (.opening .noSuchFile)
    | some .directory => .error (.reading .isDirectory)
    | some (.file content) => if slash then .error (.opening .notDirectory) else .ok content

/-- Puts something at a place. -/
def put (f : Files) (place : Place) (node : Node) : Files :=
  { f with nodes := (place, node) :: f.nodes.filter fun e => e.1 != place }

/-- Makes bytes the content of the file of a path. -/
def write (f : Files) (path : String) (content : Bytes) : Except IoFault Files :=
  match f.target path with
  | .error e => .error e
  | .ok .directory => .error .isDirectory
  | .ok (.entry place slash) =>
    if slash ∨ f.node? place = some .directory then .error .isDirectory
    else .ok (f.put place (.file content))

/-- Makes a directory. -/
def makeDirectory (f : Files) (path : String) : Except IoFault Files :=
  match f.target path with
  | .ok (.entry place _) =>
    if f.node? place = none then .ok (f.put place .directory) else .error .isDirectory
  | .ok .directory => .error .isDirectory
  | .error e => .error e

theorem node?_put_self (f : Files) {place : Place} (node : Node) (below : place ≠ []) :
    (f.put place node).node? place = some node := by
  simp [node?, put, below]

theorem node?_put_of_ne (f : Files) {place other : Place} (node : Node) (ne : other ≠ place) :
    (f.put place node).node? other = f.node? other := by
  unfold node? put
  split
  · rfl
  · simp only [List.find?_cons, beq_eq_false_iff_ne.mpr (Ne.symm ne)]
    rw [List.find?_filter]
    congr 2
    funext e
    by_cases same : e.1 = other
    · simp [same, ne]
    · simp [same]

/-- What is put where there is no directory does not change where names lead. -/
theorem descend_put {f : Files} {place : Place} (node : Node)
    (free : f.node? place ≠ some .directory) {names : List String} {start found : Place}
    (h : f.descend names start = .ok found) :
    (f.put place node).descend names start = .ok found := by
  induction names generalizing start with
  | nil => exact h
  | cons name rest ih =>
    unfold descend at h ⊢
    by_cases same : name = "."
    · rw [if_pos same] at h ⊢
      exact ih h
    by_cases above : name = ".."
    · rw [if_neg same, if_pos above] at h ⊢
      exact ih h
    by_cases long : maxNameSize < name.utf8ByteSize
    · rw [if_neg same, if_neg above, if_pos long] at h
      simp at h
    rw [if_neg same, if_neg above, if_neg long] at h ⊢
    split at h
    · rename_i there
      -- the place is no directory, so the way does not lead through it
      have ne : start ++ [name] ≠ place := fun eq => free (eq ▸ there)
      rw [node?_put_of_ne f node ne, there]
      exact ih h
    · simp at h
    · simp at h

theorem target_put {f : Files} {place : Place} (node : Node)
    (free : f.node? place ≠ some .directory) {path : String} {t : Target}
    (h : f.target path = .ok t) : (f.put place node).target path = .ok t := by
  unfold target at h ⊢
  cases parsed : Path.ofText path with
  | error e => simp [parsed] at h
  | ok p =>
    simp only [parsed] at h ⊢
    cases descended : f.descend p.directories (if p.absolute then [] else f.here) with
    | error e => simp [descended] at h
    | ok at_end =>
      have same := descend_put node free descended
      simp only [descended] at h
      rw [show (f.put place node).here = f.here from rfl, same]
      exact h

theorem target_entry_ne_nil {f : Files} {path : String} {place : Place} {slash : Bool}
    (h : f.target path = .ok (.entry place slash)) : place ≠ [] := by
  unfold target at h
  repeat' split at h
  all_goals simp at h
  rw [← h.1]
  simp

/-- Reading gives what was written. -/
theorem read_write_self {f g : Files} {path : String} {content : Bytes}
    (h : f.write path content = .ok g) : g.read path = .ok content := by
  unfold write at h
  split at h
  · simp at h
  · simp at h
  · rename_i place slash leads
    split at h
    · simp at h
    · rename_i writable
      have writable := not_or.mp writable
      obtain rfl := Except.ok.inj h
      have leads' := target_put (.file content) writable.2 leads
      have content' := f.node?_put_self (.file content) (target_entry_ne_nil leads)
      simp [read, leads', content', writable.1]

end Files

/-- Cuts what is read into pieces. -/
structure Reader where
  cut : Nat → Bytes → List Bytes
  flatten_cut : ∀ limit content, 0 < limit → (cut limit content).flatten = content
  length_of_mem_cut : ∀ limit content piece, 0 < limit → piece ∈ cut limit content →
    0 < piece.length ∧ piece.length ≤ limit

/-- The reader that gives as much as it is asked for. -/
def Reader.full : Reader where
  cut := Bytes.pieces
  flatten_cut limit content _ := Bytes.flatten_pieces limit content
  length_of_mem_cut limit content piece positive mem := by
    have bound := Bytes.length_of_mem_pieces mem
    omega

/-- Files in memory. -/
structure Disk where
  files : Files
  reader : Reader

/-- Access to files in memory. A write that fails changes nothing. -/
instance : FileAccess (StateM Disk) where
  read path limit := fun d => ((d.files.read path).map (d.reader.cut limit), d)
  write path content := fun d =>
    match d.files.write path content with
    | .ok files => (.ok (), { d with files })
    | .error e => (.error e, d)

end PooledCrypto.FileTool
