/-!
# Command lines

A command line has two levels. Options for the whole tool come first, then a verb, then the options
and the words of that verb. An option is written in full after two hyphens, or as one letter after
one. Letters can be joined in one argument; a value is attached, with or without an equals sign, or
is the next argument, which must not look like an option then.

Arguments are read from left to right. The first one that asks for help or for the version, or that
makes no sense, decides. A value that stands in an argument of its own is checked when the next
option is met or the level ends (`Reading.settle`), and the level of the verb ends first.
-/

namespace PooledCrypto.FileTool

/-- What the tool can do. -/
inductive Verb
  | algorithms
  | hash
  | keygen
  | encrypt
  | decrypt
  deriving DecidableEq, Repr

namespace Verb

/-- Every verb. -/
def all : List Verb := [.algorithms, .hash, .keygen, .encrypt, .decrypt]

/-- The verb as it is written. -/
def name : Verb → String
  | .algorithms => "algorithms"
  | .hash => "hash"
  | .keygen => "keygen"
  | .encrypt => "encrypt"
  | .decrypt => "decrypt"

/-- The verb that is written so. -/
def ofName? (name : String) : Option Verb := all.find? fun v => v.name == name

end Verb

/-- A file to be encrypted or decrypted. -/
structure CipherJob where
  /-- The key in Base64. -/
  key : String
  input : String
  output : String
  /-- Text that is authenticated along with the file. -/
  associated : Option String
  deriving DecidableEq, Repr

/-- What the tool is told to do. -/
inductive Command
  | algorithms
  | hash (algorithm file : String)
  | keygen (bits : Nat)
  | encrypt (job : CipherJob)
  | decrypt (job : CipherJob)
  deriving DecidableEq, Repr

/-- A command line that was understood. -/
structure Invocation where
  verbose : Bool
  /-- How many workers to use, if that is said. -/
  workers : Option Nat
  command : Command
  deriving DecidableEq, Repr

/-- Why no command is carried out. -/
inductive Halt
  /-- The arguments make no sense. -/
  | misuse
  /-- Help is asked for. -/
  | help
  /-- The version is asked for. -/
  | version
  deriving DecidableEq, Repr

/-- What can be set to a value. -/
inductive Setting
  | workers
  | algorithm
  | file
  | bits
  | key
  | input
  | output
  | associated
  deriving DecidableEq, Repr

/-- What can be switched on. -/
inductive Switch
  | verbose
  | help
  | version
  deriving DecidableEq, Repr

/-- An option: a setting or a switch. -/
inductive Choice
  | setting (s : Setting)
  | switch (s : Switch)
  deriving DecidableEq, Repr

namespace Choice

/-- The name in full. A file to hash is given as a plain word and has none. -/
def fullName? : Choice → Option String
  | .setting .workers => some "workers"
  | .setting .algorithm => some "algorithm"
  | .setting .file => none
  | .setting .bits => some "bits"
  | .setting .key => some "key"
  | .setting .input => some "input"
  | .setting .output => some "output"
  | .setting .associated => some "aad"
  | .switch .verbose => some "verbose"
  | .switch .help => some "help"
  | .switch .version => some "version"

/-- The letter. -/
def letter? : Choice → Option Char
  | .setting .workers => some 'w'
  | .setting .algorithm => some 'a'
  | .setting .file => none
  | .setting .bits => some 'b'
  | .setting .key => some 'k'
  | .setting .input => some 'i'
  | .setting .output => some 'o'
  | .setting .associated => none
  | .switch .verbose => some 'v'
  | .switch .help => some 'h'
  | .switch .version => some 'V'

end Choice

/-- A level of the command line: that of the whole tool, or that of a verb. -/
inductive Level
  | top
  | verb (v : Verb)
  deriving DecidableEq, Repr

namespace Level

/-- What can be chosen on a level. The number of workers can be given on each of them. -/
def choices : Level → List Choice
  | .top => [.switch .verbose, .setting .workers, .switch .help, .switch .version]
  | .verb .algorithms => [.setting .workers, .switch .help]
  | .verb .hash => [.setting .algorithm, .setting .workers, .switch .help]
  | .verb .keygen => [.setting .bits, .setting .workers, .switch .help]
  | .verb .encrypt | .verb .decrypt =>
    [.setting .key, .setting .input, .setting .output, .setting .associated, .setting .workers,
      .switch .help]

/-- What a plain word on a level stands for, if anything. -/
def word? : Level → Option Setting
  | .verb .hash => some .file
  | _ => none

/-- The option of a full name. -/
def named? (l : Level) (name : String) : Option Choice :=
  l.choices.find? fun c => c.fullName? == some name

/-- The option of a letter. -/
def lettered? (l : Level) (letter : Char) : Option Choice :=
  l.choices.find? fun c => c.letter? == some letter

end Level

/-- A number below `2 ^ 64` in decimal digits, perhaps after a plus sign. -/
def readCount? (text : String) : Option Nat :=
  let digits :=
    match text.toList with
    | '+' :: rest => rest
    | all => all
  if digits.isEmpty ∨ ¬ digits.all Char.isDigit then none
  else
    let n := digits.foldl (fun n c => n * 10 + (c.toNat - '0'.toNat)) 0
    if n < 1 <<< 64 then some n else none

/-- Whether a setting can have a value. The path of a file must not be empty. -/
def Setting.accepts : Setting → String → Bool
  | .workers, text | .bits, text => (readCount? text).isSome
  | .file, text | .input, text | .output, text => text != ""
  | .algorithm, _ | .key, _ | .associated, _ => true

/-- What was read of a level. -/
structure Reading where
  verbose : Bool
  settings : List (Setting × String)
  /-- The last setting that was met and its value, if it is there, as long as they are unchecked. -/
  pending : Option (Setting × Option String)

namespace Reading

/-- Nothing was read. -/
def empty : Reading := ⟨false, [], none⟩

/-- The value of a setting. -/
def value? (r : Reading) (s : Setting) : Option String :=
  (r.settings.find? fun e => e.1 == s).map (·.2)

/-- The number that is the value of a setting. -/
def count? (r : Reading) (s : Setting) : Option Nat := (r.value? s).bind readCount?

/-- The value of a setting that has to be there. -/
def need (r : Reading) (s : Setting) : Except Halt String :=
  match r.value? s with
  | some value => .ok value
  | none => .error .misuse

/-- Whether the next argument is the value of a setting, unless it looks like an option. -/
def awaitsValue (r : Reading) : Bool :=
  match r.pending with
  | some (_, none) => true
  | _ => false

/-- Checks what is unchecked: a value is there and acceptable, and it is the only one. -/
def settle (r : Reading) : Except Halt Reading :=
  match r.pending with
  | none => .ok r
  | some (_, none) => .error .misuse
  | some (s, some value) =>
    if (r.value? s).isNone ∧ s.accepts value = true then
      .ok ⟨r.verbose, r.settings ++ [(s, value)], none⟩
    else .error .misuse

/-- Takes a setting with the value that is attached to it, if any. -/
def set (r : Reading) (s : Setting) (attached : Option String) : Except Halt Reading := do
  let r ← r.settle
  let r := { r with pending := some (s, attached) }
  match attached with
  | none => return r
  | some _ => r.settle

/-- Takes a switch. -/
def switch (r : Reading) (s : Switch) : Except Halt Reading := do
  let r ← r.settle
  match s with
  | .help => throw .help
  | .version => throw .version
  | .verbose => if r.verbose then throw .misuse else return { r with verbose := true }

/-- Takes an option in full, with what follows its name after an equals sign. -/
def takeFull (l : Level) (r : Reading) (name : String) (attached : Option String) :
    Except Halt Reading :=
  match l.named? name, attached with
  | some (.setting s), _ => r.set s attached
  | some (.switch s), none => r.switch s
  | some (.switch _), some _ => .error .misuse
  | none, _ => .error .misuse

/-- Takes letters. What follows the letter of a setting is its value. -/
def takeLetters (l : Level) : List Char → Reading → Except Halt Reading
  | [], r => .ok r
  | c :: rest, r =>
    match l.lettered? c with
    | some (.switch s) => do
      let r ← r.switch s
      takeLetters l rest r
    | some (.setting s) =>
      match rest with
      | [] => r.set s none
      | '=' :: value => r.set s (some (String.ofList value))
      | value => r.set s (some (String.ofList value))
    | none => .error .misuse

/-- Takes an argument that is no option. -/
def takeWord (l : Level) (r : Reading) (word : String) : Except Halt Reading :=
  match l.word? with
  | some s => do
    let r ← r.settle
    if (r.value? s).isSome then throw .misuse
    return { r with pending := some (s, some word) }
  | none => .error .misuse

end Reading

/-- What an argument looks like. -/
inductive Shape
  /-- Two hyphens: all that follows is words. -/
  | hyphens
  /-- An option in full, with what follows an equals sign. -/
  | full (name : String) (attached : Option String)
  /-- Letters. -/
  | letters (cs : List Char)
  /-- A value or a word. A single hyphen is one. -/
  | word
  deriving DecidableEq, Repr

/-- What an argument looks like. -/
def shapeOf (arg : String) : Shape :=
  match arg.toList with
  | ['-', '-'] => .hyphens
  | '-' :: '-' :: rest =>
    let name := String.ofList (rest.takeWhile fun c => c != '=')
    match rest.dropWhile fun c => c != '=' with
    | [] => .full name none
    | _ :: value => .full name (some (String.ofList value))
  | '-' :: c :: rest => .letters (c :: rest)
  | _ => .word

/-- Where the reading of a level stopped: at its end, or before the arguments that belong to a verb,
which may be the one that asks for help. -/
inductive Stop
  | atEnd
  | beforeVerb (v : Verb) (rest : List String)
  | beforeHelp (rest : List String)

/-- The verb that an argument is. Verbs are looked for on the top level only. -/
def verbAt (l : Level) (arg : String) (rest : List String) : Stop :=
  match l with
  | .verb _ => .atEnd
  | .top =>
    if arg = "help" then .beforeHelp rest
    else
      match Verb.ofName? arg with
      | some v => .beforeVerb v rest
      | none => .atEnd

/-- Takes plain words. -/
def readWords (l : Level) : List String → Reading → Except Halt Reading
  | [], r => .ok r
  | word :: rest, r => do
    let r ← r.takeWord l word
    readWords l rest r

/-- Reads a level. What is unchecked at its end stays so. -/
def readLevel (l : Level) : List String → Reading → Except Halt (Reading × Stop)
  | [], r => .ok (r, .atEnd)
  | arg :: rest, r =>
    let stop := if r.awaitsValue then .atEnd else verbAt l arg rest
    match stop with
    | .beforeVerb .. | .beforeHelp _ => .ok (r, stop)
    | .atEnd =>
      match shapeOf arg with
      | .hyphens => do
        let r ← readWords l rest r
        return (r, .atEnd)
      | .full name attached => do
        let r ← r.takeFull l name attached
        readLevel l rest r
      | .letters cs => do
        let r ← r.takeLetters l cs
        readLevel l rest r
      | .word =>
        match r.pending with
        | some (s, none) => readLevel l rest { r with pending := some (s, some arg) }
        | _ => do
          let r ← r.takeWord l arg
          readLevel l rest r

/-- The digest of a hash unless one is named. -/
def defaultAlgorithm : String := "SHA-256"

/-- The length of a generated key in bits unless one is given. -/
def defaultBits : Nat := 256

/-- The file to encrypt or decrypt. -/
def cipherJob (r : Reading) : Except Halt CipherJob := do
  let key ← r.need .key
  let input ← r.need .input
  let output ← r.need .output
  return ⟨key, input, output, r.value? .associated⟩

/-- The command of a verb with what was read after it. -/
def commandOf (v : Verb) (r : Reading) : Except Halt Command :=
  match v with
  | .algorithms => .ok .algorithms
  | .hash => do
    let file ← r.need .file
    return .hash ((r.value? .algorithm).getD defaultAlgorithm) file
  | .keygen => .ok (.keygen ((r.count? .bits).getD defaultBits))
  | .encrypt => (cipherJob r).map .encrypt
  | .decrypt => (cipherJob r).map .decrypt

/-- The help on a verb, or on the whole tool. -/
def readHelp (rest : List String) : Halt :=
  match rest with
  | [] => .help
  | [v] => if v = "help" ∨ (Verb.ofName? v).isSome then .help else .misuse
  | _ => .misuse

/-- Reads a command line. -/
def readArguments (args : List String) : Except Halt Invocation := do
  let (top, stop) ← readLevel .top args .empty
  match stop with
  | .atEnd => throw .misuse
  | .beforeHelp rest => throw (readHelp rest)
  | .beforeVerb v rest =>
    let (own, _) ← readLevel (.verb v) rest .empty
    let own ← own.settle
    let command ← commandOf v own
    let top ← top.settle
    let workers := (own.count? .workers).or (top.count? .workers)
    return ⟨top.verbose, workers, command⟩

end PooledCrypto.FileTool
