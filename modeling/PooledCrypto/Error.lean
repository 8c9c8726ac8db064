import PooledCrypto.Curve.Name
import PooledCrypto.Json.Schema
import PooledCrypto.Json.Syntax
import PooledCrypto.Key.Format
import PooledCrypto.Text.Quoted

/-!
# Errors

One type for everything that can go wrong. An error says what kind it is of and, within its kind,
why it arose; the wording is derived from both in one place (`Error.message`).

A cryptographic failure has the same message whatever caused it (`Error.message_crypto`). The cause
is kept beside it for diagnosis only.
-/

namespace PooledCrypto

/-- Which part of an available algorithm is not implemented. -/
inductive Unsupported
  /-- A key format. -/
  | keyEncoding (format : KeyFormat)
  /-- An elliptic curve. -/
  | curve (c : Curve)
  /-- A digest inside another algorithm. -/
  | digest (algorithm digest : String)
  /-- A key length. -/
  | keyBits (algorithm : String) (bits : Nat)
  /-- A tag length. -/
  | tagBytes (algorithm : String) (bytes : Nat)
  /-- Whatever another backend does not implement. -/
  | other (text : String)
  deriving DecidableEq, Repr

/-- Why a cryptographic operation failed. -/
inductive CryptoFault
  /-- The tag does not belong to the ciphertext. -/
  | authentication
  /-- A boxed ciphertext whose nonce or tag has the wrong length. -/
  | malformedBox
  /-- A flat ciphertext with no room for a nonce and a tag. -/
  | tooShort
  /-- A plaintext longer than the cipher can take. -/
  | plaintextRejected
  /-- A signature that does not belong to the message. -/
  | signatureMismatch
  /-- A signature that came out as zero. -/
  | signing
  /-- Whatever made another backend fail. -/
  | other (text : String)
  deriving DecidableEq, Repr

/-- Why an input is not acceptable. -/
inductive InputFault
  /-- A tag length outside the range every cipher shares. -/
  | tagSize (bytes : Nat)
  /-- A key length that is no positive number of whole bytes. -/
  | keySize (bits : Nat)
  /-- A nonce of the wrong length. -/
  | nonceLength (expected found : Nat)
  /-- A flat length too small for a nonce and a tag. -/
  | ciphertextLength (found overhead : Nat)
  /-- An empty MAC key. -/
  | emptyKey
  /-- A key of a length the algorithm does not know. -/
  | keyLength (algorithm : String) (bytes : Nat)
  /-- A key of a length that an engine does not take. -/
  | engineKeyLength (bytes : Nat)
  /-- Bytes that are no public point. -/
  | point
  /-- A private scalar of the wrong length. -/
  | scalarLength (expected found : Nat)
  /-- A private scalar that is zero or not below the group order. -/
  | scalarRange
  /-- A pool asked for under another type of handle than it was made with. -/
  | handleType (pool : String)
  /-- Whatever another backend does not accept. -/
  | other (text : String)
  deriving DecidableEq, Repr

/-- How an interface was misused. -/
inductive UsageFault
  /-- A call on a streaming function that is finished. -/
  | finished (call : String)
  /-- A call on a streaming function that is closed. -/
  | closed
  | other (text : String)
  deriving DecidableEq, Repr

/-- Why work could not be run to its end. -/
inductive ExecutionFault
  /-- Blocking execution was asked for where no runtime is running. -/
  | noRuntime
  /-- A worker could not be started, for the reason that the system gives. -/
  | noThread (why : String)
  /-- The work unwound on a blocking thread. -/
  | blockingUnwound
  /-- The work unwound on a worker. -/
  | workerUnwound
  /-- The work was given up without a result. -/
  | noResult
  | other (text : String)
  deriving DecidableEq, Repr

/-- What was looked for and not found. -/
inductive Absent
  /-- A provider of this name. -/
  | provider (name : String)
  /-- Any provider that can be set up. -/
  | anyProvider
  | other (text : String)
  deriving DecidableEq, Repr

/-- What exists already. -/
inductive Present
  /-- A provider of this name. -/
  | provider (name : String)
  /-- An algorithm of this name. -/
  | algorithm (name : String)
  | other (text : String)
  deriving DecidableEq, Repr

/-- Why data could not be taken from its serialised form. -/
inductive SerialFault
  /-- The text is no JSON. -/
  | grammar (e : Json.SyntaxError)
  /-- The value does not have the form asked for. -/
  | schema (f : Json.SchemaFault)
  | other (text : String)
  deriving DecidableEq, Repr

/-- Why input or output failed. -/
inductive IoFault
  /-- Something is not there, and no more is known. -/
  | missingEntity
  /-- The system has no file of that name. -/
  | noSuchFile
  /-- A file where a directory is needed. -/
  | notDirectory
  /-- A directory where a file is needed. -/
  | isDirectory
  /-- A name longer than the system takes. -/
  | nameTooLong
  | other (text : String)
  deriving DecidableEq, Repr

/-- Everything that can go wrong. -/
inductive Error
  /-- The provider does not have the algorithm. -/
  | algorithmNotFound (id provider : String)
  /-- An algorithm is missing, in another backend's words. -/
  | algorithmMissing (text : String)
  | operationNotSupported (what : Unsupported)
  | crypto (cause : Option CryptoFault)
  | randomSource (text : String)
  | invalidInput (why : InputFault)
  | usage (why : UsageFault)
  | execution (why : ExecutionFault)
  | notFound (what : Absent)
  | alreadyExists (what : Present)
  | serialization (why : SerialFault)
  | io (why : IoFault)
  deriving DecidableEq, Repr

/-- What is not supported, as text. -/
def Unsupported.text : Unsupported → String
  | .keyEncoding format => s!"{format.name} key encoding"
  | .curve c => s!"Curve {c.name}"
  | .digest algorithm name => s!"{algorithm} with {name}"
  | .keyBits algorithm bits => s!"{algorithm} with a {bits}-bit key"
  | .tagBytes algorithm bytes => s!"{algorithm} with a {bytes} byte tag"
  | .other text => text

/-- The cause of a cryptographic failure, as text. -/
def CryptoFault.text : CryptoFault → String
  | .authentication => "authentication failed"
  | .malformedBox => "malformed cipher box"
  | .tooShort => "ciphertext shorter than nonce and tag"
  | .plaintextRejected => "engine rejected plaintext"
  | .signatureMismatch => "signature mismatch"
  | .signing => "ECDSA signing failed"
  | .other text => text

/-- Why an input is refused, as text. -/
def InputFault.text : InputFault → String
  | .tagSize bytes => s!"Tag size must be between 12 and 16 bytes, got {bytes}"
  | .keySize bits => s!"Key size must be a positive multiple of 8 bits, got {bits}"
  | .nonceLength expected found => s!"Nonce must be {expected} bytes, got {found}"
  | .ciphertextLength found overhead =>
    s!"Ciphertext of {found} bytes is shorter than the {overhead} byte overhead"
  | .emptyKey => "HMAC key must not be empty"
  | .keyLength algorithm bytes => s!"Invalid {algorithm} key length: {bytes} bytes"
  | .engineKeyLength bytes => s!"Invalid key length: {bytes} bytes"
  | .point => "Not a P-256 public point"
  | .scalarLength expected found => s!"P-256 private key must be {expected} bytes, got {found}"
  | .scalarRange => "P-256 scalar out of range"
  | .handleType pool => s!"Pool '{pool}' holds a different handle type"
  | .other text => text

/-- A misuse, as text. -/
def UsageFault.text : UsageFault → String
  | .finished call => s!"{call} called on a finished streaming function"
  | .closed => "Streaming function is closed"
  | .other text => text

/-- Why work did not finish, as text. -/
def ExecutionFault.text : ExecutionFault → String
  | .noRuntime => "No Tokio runtime available: there is no reactor running, must be called from " ++
      "the context of a Tokio 1.x runtime"
  | .noThread why => s!"Failed to spawn worker thread: {why}"
  | .blockingUnwound => "Blocking task failed: task panicked"
  | .workerUnwound => "Worker task panicked"
  | .noResult => "Work finished without a result"
  | .other text => text

/-- What is absent, as text. -/
def Absent.text : Absent → String
  | .provider name => s!"Provider '{name}' is not registered"
  | .anyProvider => "No provider is available"
  | .other text => text

/-- What exists already, as text. -/
def Present.text : Present → String
  | .provider name => s!"Provider '{name}' is already registered"
  | .algorithm name => s!"Algorithm '{name}' is already registered"
  | .other text => text

/-- Why reading failed, as text. -/
def SerialFault.text : SerialFault → String
  | .grammar e => e.text
  | .schema f => f.text
  | .other text => text

/-- A fault of input or output, as text. -/
def IoFault.text : IoFault → String
  | .missingEntity => "entity not found"
  | .noSuchFile => "No such file or directory (os error 2)"
  | .notDirectory => "Not a directory (os error 20)"
  | .isDirectory => "Is a directory (os error 21)"
  | .nameTooLong => "File name too long (os error 36)"
  | .other text => text

/-- A fault that the system reports under a code, as diagnostics show it. -/
def systemDebug (code : Nat) (kind message : String) : String :=
  Text.record "Os"
    [("code", toString code), ("kind", kind), ("message", Text.quoted message)]

/-- A fault of input or output, as diagnostics show it. -/
def IoFault.debug : IoFault → String
  | .missingEntity => Text.tuple "Kind" ["NotFound"]
  | .noSuchFile => systemDebug 2 "NotFound" "No such file or directory"
  | .notDirectory => systemDebug 20 "NotADirectory" "Not a directory"
  | .isDirectory => systemDebug 21 "IsADirectory" "Is a directory"
  | .nameTooLong => systemDebug 36 "InvalidFilename" "File name too long"
  | .other text => Text.record "Custom" [("kind", "Other"), ("error", Text.quoted text)]

namespace Error

/-- The name of the error's kind. -/
def kindName : Error → String
  | .algorithmNotFound .. => "AlgorithmNotFound"
  | .algorithmMissing _ => "AlgorithmNotFound"
  | .operationNotSupported _ => "OperationNotSupported"
  | .crypto _ => "Crypto"
  | .randomSource _ => "RandomSource"
  | .invalidInput _ => "InvalidInput"
  | .usage _ => "Usage"
  | .execution _ => "Execution"
  | .notFound _ => "NotFound"
  | .alreadyExists _ => "AlreadyExists"
  | .serialization _ => "Serialization"
  | .io _ => "Io"

/-- What the error says beyond its kind. A cryptographic failure says nothing. -/
def detail : Error → String
  | .algorithmNotFound id provider => s!"{id} is not provided by '{provider}'"
  | .algorithmMissing text => text
  | .operationNotSupported what => what.text
  | .crypto _ => ""
  | .randomSource text => text
  | .invalidInput why => why.text
  | .usage why => why.text
  | .execution why => why.text
  | .notFound what => what.text
  | .alreadyExists what => what.text
  | .serialization why => why.text
  | .io why => why.text

/-- The error in words. -/
def message : Error → String
  | .crypto _ => "Cryptographic operation failed"
  | e@(.algorithmNotFound ..) => "Algorithm not found: " ++ e.detail
  | e@(.algorithmMissing _) => "Algorithm not found: " ++ e.detail
  | e@(.operationNotSupported _) => "Operation not supported: " ++ e.detail
  | e@(.randomSource _) => "Secure random source failed: " ++ e.detail
  | e@(.invalidInput _) => "Invalid input: " ++ e.detail
  | e@(.usage _) => "Usage error: " ++ e.detail
  | e@(.execution _) => "Execution error: " ++ e.detail
  | e@(.notFound _) => "Not found: " ++ e.detail
  | e@(.alreadyExists _) => "Already exists: " ++ e.detail
  | e@(.serialization _) => "Serialization error: " ++ e.detail
  | e@(.io _) => "I/O error: " ++ e.detail

/-- What lies behind the error, where something does. -/
def cause? : Error → Option String
  | .crypto cause => cause.map CryptoFault.text
  | .io why => some why.text
  | _ => none

/-- Whether this is a cryptographic failure. -/
def isCrypto : Error → Bool
  | .crypto _ => true
  | _ => false

/-- The error as diagnostics show it. -/
def debug (e : Error) : String :=
  match e with
  | .crypto cause =>
    let shown := cause.map fun c => Text.tuple "CryptoCause" [Text.quoted c.text]
    Text.tuple e.kindName [Text.optional shown]
  | .io why => Text.tuple e.kindName [why.debug]
  | _ => Text.tuple e.kindName [Text.quoted e.detail]

/-- Every cryptographic failure reads the same. -/
theorem message_crypto (a b : Option CryptoFault) :
    (Error.crypto a).message = (Error.crypto b).message := rfl

/-- The error of a kind given by name, in another backend's words. Without words a cryptographic
failure has no cause, and an unknown kind is one of input and output. -/
def ofKindName (kind text : String) : Error :=
  match kind with
  | "AlgorithmNotFound" => .algorithmMissing text
  | "OperationNotSupported" => .operationNotSupported (.other text)
  | "Crypto" => .crypto (if text = "" then none else some (.other text))
  | "RandomSource" => .randomSource text
  | "InvalidInput" => .invalidInput (.other text)
  | "Usage" => .usage (.other text)
  | "Execution" => .execution (.other text)
  | "NotFound" => .notFound (.other text)
  | "AlreadyExists" => .alreadyExists (.other text)
  | "Serialization" => .serialization (.other text)
  | _ => .io (.other text)

end Error

/-- How a call can end other than with a value: with an error, or by unwinding past the caller. -/
inductive Failure
  | error (e : Error)
  | unwound
  deriving DecidableEq, Repr

end PooledCrypto
