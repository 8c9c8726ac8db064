import PooledCrypto.Algorithm.Name
import PooledCrypto.Error

/-!
# Parameters of operations

Parameters are plain values. An operation is asked for with changes to its default parameters, and
the changed value is checked before it is used; the defaults stay as they are.
-/

namespace PooledCrypto

/-- Types of parameters. -/
class Parameters (π : Type) where
  /-- Gives back a value that is acceptable and refuses any other. -/
  check : π → Except Error π
  /-- What an operation uses unless told otherwise. -/
  defaults : π
  /-- The value as diagnostics show it. -/
  debug : π → String

namespace Parameters

/-- For operations without parameters. -/
inductive Empty
  | empty
  deriving DecidableEq, Repr

/-- For a cipher: the length of its tag in bytes. -/
structure Aead where
  tagSize : Nat
  deriving DecidableEq, Repr

/-- For a cipher key to be generated: its length in bits. -/
structure AeadKey where
  keySize : Nat
  deriving DecidableEq, Repr

/-- For a MAC key to be generated: the digest it is for and its length in bits, that of the digest's
block if none is given. -/
structure HmacKey where
  digest : String
  keySize : Option Nat
  deriving DecidableEq, Repr

/-- For a key pair to be generated: its curve. -/
structure EcKey where
  curve : Curve
  deriving DecidableEq, Repr

/-- How a signature is written. -/
inductive SignatureForm
  /-- Both numbers at full length. -/
  | raw
  /-- A sequence of two integers. -/
  | der
  deriving DecidableEq, Repr

/-- The form's name. -/
def SignatureForm.name : SignatureForm → String
  | .raw => "Raw"
  | .der => "Der"

/-- For signing and verifying: the digest of the message and the form of the signature. -/
structure Ecdsa where
  digest : String
  form : SignatureForm
  deriving DecidableEq, Repr

/-- The shortest tag, in bytes. -/
def minTagSize : Nat := 12

/-- The longest tag, in bytes, which is the usual one. -/
def maxTagSize : Nat := 16

/-- Refuses key lengths that are no positive number of whole bytes. -/
def checkKeySize (bits : Nat) : Except Error Unit :=
  if bits = 0 ∨ bits % 8 ≠ 0 then .error (.invalidInput (.keySize bits)) else .ok ()

/-- A digest's name as diagnostics show it. -/
def digestDebug (name : String) : String :=
  (⟨name⟩ : Algorithm.Id .digest).debug

instance : Parameters Empty where
  check := .ok
  defaults := .empty
  debug _ := "Empty"

instance : Parameters Aead where
  check d :=
    if minTagSize ≤ d.tagSize ∧ d.tagSize ≤ maxTagSize then .ok d
    else .error (.invalidInput (.tagSize d.tagSize))
  defaults := ⟨maxTagSize⟩
  debug p := Text.record "AeadParameters" [("tag_size", toString p.tagSize)]

instance : Parameters AeadKey where
  check d := do
    checkKeySize d.keySize
    return d
  defaults := ⟨256⟩
  debug p := Text.record "AeadKeyParameters" [("key_size", toString p.keySize)]

instance : Parameters HmacKey where
  check d :=
    match d.keySize with
    | some bits => do
      checkKeySize bits
      return d
    | none => .ok d
  defaults := ⟨"SHA-256", none⟩
  debug p := Text.record "HmacKeyParameters"
    [("digest", digestDebug p.digest), ("key_size", Text.optional (p.keySize.map toString))]

instance : Parameters EcKey where
  check := .ok
  defaults := ⟨.p256⟩
  debug p := Text.record "EcKeyParameters" [("curve", p.curve.plainName)]

instance : Parameters Ecdsa where
  check := .ok
  defaults := ⟨"SHA-256", .der⟩
  debug p := Text.record "EcdsaParameters"
    [("digest", digestDebug p.digest), ("format", p.form.name)]

end Parameters
end PooledCrypto
