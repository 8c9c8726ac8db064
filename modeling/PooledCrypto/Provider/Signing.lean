import PooledCrypto.Curve.P256.Ecdsa
import PooledCrypto.Provider.Key

/-!
# Signing and verifying

A message is first reduced by a context to a short string: its digest, or its code under a MAC key.
A MAC code is the signature itself; with ECDSA the digest is signed by the private key. Verifying
compares the code, or checks the signature under the public key. A signature that is not even
well-formed does not belong to any message; it is no error.
-/

namespace PooledCrypto.Provider

open Curve (P256.PublicKey P256.PrivateKey P256.Signature)
open Parameters (SignatureForm)

/-- How a signature is made of what a context computes. -/
inductive SigningScheme
  /-- It is the signature. -/
  | mac
  /-- It is signed with a private key. -/
  | ecdsa (key : P256.PrivateKey) (form : SignatureForm)

/-- The signature of what a context computed. -/
def SigningScheme.sign (scheme : SigningScheme) (digest : Bytes) : Except Error Bytes :=
  match scheme with
  | .mac => .ok digest
  | .ecdsa key form => (Curve.P256.sign key digest).map fun sig => sig.toBytes form

/-- How a signature is checked against what a context computes. -/
inductive VerifyingScheme
  /-- It has to be the signature. -/
  | mac
  /-- The signature is checked with a public key. -/
  | ecdsa (key : P256.PublicKey) (form : SignatureForm)

/-- Whether a signature belongs to what a context computed. -/
def VerifyingScheme.verify (scheme : VerifyingScheme) (digest signature : Bytes) : Bool :=
  match scheme with
  | .mac => digest == signature
  | .ecdsa key form =>
    match P256.Signature.ofBytes? form signature with
    | some sig => Curve.P256.verify key digest sig
    | none => false

/-- Signs messages. -/
structure Signer where
  source : Source
  scheme : SigningScheme
  /-- How long a signature can be in bytes. -/
  signatureSize : Nat

/-- Verifies signatures of messages. -/
structure Verifier where
  source : Source
  scheme : VerifyingScheme

/-- A message that is signed chunk by chunk. -/
structure Signing where
  loan : Loan
  scheme : SigningScheme

/-- A message that is fed chunk by chunk to be compared with a signature. -/
structure Verifying where
  loan : Loan
  scheme : VerifyingScheme
  signature : Bytes

/-- Feeding a message to be signed. -/
instance : Streaming.Core Signing Unit Bytes where
  update c chunk := (.ok (), { c with loan := c.loan.update chunk })
  finish c chunk :=
    let (digest, loan) := (c.loan.update chunk).finish
    (c.scheme.sign digest, { c with loan })

/-- Feeding a message to be verified. -/
instance : Streaming.Core Verifying Unit Bool where
  update c chunk := (.ok (), { c with loan := c.loan.update chunk })
  finish c chunk :=
    let (digest, loan) := (c.loan.update chunk).finish
    (.ok (c.scheme.verify digest c.signature), { c with loan })

/-- A message that is signed chunk by chunk. -/
abbrev SignFunction := Streaming.Function Signing

/-- A message that is verified chunk by chunk. -/
abbrev VerifyFunction := Streaming.Function Verifying

namespace Signer

/-- Signs a message. -/
def sign (s : Signer) (data : Bytes) : Action State Bytes := do
  let digest ← compute s.source data
  Action.ofExcept (s.scheme.sign digest)

/-- Starts signing chunk by chunk. -/
def start (s : Signer) : Action State SignFunction := do
  let loan ← borrow s.source
  return .start ⟨loan, s.scheme⟩

/-- Makes signers with a MAC key. -/
def ofHmacKey (key : HmacKey) : Factory State Parameters.Empty (Operation Signer) where
  defaults := Parameters.defaults
  construct _ := Operation.make ⟨.mac key.pool, .mac, key.digest.outputSize⟩

/-- Makes signers with a private key. -/
def ofPrivateKey (key : P256.PrivateKey) :
    Factory State Parameters.Ecdsa (Operation Signer) where
  defaults := Parameters.defaults
  construct p := do
    let kind ← Action.ofExcept (requireSha2 Algorithm.ecdsa p.digest)
    openDigestPool kind
    Operation.make ⟨.digest kind, .ecdsa key p.form, P256.Signature.maxSize p.form⟩

end Signer

namespace Verifier

/-- Whether a signature belongs to a message. -/
def verify (v : Verifier) (data signature : Bytes) : Action State Bool := do
  let digest ← compute v.source data
  return v.scheme.verify digest signature

/-- Fails unless a signature belongs to a message. -/
def verifyOrFail (v : Verifier) (data signature : Bytes) : Action State Unit := do
  let valid ← v.verify data signature
  if !valid then Action.fail (.crypto (some .signatureMismatch))

/-- Starts verifying chunk by chunk. -/
def start (v : Verifier) (signature : Bytes) : Action State VerifyFunction := do
  let loan ← borrow v.source
  return .start ⟨loan, v.scheme, signature⟩

/-- Makes verifiers with a MAC key. -/
def ofHmacKey (key : HmacKey) : Factory State Parameters.Empty (Operation Verifier) where
  defaults := Parameters.defaults
  construct _ := Operation.make ⟨.mac key.pool, .mac⟩

/-- Makes verifiers with a public key. -/
def ofPublicKey (key : P256.PublicKey) :
    Factory State Parameters.Ecdsa (Operation Verifier) where
  defaults := Parameters.defaults
  construct p := do
    let kind ← Action.ofExcept (requireSha2 Algorithm.ecdsa p.digest)
    openDigestPool kind
    Operation.make ⟨.digest kind, .ecdsa key p.form⟩

end Verifier
end PooledCrypto.Provider
