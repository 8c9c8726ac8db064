import PooledCrypto.Session.Recipe

/-!
# Commands of a session, and what they answer

A command names the slots it works on and the slot that is to keep its result, if any.
-/

namespace PooledCrypto.Session

open Provider
open Factory (Route)

/-- What a key on a curve is for. -/
inductive CurveUse
  | ecdsa
  | ecdh
  deriving DecidableEq, Repr

/-- Whose key an agreement is made with. -/
inductive PeerChoice
  /-- The key in a slot. -/
  | slot (name : String)
  /-- A foreign key with a raw form. -/
  | raw (bytes : Recipe)
  /-- A foreign key that refuses to be exported. -/
  | refusing (text : String)

/-- Which box is decrypted. -/
inductive BoxChoice
  /-- The one in a slot. -/
  | slot (name : String)
  /-- One that is put together. -/
  | parts (nonce ciphertext tag : Recipe)

/-- What can be asked of a session. -/
inductive Command
  /-- What the provider is. -/
  | info
  | supports (name : String) (family : Family)
  /-- Looks an algorithm up, as an error or not if there is none. -/
  | lookup (name : String) (family : Family) (required : Bool)
  /-- The pools that are found by name. -/
  | pools
  /-- Sees to it that a name has a pool of digest contexts that cannot be made, or of numbers. -/
  | seedPool (name : String) (type : HandleType)
  | debugProvider
  | debug (on : String)
  /-- Keeps bytes. -/
  | keep (dest : Option String) (data : Recipe)
  | equal (a b : Recipe)
  | drop (on : String)
  | clone (on : String) (dest : Option String)
  | executorName (on : String)
  | importHmac (dest : Option String) (digest : String) (format : KeyFormat) (key : Recipe)
  | generateHmac (dest : Option String) (route : Route) (digest : Option String)
      (keySize : Option Nat) (shape : Shape)
  | importAead (dest : Option String) (name : String) (format : KeyFormat) (key : Recipe)
  | generateAead (dest : Option String) (name : String) (route : Route) (keySize : Option Nat)
      (shape : Shape)
  | importPublic (use : CurveUse) (dest : Option String) (curve : Curve) (format : KeyFormat)
      (key : Recipe)
  | importPrivate (use : CurveUse) (dest : Option String) (curve : Curve) (format : KeyFormat)
      (key : Recipe)
  | generatePair (use : CurveUse) (toPublic toPrivate : Option String) (curve : Option Curve)
      (route : Route) (shape : Shape)
  | encode (on : String) (format : KeyFormat) (dest : Option String)
  | hasher (dest : Option String) (name : String) (route : Route)
  | cipher (on : String) (dest : Option String) (route : Route) (tagSize : Option Nat)
  | signer (on : String) (dest : Option String) (route : Route) (digest : Option String)
      (form : Option Parameters.SignatureForm)
  | verifier (on : String) (dest : Option String) (route : Route) (digest : Option String)
      (form : Option Parameters.SignatureForm)
  | agreement (on : String) (dest : Option String) (route : Route)
  | hash (on : String) (data : Recipe) (shape : Shape) (dest : Option String)
  | sign (on : String) (data : Recipe) (shape : Shape) (dest : Option String)
  | verify (on : String) (data signature : Recipe) (shape : Shape)
  | verifyOrFail (on : String) (data signature : Recipe)
  | agree (on : String) (peer : PeerChoice) (shape : Shape) (dest : Option String)
  | sizes (on : String) (plaintext ciphertext : Option Nat)
  | encrypt (on : String) (data : Recipe) (nonce associated : Option Recipe) (shape : Shape)
      (dest : Option String)
  | encryptBox (on : String) (data : Recipe) (nonce associated : Option Recipe) (shape : Shape)
      (dest : Option String)
  | decrypt (on : String) (data : Recipe) (associated : Option Recipe) (shape : Shape)
      (dest : Option String)
  | decryptBox (on : String) (box : BoxChoice) (associated : Option Recipe) (shape : Shape)
      (dest : Option String)
  | startHashing (on : String) (dest : Option String)
  | startSigning (on : String) (dest : Option String)
  | startVerifying (on : String) (signature : Recipe) (dest : Option String)
  | startEncrypting (on : String) (nonce associated : Option Recipe) (dest : Option String)
  | startDecrypting (on : String) (associated : Option Recipe) (dest : Option String)
  | update (on : String) (data : Recipe)
  | finish (on : String) (data : Recipe) (dest : Option String)
  | complete (on : String) (dest : Option String)
  | close (on : String)
  | stage (on : String)
  /-- Takes a streaming function out of its slot, feeds it to its end, and releases it. -/
  | run (on : String) (chunks : List Recipe) (last : Option Recipe)

/-- The recipes of a box. -/
def BoxChoice.recipes : BoxChoice → List Recipe
  | .slot _ => []
  | .parts nonce ciphertext tag => [nonce, ciphertext, tag]

/-- The recipes that are followed when a command is carried out. -/
def Command.recipes : Command → List Recipe
  | .keep _ data => [data]
  | .equal a b => [a, b]
  | .importHmac _ _ _ key => [key]
  | .importAead _ _ _ key => [key]
  | .importPublic _ _ _ _ key => [key]
  | .importPrivate _ _ _ _ key => [key]
  | .hash _ data _ _ => [data]
  | .sign _ data _ _ => [data]
  | .verify _ data signature _ => [data, signature]
  | .verifyOrFail _ data signature => [data, signature]
  | .agree _ (.raw bytes) _ _ => [bytes]
  | .encrypt _ data nonce associated _ _ => data :: (nonce.toList ++ associated.toList)
  | .encryptBox _ data nonce associated _ _ => data :: (nonce.toList ++ associated.toList)
  | .decrypt _ data associated _ _ => data :: associated.toList
  | .decryptBox _ box associated _ _ => box.recipes ++ associated.toList
  | .startVerifying _ signature _ => [signature]
  | .startEncrypting _ nonce associated _ => nonce.toList ++ associated.toList
  | .startDecrypting _ associated _ => associated.toList
  | .update _ data => [data]
  | .finish _ data _ => [data]
  | .run _ chunks last => chunks ++ last.toList
  | _ => []

/-- Whether there is room for all bytes that a command asks for. -/
def Command.fits (c : Command) : Bool := Recipe.allFit c.recipes

/-- What a command gives. -/
inductive Value
  | nothing
  | flag (b : Bool)
  | text (s : String)
  | data (d : Datum)
  /-- Bytes that depend on drawn randomness, even in their number. -/
  | unpredictable
  | box (b : Aead.Box) (drawn : Bool)
  | provider (name executor : String) (algorithms : List String)
  /-- An algorithm, and whether it is the instance that was found first; or none. -/
  | found (sameAsFirst : Option Bool)
  /-- The pools in order of their names, with their idle contexts if they hold contexts. -/
  | pools (idle : List (String × Option Nat))
  | pool (name : String) (idle : Nat)
  | hmacKey (digest : String)
  | generatedHmacKey (digest : String) (bytes : Nat)
  | keyBits (bits : Nat)
  | curve (name : String)
  | digestSize (size : Nat)
  | cipherSizes (nonce tag : Nat)
  | signatureSize (size : Nat)
  | secretSize (size : Nat)
  | textSizes (ciphertext plaintext : Option Nat)

/-- How a command ends. -/
inductive Outcome
  | value (v : Value)
  | failure (f : Failure)
  /-- The command asks for something that is not there; nothing was done. -/
  | refused

/-- The answer to a command. -/
structure Answer where
  outcome : Outcome
  /-- Where the streaming function is that the command worked on. -/
  stage : Option Streaming.Stage

/-- The answer to a command that was not carried out. -/
def Answer.refusal : Answer := ⟨.refused, none⟩

/-- Whether the command unwound. -/
def Answer.unwound (a : Answer) : Bool :=
  match a.outcome with
  | .failure .unwound => true
  | _ => false

end PooledCrypto.Session
