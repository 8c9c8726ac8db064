import PooledCrypto.Curve.P256.Key
import PooledCrypto.Parameters.Basic

/-!
# Forms of ECDSA signatures

A signature is a pair of numbers from 1 on and below the number of points. It is written in one of
two forms: both numbers at full length one after the other, or as a sequence of two integers that
take no more bytes than they need. Each form is read strictly: what is read is just what would be
written.
-/

namespace PooledCrypto.Curve.P256

open Parameters (SignatureForm)

/-- An ECDSA signature. -/
structure Signature where
  r : Nat
  s : Nat
  r_range : 0 < r ∧ r < groupOrder
  s_range : 0 < s ∧ s < groupOrder
  deriving DecidableEq

namespace Signature

/-- The signature of two numbers, if both are in range. -/
def ofPair? (r s : Nat) : Option Signature :=
  if h : (0 < r ∧ r < groupOrder) ∧ 0 < s ∧ s < groupOrder then some ⟨r, s, h.1, h.2⟩ else none

/-- Both numbers at full length. -/
def toRaw (sig : Signature) : Bytes :=
  Bytes.ofNatBE scalarSize sig.r ++ Bytes.ofNatBE scalarSize sig.s

/-- Reads both numbers at full length. -/
def ofRaw? (bytes : Bytes) : Option Signature :=
  if bytes.length = 2 * scalarSize then
    ofPair? (Bytes.toNatBE (bytes.take scalarSize)) (Bytes.toNatBE (bytes.drop scalarSize))
  else none

/-- The fewest bytes that hold a number and a zero bit in front of it. -/
def content (n : Nat) : Bytes :=
  if n = 0 then [0] else Bytes.ofNatBE ((n.log2 + 1) / 8 + 1) n

/-- An integer: a mark, the length of its content, and the content. -/
def integer (n : Nat) : Bytes := 0x02 :: UInt8.ofNat (content n).length :: content n

/-- Reads an integer and gives what follows it. -/
def readInteger? : Bytes → Option (Nat × Bytes)
  | 0x02 :: size :: rest =>
    let found := rest.take size.toNat
    let n := Bytes.toNatBE found
    if found = content n ∧ found.length = size.toNat then some (n, rest.drop size.toNat) else none
  | _ => none

/-- A sequence of two integers. -/
def toDer (sig : Signature) : Bytes :=
  let body := integer sig.r ++ integer sig.s
  0x30 :: UInt8.ofNat body.length :: body

/-- Reads a sequence of two integers. -/
def ofDer? : Bytes → Option Signature
  | 0x30 :: size :: body =>
    if size.toNat = body.length then
      match readInteger? body with
      | none => none
      | some (r, rest) =>
        match readInteger? rest with
        | some (s, []) => ofPair? r s
        | _ => none
    else none
  | _ => none

/-- Writes a signature in a form. -/
def toBytes (form : SignatureForm) (sig : Signature) : Bytes :=
  match form with
  | .raw => sig.toRaw
  | .der => sig.toDer

/-- Reads a signature in a form. -/
def ofBytes? (form : SignatureForm) (bytes : Bytes) : Option Signature :=
  match form with
  | .raw => ofRaw? bytes
  | .der => ofDer? bytes

/-- The largest length of a signature in a form. -/
def maxSize : SignatureForm → Nat
  | .raw => 2 * scalarSize
  | .der => 72

end Signature
end PooledCrypto.Curve.P256
