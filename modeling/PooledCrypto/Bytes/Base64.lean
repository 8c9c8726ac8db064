import PooledCrypto.Bytes.Basic

/-!
# Base64

The standard alphabet with mandatory padding. Three bytes make four symbols; a last group of one
or two bytes makes two or three symbols and is filled up with `=`.

Reading is strict: every symbol must belong to the alphabet, padding stands only at the end and
only where the last group needs it, and the bits that the last symbol holds beyond the last byte
must be zero. What is wrong is reported as a `Base64.Fault`, with the place of the first offending
symbol.
-/

namespace PooledCrypto.Base64

/-- Why a text is not Base64. Places count bytes from 0. -/
inductive Fault
  /-- A byte outside the alphabet, or padding where none may stand. -/
  | symbol (byte : UInt8) (offset : Nat)
  /-- The symbols end after the first one of a group. -/
  | length (len : Nat)
  /-- The last symbol has bits that no byte takes. -/
  | lastSymbol (byte : UInt8) (offset : Nat)
  /-- The last group is not filled up. -/
  | padding
  deriving DecidableEq, Repr

/-- The fault as text. -/
def Fault.text : Fault → String
  | .symbol byte offset => s!"Invalid symbol {byte.toNat}, offset {offset}."
  | .length len => s!"Invalid input length: {len}"
  | .lastSymbol byte offset => s!"Invalid last symbol {byte.toNat}, offset {offset}."
  | .padding => "Invalid padding"

/-- The padding symbol. -/
def pad : UInt8 := 61

/-- The symbol for a number below 64. -/
def symbol (n : Nat) : UInt8 :=
  if n < 26 then UInt8.ofNat (65 + n)
  else if n < 52 then UInt8.ofNat (97 + (n - 26))
  else if n < 62 then UInt8.ofNat (48 + (n - 52))
  else if n = 62 then 43
  else 47

/-- The number a symbol stands for. -/
def value? (b : UInt8) : Option Nat :=
  let n := b.toNat
  if 65 ≤ n ∧ n ≤ 90 then some (n - 65)
  else if 97 ≤ n ∧ n ≤ 122 then some (n - 97 + 26)
  else if 48 ≤ n ∧ n ≤ 57 then some (n - 48 + 52)
  else if n = 43 then some 62
  else if n = 47 then some 63
  else none

/-- Writes a byte string. -/
def encode : Bytes → Bytes
  | a :: b :: c :: rest =>
    symbol (a.toNat / 4) :: symbol (a.toNat % 4 * 16 + b.toNat / 16) ::
      symbol (b.toNat % 16 * 4 + c.toNat / 64) :: symbol (c.toNat % 64) :: encode rest
  | [a, b] =>
    [symbol (a.toNat / 4), symbol (a.toNat % 4 * 16 + b.toNat / 16), symbol (b.toNat % 16 * 4), pad]
  | [a] => [symbol (a.toNat / 4), symbol (a.toNat % 4 * 16), pad, pad]
  | [] => []

/-- The value of the symbol at `offset`. -/
def valueAt (byte : UInt8) (offset : Nat) : Except Fault Nat :=
  match value? byte with
  | some n => .ok n
  | none => .error (.symbol byte offset)

/-- The three bytes of a full group of four symbols that starts at `offset`. -/
def decodeGroup (offset : Nat) (w x y z : UInt8) : Except Fault Bytes := do
  let a ← valueAt w offset
  let b ← valueAt x (offset + 1)
  let c ← valueAt y (offset + 2)
  let d ← valueAt z (offset + 3)
  return [UInt8.ofNat (a * 4 + b / 16), UInt8.ofNat (b % 16 * 16 + c / 4),
    UInt8.ofNat (c % 4 * 64 + d)]

/-- The symbols of the last group as numbers, with how many pads follow them. A pad may be neither
first nor second, and nothing but pads may follow one; then the first pad is at fault. -/
def scanLast (offset : Nat) : List UInt8 → Nat → List (UInt8 × Nat) → Nat →
    Except Fault (List (UInt8 × Nat) × Nat)
  | [], _, symbols, pads => .ok (symbols, pads)
  | b :: rest, place, symbols, pads =>
    if b = pad then
      if place < 2 then .error (.symbol b (offset + place))
      else scanLast offset rest (place + 1) symbols (pads + 1)
    else if 0 < pads then .error (.symbol pad (offset + place - pads))
    else
      match value? b with
      | some n => scanLast offset rest (place + 1) (symbols ++ [(b, n)]) pads
      | none => .error (.symbol b (offset + place))

/-- The bytes of the last group, which has at most four symbols and may be padded. -/
def decodeLast (offset : Nat) (group : Bytes) : Except Fault Bytes := do
  let (symbols, pads) ← scanLast offset group 0 [] 0
  match symbols with
  | [] => if group = [] then return [] else throw (.length offset)
  | [_] => throw (.length (offset + 1))
  | [(_, a), (last, b)] =>
    if pads ≠ 2 then throw .padding
    else if b % 16 ≠ 0 then throw (.lastSymbol last (offset + 1))
    else return [UInt8.ofNat (a * 4 + b / 16)]
  | [(_, a), (_, b), (last, c)] =>
    if pads ≠ 1 then throw .padding
    else if c % 4 ≠ 0 then throw (.lastSymbol last (offset + 2))
    else return [UInt8.ofNat (a * 4 + b / 16), UInt8.ofNat (b % 16 * 16 + c / 4)]
  | (_, a) :: (_, b) :: (_, c) :: (_, d) :: _ =>
    return [UInt8.ofNat (a * 4 + b / 16), UInt8.ofNat (b % 16 * 16 + c / 4),
      UInt8.ofNat (c % 4 * 64 + d)]

/-- Reads groups of four symbols; the last group, full or not, may be padded. -/
def decodeGroups (offset : Nat) : Bytes → Except Fault Bytes
  | w :: x :: y :: z :: next :: rest => do
    let bytes ← decodeGroup offset w x y z
    let more ← decodeGroups (offset + 4) (next :: rest)
    return bytes ++ more
  | last => decodeLast offset last

/-- Reads Base64 text. A text one symbol longer than full groups whose last byte is neither a
symbol nor a pad is refused for that byte before anything else is looked at. -/
def decode (text : Bytes) : Except Fault Bytes :=
  match text.getLast? with
  | some last =>
    if text.length % 4 = 1 ∧ last ≠ pad ∧ value? last = none then
      .error (.symbol last (text.length - 1))
    else decodeGroups 0 text
  | none => .ok []

end PooledCrypto.Base64
