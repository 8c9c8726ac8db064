import PooledCrypto.Bytes.Hex
import PooledCrypto.Json.Basic
import PooledCrypto.Json.Syntax

/-!
# Reading JSON

The reader takes the UTF-8 form of a text from the front and stops at the first fault, which it
reports at the number of bytes taken so far or, where the offending byte was only looked at, one
byte further. Values nest at most 127 deep.

The functions that read values are bounded by `fuel`. Every value takes a byte at least, so as much
fuel as the text has bytes, and some to spare, never runs out.
-/

namespace PooledCrypto.Json

/-- What is left of a text, and how many bytes were taken from its front. -/
structure Cursor where
  rest : Bytes
  index : Nat

/-- A fault noticed at a number of bytes from the front. -/
abbrev Located := Nat × SyntaxFault

/-- The cursor one byte on. -/
def Cursor.advance (c : Cursor) : Cursor := ⟨c.rest.drop 1, c.index + 1⟩

/-- A fault behind the bytes taken. -/
def Cursor.fail {α : Type} (c : Cursor) (fault : SyntaxFault) : Except Located (α × Cursor) :=
  .error (c.index, fault)

/-- A fault at the next byte, if there is one. -/
def Cursor.failAhead {α : Type} (c : Cursor) (fault : SyntaxFault) : Except Located (α × Cursor) :=
  .error (c.index + (if c.rest = [] then 0 else 1), fault)

/-- Whether a byte is a blank between the parts of a text. -/
def isBlankByte (b : UInt8) : Bool := b = 32 || b = 10 || b = 9 || b = 13

/-- Whether a byte is a decimal digit. -/
def isDigitByte (b : UInt8) : Bool := 48 ≤ b && b ≤ 57

/-- Passes over the leading bytes of a kind. -/
def Cursor.skipWhile (c : Cursor) (kind : UInt8 → Bool) : Cursor :=
  let taken := c.rest.takeWhile kind
  ⟨c.rest.drop taken.length, c.index + taken.length⟩

/-- Passes over blanks. -/
def Cursor.skipBlanks (c : Cursor) : Cursor := c.skipWhile isBlankByte

/-- Whether the next byte is a digit. -/
def Cursor.atDigit (c : Cursor) : Bool :=
  match c.rest with
  | b :: _ => isDigitByte b
  | [] => false

/-- Whether the next byte opens an exponent. -/
def Cursor.atExponent (c : Cursor) : Bool :=
  match c.rest with
  | b :: _ => b = 101 || b = 69
  | [] => false

/-- Adds digits to a number for as long as it fits 64 bits. Gives the number and how many digits
were added. -/
def takeFitting : Bytes → Nat → Nat → Nat × Nat
  | [], n, count => (n, count)
  | b :: rest, n, count =>
    let m := n * 10 + (b.toNat - 48)
    if isDigitByte b && m ≤ maxNatural then takeFitting rest m (count + 1) else (n, count)

/-- `x * 10 ^ exponent` in floats, dividing by at most `10 ^ 308` at a time. `none` if the product
is infinite. -/
def scaleFloat : Nat → Float → Int → Option Float
  | 0, x, _ => some x
  | fuel + 1, x, exponent =>
    if exponent.natAbs ≤ 308 then
      let power := Float.ofScientific 1 false exponent.natAbs
      if 0 ≤ exponent then
        let y := x * power
        if y.isInf then none else some y
      else some (x / power)
    else if x == 0 then some x
    else if 0 ≤ exponent then none
    else scaleFloat fuel (x / Float.ofScientific 1 false 308) (exponent + 308)

/-- The float of a significand, an exponent and a sign. -/
def floatNumber (c : Cursor) (positive : Bool) (significand : Nat) (exponent : Int) :
    Except Located (Number × Cursor) :=
  match scaleFloat 8 significand.toUInt64.toFloat exponent with
  | some x => .ok (.decimal (if positive then x else -x), c)
  | none => c.fail .numberOutOfRange

/-- The largest exponent that is counted. -/
def maxExponent : Nat := (1 <<< 31) - 1

/-- Adds digits to an exponent for as long as it can be counted. -/
def takeExponent : Bytes → Nat → Nat → Nat × Nat
  | [], n, count => (n, count)
  | b :: rest, n, count =>
    let m := n * 10 + (b.toNat - 48)
    if isDigitByte b && m ≤ maxExponent then takeExponent rest m (count + 1) else (n, count)

/-- The exponent behind a significand; the cursor stands at its letter. -/
def readExponent (c : Cursor) (positive : Bool) (significand : Nat) (start : Int) :
    Except Located (Number × Cursor) :=
  let c := c.advance
  let (up, c) := match c.rest with
    | 43 :: _ => (true, c.advance)
    | 45 :: _ => (false, c.advance)
    | _ => (true, c)
  match c.rest with
  | [] => c.fail .noValue
  | b :: rest =>
    if !isDigitByte b then c.advance.fail .invalidNumber
    else
      let (exponent, count) := takeExponent rest (b.toNat - 48) 1
      let c : Cursor := ⟨c.rest.drop count, c.index + count⟩
      if c.atDigit then
        if significand ≠ 0 && up then c.advance.fail .numberOutOfRange
        else .ok (.decimal (if positive then 0.0 else -0.0), c.skipWhile isDigitByte)
      else
        let last : Int := maxExponent
        let total := if up then min (start + exponent) last else max (start - exponent) (-last - 1)
        floatNumber c positive significand total

/-- The digits behind the point; the cursor stands at the point. Digits that no longer fit are
passed over. -/
def readFraction (c : Cursor) (positive : Bool) (significand : Nat) (start : Int) :
    Except Located (Number × Cursor) :=
  let c := c.advance
  let (significand, count) := takeFitting c.rest significand 0
  let c : Cursor := ⟨c.rest.drop count, c.index + count⟩
  if count = 0 && !c.atDigit then
    c.failAhead (if c.rest = [] then .noValue else .invalidNumber)
  else
    let c := c.skipWhile isDigitByte
    let exponent := start - count
    if c.atExponent then readExponent c positive significand exponent
    else floatNumber c positive significand exponent

/-- What follows the whole part of a number. -/
def readTail (c : Cursor) (positive : Bool) (significand : Nat) :
    Except Located (Number × Cursor) :=
  match c.rest with
  | 46 :: _ => readFraction c positive significand 0
  | _ =>
    if c.atExponent then readExponent c positive significand 0
    else if positive then .ok (.natural significand, c)
    else if significand = 0 || 1 <<< 63 < significand then
      .ok (.decimal (-significand.toUInt64.toFloat), c)
    else .ok (.negative significand, c)

/-- A whole part too long for 64 bits: the digits that no longer fit only count. -/
def readLongNumber (c : Cursor) (positive : Bool) (significand : Nat) :
    Except Located (Number × Cursor) :=
  let next := c.skipWhile isDigitByte
  let exponent : Int := ((next.index - c.index : Nat) : Int)
  match next.rest with
  | 46 :: _ => readFraction next positive significand exponent
  | _ =>
    if next.atExponent then readExponent next positive significand exponent
    else floatNumber next positive significand exponent

/-- A number; its sign, if any, has been taken. -/
def readNumber (c : Cursor) (positive : Bool) : Except Located (Number × Cursor) :=
  match c.rest with
  | [] => c.fail .noValue
  | 48 :: _ =>
    let c := c.advance
    if c.atDigit then c.failAhead .invalidNumber else readTail c positive 0
  | b :: rest =>
    if !isDigitByte b then c.advance.fail .invalidNumber
    else
      let (significand, count) := takeFitting rest (b.toNat - 48) 1
      let c : Cursor := ⟨c.rest.drop count, c.index + count⟩
      if c.atDigit then readLongNumber c positive significand else readTail c positive significand

/-- Four hexadecimal digits. -/
def readFourHex (c : Cursor) : Except Located (Nat × Cursor) :=
  match c.rest with
  | w :: x :: y :: z :: rest =>
    let next : Cursor := ⟨rest, c.index + 4⟩
    let digit (b : UInt8) : Option Nat := Bytes.hexValue? (Char.ofNat b.toNat)
    match digit w, digit x, digit y, digit z with
    | some a, some b, some c, some d => .ok (((a * 16 + b) * 16 + c) * 16 + d, next)
    | _, _, _, _ => next.fail .invalidEscape
  | _ => Cursor.fail ⟨[], c.index + c.rest.length⟩ .openString

/-- Takes an expected byte inside a surrogate pair. -/
def takeOfPair (c : Cursor) (expected : UInt8) : Except Located (Unit × Cursor) :=
  match c.rest with
  | [] => c.fail .openString
  | b :: _ => if b = expected then .ok ((), c.advance) else c.advance.fail .brokenSurrogatePair

/-- The character of a code point escape; its letter has been taken. -/
def readCodePoint (c : Cursor) : Except Located (Char × Cursor) := do
  let (high, c) ← readFourHex c
  if 0xDC00 ≤ high ∧ high ≤ 0xDFFF then c.fail .loneSurrogate
  else if high < 0xD800 ∨ 0xDBFF < high then return (Char.ofNat high, c)
  else
    let ((), c) ← takeOfPair c 92
    let ((), c) ← takeOfPair c 117
    let (low, c) ← readFourHex c
    if low < 0xDC00 ∨ 0xDFFF < low then c.fail .loneSurrogate
    else return (Char.ofNat ((high - 0xD800) * 1024 + (low - 0xDC00) + 0x10000), c)

/-- The character of an escape; its backslash has been taken. -/
def readEscape (c : Cursor) : Except Located (Char × Cursor) :=
  match c.rest with
  | [] => c.fail .openString
  | b :: _ =>
    let c := c.advance
    if b = 34 then .ok ('"', c)
    else if b = 92 then .ok ('\\', c)
    else if b = 47 then .ok ('/', c)
    else if b = 98 then .ok ('\x08', c)
    else if b = 102 then .ok ('\x0c', c)
    else if b = 110 then .ok ('\n', c)
    else if b = 114 then .ok ('\r', c)
    else if b = 116 then .ok ('\t', c)
    else if b = 117 then readCodePoint c
    else c.fail .invalidEscape

/-- The rest of a string; `acc` holds the UTF-8 bytes so far in reverse. -/
def readStringRest : Nat → Cursor → Bytes → Except Located (String × Cursor)
  | 0, c, _ => c.fail .openString
  | fuel + 1, c, acc =>
    match c.rest with
    | [] => c.fail .openString
    | b :: _ =>
      if b = 34 then
        let text := String.fromUTF8? ⟨acc.reverse.toArray⟩
        .ok (text.getD "", c.advance)
      else if b = 92 then do
        let (char, c) ← readEscape c.advance
        readStringRest fuel c ((Bytes.ofText (String.singleton char)).reverse ++ acc)
      else if b < 32 then c.advance.fail .controlCharacter
      else readStringRest fuel c.advance (b :: acc)

/-- A string; its opening quote has been taken. -/
def readString (c : Cursor) : Except Located (String × Cursor) :=
  readStringRest (c.rest.length + 1) c []

/-- The rest of a word. -/
def readWord {α : Type} (value : α) : Bytes → Cursor → Except Located (α × Cursor)
  | [], c => .ok (value, c)
  | expected :: more, c =>
    match c.rest with
    | [] => c.fail .noValue
    | b :: _ =>
      if b = expected then readWord value more c.advance else c.advance.fail .identExpected

mutual

/-- A value, which may nest `depth` deep. -/
def readValue : Nat → Nat → Cursor → Except Located (Json × Cursor)
  | 0, _, c => c.fail .tooDeep
  | fuel + 1, depth, c =>
    let c := c.skipBlanks
    match c.rest with
    | [] => c.failAhead .noValue
    | b :: _ =>
      if b = 110 then readWord .null (Bytes.ofText "ull") c.advance
      else if b = 116 then readWord (.bool true) (Bytes.ofText "rue") c.advance
      else if b = 102 then readWord (.bool false) (Bytes.ofText "alse") c.advance
      else if b = 45 then do
        let (n, c) ← readNumber c.advance false
        return (.number n, c)
      else if isDigitByte b then do
        let (n, c) ← readNumber c true
        return (.number n, c)
      else if b = 34 then do
        let (s, c) ← readString c.advance
        return (.string s, c)
      else if b = 91 then
        if depth = 0 then c.failAhead .tooDeep
        else do
          let (items, c) ← readItems fuel (depth - 1) c.advance true []
          return (.array items, c)
      else if b = 123 then
        if depth = 0 then c.failAhead .tooDeep
        else do
          let (fields, c) ← readFields fuel (depth - 1) c.advance true []
          return (.object fields, c)
      else c.failAhead .valueExpected

/-- The items of an array up to its closing bracket; `acc` holds those before, in reverse. -/
def readItems : Nat → Nat → Cursor → Bool → List Json → Except Located (List Json × Cursor)
  | 0, _, c, _, _ => c.fail .tooDeep
  | fuel + 1, depth, c, first, acc =>
    let c := c.skipBlanks
    match c.rest with
    | [] => c.failAhead .openList
    | b :: _ =>
      if b = 93 then .ok (acc.reverse, c.advance)
      else if first then do
        let (v, c) ← readValue fuel depth c
        readItems fuel depth c false (v :: acc)
      else if b = 44 then
        let c := c.advance.skipBlanks
        match c.rest with
        | [] => c.failAhead .noValue
        | b :: _ =>
          if b = 93 then c.failAhead .trailingComma
          else do
            let (v, c) ← readValue fuel depth c
            readItems fuel depth c false (v :: acc)
      else c.failAhead .listCommaExpected

/-- The fields of an object up to its closing brace. -/
def readFields : Nat → Nat → Cursor → Bool → List (String × Json) →
    Except Located (List (String × Json) × Cursor)
  | 0, _, c, _, _ => c.fail .tooDeep
  | fuel + 1, depth, c, first, acc =>
    let c := c.skipBlanks
    match c.rest with
    | [] => c.failAhead .openObject
    | b :: _ =>
      if b = 125 then .ok (acc, c.advance)
      else if first then
        if b = 34 then readField fuel depth c.advance acc else c.failAhead .keyNotString
      else if b = 44 then
        let c := c.advance.skipBlanks
        match c.rest with
        | [] => c.failAhead .noValue
        | b :: _ =>
          if b = 34 then readField fuel depth c.advance acc
          else if b = 125 then c.failAhead .trailingComma
          else c.failAhead .keyNotString
      else c.failAhead .objectCommaExpected

/-- A field, whose opening quote has been taken, and the fields behind it. -/
def readField : Nat → Nat → Cursor → List (String × Json) →
    Except Located (List (String × Json) × Cursor)
  | 0, _, c, _ => c.fail .tooDeep
  | fuel + 1, depth, c, acc => do
    let (name, c) ← readString c
    let c := c.skipBlanks
    match c.rest with
    | [] => c.failAhead .openObject
    | b :: _ =>
      if b ≠ 58 then c.failAhead .colonExpected
      else do
        let (v, c) ← readValue fuel depth c.advance
        readFields fuel depth c false (putField name v acc)

end

/-- How deep values may nest. -/
def maxDepth : Nat := 127

/-- The line and column of the byte at `index`. -/
def locate (text : Bytes) (found : Located) : SyntaxError :=
  let before := text.take found.1
  let lastLine := (before.reverse.takeWhile (· ≠ 10)).length
  ⟨found.2, 1 + (before.filter (· = 10)).length, lastLine⟩

/-- Reads a text that holds one value and blanks around it. -/
def parse (text : String) : Except SyntaxError Json :=
  let bytes := Bytes.ofText text
  let read : Except Located Json := do
    let (value, c) ← readValue (4 * bytes.length + 4) maxDepth ⟨bytes, 0⟩
    let c := c.skipBlanks
    match c.rest with
    | [] => return value
    | _ => throw (c.index + 1, .trailingCharacters)
  match read with
  | .ok value => .ok value
  | .error fault => .error (locate bytes fault)

end PooledCrypto.Json
