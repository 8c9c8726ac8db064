import PooledCrypto.Bytes.Hex
import PooledCrypto.Json.Basic
import PooledCrypto.Session.Command

/-!
# Answers as JSON

What a session answers, for readers of scripts: `ok` with the value, or `error` with the kind of
error. Long bytes are shortened to their length, their ends and a checksum; of bytes that depend on
drawn randomness only the number is told.
-/

namespace PooledCrypto.Session.Report

/-- An object. -/
def obj (fields : List (String × Json)) : Json := Json.ofFields fields
/-- A text. -/
def str (s : String) : Json := .string s
/-- A natural number. -/
def nat (n : Nat) : Json := Json.nat n
/-- A list of texts. -/
def texts (l : List String) : Json := .array (l.map .string)
/-- A value. -/
def ok (v : Json) : List (String × Json) := [("ok", v)]
/-- What was asked makes no sense. -/
def badInput : List (String × Json) := [("error", str "BadInput")]

/-- An error; what a blocking thread says of an unwound task is left out. -/
def errorFields (e : Error) : List (String × Json) :=
  let cause :=
    match e.cause? with
    | some text => [("cause", str text)]
    | none => []
  match e with
  | .execution .blockingUnwound => [("error", str e.kindName)]
  | _ => [("error", str e.kindName), ("message", str e.message)] ++ cause

/-- A failure. -/
def failureFields (f : Failure) : List (String × Json) :=
  match f with
  | .error e => errorFields e
  | .unwound => [("error", str "panic")]

/-- A value or an error. -/
def resultFields (r : Except Error Json) : List (String × Json) :=
  match r with
  | .ok v => ok v
  | .error e => errorFields e

/-- A value or a failure. -/
def outcomeFields (r : Except Failure Json) : List (String × Json) :=
  match r with
  | .ok v => ok v
  | .error f => failureFields f

/-- A 64-bit checksum of bytes. -/
def checksum (bytes : Bytes) : UInt64 :=
  bytes.foldl (fun h b => (h ^^^ b.toUInt64) * 0x100000001b3) 0xcbf29ce484222325

/-- Bytes as hexadecimal text, or shortened. -/
def bytesOut (bytes : Bytes) : Json :=
  if bytes.length ≤ 1024 then str bytes.toHex
  else
    let sum := Bytes.ofNatBE 8 (checksum bytes).toNat
    obj [("len", nat bytes.length), ("head", str (Bytes.toHex (bytes.take 32))),
      ("tail", str (Bytes.toHex (bytes.drop (bytes.length - 32)))),
      ("fnv1a64", str (Bytes.toHex sum))]

/-- A box with its parts. -/
def boxOut (b : Aead.Box) : Json :=
  obj [("nonce", bytesOut b.nonce), ("ciphertext", bytesOut b.ciphertext), ("tag", bytesOut b.tag)]

/-- The fields that are there. -/
def optionalFields (fields : List (String × Option Json)) : List (String × Json) :=
  fields.filterMap fun f => f.2.map fun v => (f.1, v)

/-- The value of a command. -/
def valueOut : Value → Json
  | .nothing => .null
  | .flag b => .bool b
  | .text s => str s
  | .data d => if d.drawn then obj [("random", nat d.bytes.length)] else bytesOut d.bytes
  | .unpredictable => obj [("random", .null)]
  | .box b drawn =>
    if drawn then
      obj [("random", .array [nat b.nonce.length, nat b.ciphertext.length, nat b.tag.length])]
    else boxOut b
  | .provider name executor algorithms =>
    obj [("name", str name), ("executor", str executor), ("algorithms", texts algorithms)]
  | .found (some same) => obj [("found", .bool true), ("same", .bool same)]
  | .found none => obj [("found", .bool false)]
  | .pools idle => .array (idle.map fun p => .array [str p.1, (p.2.map nat).getD .null])
  | .pool name idle => obj [("name", str name), ("idle", nat idle)]
  | .hmacKey digest => obj [("digest", str digest)]
  | .generatedHmacKey digest size => obj [("digest", str digest), ("len", nat size)]
  | .keyBits bits => obj [("key_size", nat bits)]
  | .curve name => obj [("curve", str name)]
  | .digestSize size => obj [("algorithm", nat size), ("hasher", nat size)]
  | .cipherSizes nonce tag => obj [("nonce_size", nat nonce), ("tag_size", nat tag)]
  | .signatureSize size => obj [("signature_size", nat size)]
  | .secretSize size => obj [("shared_secret_size", nat size)]
  | .textSizes ciphertext plaintext =>
    obj (optionalFields
      [("ciphertext_size", ciphertext.map nat), ("plaintext_size", plaintext.map nat)])

/-- The answer to a command. -/
def answerOut (a : Answer) : Json :=
  let stage :=
    match a.stage with
    | some stage => [("state", str stage.name)]
    | none => []
  match a.outcome with
  | .value v => obj (ok (valueOut v) ++ stage)
  | .failure f => obj (failureFields f ++ stage)
  | .refused => obj (badInput ++ stage)

end PooledCrypto.Session.Report
