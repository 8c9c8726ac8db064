import PooledCrypto.Bytes.Hex
import PooledCrypto.Json.Fields
import PooledCrypto.Session.Command

/-!
# Scripts of sessions

A session can be driven by a script in JSON. Each step is an object: `do` says what is to be done,
`on` names the slot it is done with, and `as` the slot that keeps the result. A step that is not
understood is no command (`command?`).

Bytes are written as hexadecimal text, or as an object that says how they come about (`recipe?`).
-/

namespace PooledCrypto.Session.Script

open Json.Fields

/-- How bytes come about, for recipes within recipes up to some depth. Of the fields that say how,
the first one in the order below decides. -/
def recipeWithin? : Nat → Json → Option Recipe
  | 0, _ => none
  | depth + 1, j =>
    match j with
    | .string s => (Bytes.ofHex? s).map .plain
    | .object _ =>
      if let some text := field? j "utf8" then
        (asText? text).map fun s => .plain (Bytes.ofText s)
      else if let some bytes := field? j "fill" then do
        return .repeated (← (asText? bytes).bind Bytes.ofHex?) (← nat? j "times")
      else if let some count := field? j "seq" then (asNat? count).map .counting
      else if let some name := field? j "var" then (asText? name).map .slot
      else if let some parts := field? j "cat" then do
        return .concat (← (← asList? parts).mapM (recipeWithin? depth))
      else if let some whole := field? j "cut" then do
        return .cut (← recipeWithin? depth whole) (← orElse j "from" 0 asNat?)
          (← may j "to" asNat?)
      else do
        let whole ← need j "xor" (recipeWithin? depth)
        let mask ← orElse j "mask" 1 asNat?
        return .flip whole (← need j "at" asInt?) (UInt8.ofNat mask)
    | _ => none

/-- No text in JSON nests deeper. -/
def maxDepth : Nat := 128

/-- How bytes come about. -/
def recipe? (j : Json) : Option Recipe := recipeWithin? maxDepth j

/-- Bytes that are in no slot. -/
def bytes? (j : Json) : Option Bytes := (recipe? j).bind fun r => r.bytes?

/-- A family of algorithms. -/
def family? (j : Json) : Option Family :=
  match j with
  | .string "digest" => some .digest
  | .string "hmac" => some .hmac
  | .string "aead" => some .aead
  | .string "ecdsa" => some .ecdsa
  | .string "ecdh" => some .ecdh
  | _ => none

/-- A key format. -/
def format? (j : Json) : Option KeyFormat :=
  (asText? j).bind fun s => KeyFormat.all.find? fun f => f.name == s

/-- A curve. -/
def curve? (j : Json) : Option Curve :=
  (asText? j).bind fun s => Curve.all.find? fun c => c.name == s

/-- A form of signature. -/
def form? (j : Json) : Option Parameters.SignatureForm :=
  (asText? j).map fun s => if s == "Raw" then .raw else .der

/-- A way of asking a factory. -/
def route? (j : Json) : Option Factory.Route :=
  match j with
  | .string "create" => some .create
  | .string "configure" => some .configure
  | .string "clone" => some .configure
  | .string "create_with" => some .createWith
  | .string "with_defaults" => some .withDefaults
  | _ => none

/-- A shape of call: whether it is offloaded. -/
def shape? (j : Json) : Option Provider.Shape :=
  (asBool? j).map fun b => if b then .offloaded else .direct

/-- The import of a key on a curve. -/
def curveKey (step : Json) (use : CurveUse) (isPrivate : Bool) : Option Command := do
  let dest ← may step "as" asText?
  let curve ← orElse step "curve" .p256 curve?
  let format ← orElse step "format" .raw format?
  let key ← need step "key" recipe?
  return if isPrivate then .importPrivate use dest curve format key
    else .importPublic use dest curve format key

/-- The generation of a key pair. -/
def curveGen (step : Json) (use : CurveUse) : Option Command := do
  return .generatePair use (← may step "as_pub" asText?) (← may step "as_priv" asText?)
    (← may step "curve" curve?) (← orElse step "via" .configure route?)
    (← orElse step "async" .direct shape?)

/-- A command on keys. -/
def keyCommand (step : Json) (verb : String) : Option Command := do
  let dest ← may step "as" asText?
  match verb with
  | "hmac_key" =>
    return .importHmac dest (← orElse step "digest" "SHA-256" asText?)
      (← orElse step "format" .raw format?) (← need step "key" recipe?)
  | "hmac_gen" =>
    return .generateHmac dest (← orElse step "via" .configure route?) (← may step "digest" asText?)
      (← may step "key_size" asNat?) (← orElse step "async" .direct shape?)
  | "aead_key" =>
    return .importAead dest (← text? step "id") (← orElse step "format" .raw format?)
      (← need step "key" recipe?)
  | "aead_gen" =>
    return .generateAead dest (← text? step "id") (← orElse step "via" .configure route?)
      (← may step "key_size" asNat?) (← orElse step "async" .direct shape?)
  | "ecdsa_pub" => curveKey step .ecdsa false
  | "ecdsa_priv" => curveKey step .ecdsa true
  | "ecdh_pub" => curveKey step .ecdh false
  | "ecdh_priv" => curveKey step .ecdh true
  | "ecdsa_gen" => curveGen step .ecdsa
  | "ecdh_gen" => curveGen step .ecdh
  | "encode" => return .encode (← text? step "on") (← orElse step "format" .raw format?) dest
  | _ => none

/-- A command that looks around. -/
def lookCommand (step : Json) (verb : String) : Option Command := do
  let dest ← may step "as" asText?
  match verb with
  | "info" => return .info
  | "supports" => return .supports (← text? step "id") (← need step "family" family?)
  | "lookup" =>
    let required ←
      match field? step "mode" with
      | some (.string "get") => some true
      | some (.string "null") => some false
      | none => some true
      | _ => none
    return .lookup (← text? step "id") (← need step "family" family?) required
  | "pools" => return .pools
  | "seed_pool" =>
    let type ←
      match field? step "type" with
      | some (.string "digest") => some Provider.HandleType.digest
      | some (.string "u32") => some Provider.HandleType.number
      | _ => none
    return .seedPool (← text? step "name") type
  | "debug" =>
    if (← text? step "of") == "provider" then return .debugProvider
    else return .debug (← text? step "on")
  | "let" => return .keep dest (← need step "data" recipe?)
  | "eq" => return .equal (← need step "a" recipe?) (← need step "b" recipe?)
  | "drop" => return .drop (← text? step "on")
  | "clone" => return .clone (← text? step "on") dest
  | "executor" => return .executorName (← text? step "on")
  | _ => none

/-- A command that makes an operation. -/
def makeCommand (step : Json) (verb : String) : Option Command := do
  let dest ← may step "as" asText?
  let route ← orElse step "via" .configure route?
  match verb with
  | "hasher" => return .hasher dest (← text? step "id") route
  | "cipher" => return .cipher (← text? step "on") dest route (← may step "tag_size" asNat?)
  | "signer" =>
    return .signer (← text? step "on") dest route (← may step "digest" asText?)
      (← may step "format" form?)
  | "verifier" =>
    return .verifier (← text? step "on") dest route (← may step "digest" asText?)
      (← may step "format" form?)
  | "agreement" => return .agreement (← text? step "on") dest route
  | _ => none

/-- Whose key an agreement is made with. -/
def peerChoice (step : Json) : Option PeerChoice :=
  match field? step "peer", field? step "raw", field? step "refuses" with
  | some (.string name), _, _ => some (.slot name)
  | none, some raw, _ => (recipe? raw).map .raw
  | none, none, some (.string text) => some (.refusing text)
  | _, _, _ => none

/-- Which box is decrypted. -/
def boxChoice (step : Json) : Option BoxChoice :=
  match field? step "box" with
  | some (.string name) => some (.slot name)
  | some parts => do
    return .parts (← need parts "nonce" recipe?) (← need parts "ciphertext" recipe?)
      (← need parts "tag" recipe?)
  | none => none

/-- A command that calls an operation. -/
def callCommand (step : Json) (verb : String) : Option Command := do
  let dest ← may step "as" asText?
  let on ← text? step "on"
  let shape ← orElse step "async" .direct shape?
  match verb with
  | "hash" => return .hash on (← need step "data" recipe?) shape dest
  | "sign" => return .sign on (← need step "data" recipe?) shape dest
  | "verify" =>
    let data ← need step "data" recipe?
    let sig ← need step "sig" recipe?
    if ← flagOr step "or_fail" false then return .verifyOrFail on data sig
    else return .verify on data sig shape
  | "agree" => return .agree on (← peerChoice step) shape dest
  | "sizes" => return .sizes on (← may step "plain" asNat?) (← may step "cipher" asNat?)
  | "encrypt" =>
    return .encrypt on (← need step "data" recipe?) (← may step "nonce" recipe?)
      (← may step "aad" recipe?) shape dest
  | "encrypt_box" =>
    return .encryptBox on (← need step "data" recipe?) (← may step "nonce" recipe?)
      (← may step "aad" recipe?) shape dest
  | "decrypt" =>
    return .decrypt on (← need step "data" recipe?) (← may step "aad" recipe?) shape dest
  | "decrypt_box" =>
    return .decryptBox on (← boxChoice step) (← may step "aad" recipe?) shape dest
  | _ => none

/-- A command on streaming functions. -/
def functionCommand (step : Json) (verb : String) : Option Command := do
  let dest ← may step "as" asText?
  let on ← text? step "on"
  let data := orElse step "data" (.plain []) recipe?
  match verb with
  | "hash_fn" => return .startHashing on dest
  | "sign_fn" => return .startSigning on dest
  | "verify_fn" => return .startVerifying on (← need step "sig" recipe?) dest
  | "encrypt_fn" =>
    return .startEncrypting on (← may step "nonce" recipe?) (← may step "aad" recipe?) dest
  | "decrypt_fn" => return .startDecrypting on (← may step "aad" recipe?) dest
  | "update" => return .update on (← data)
  | "finish" => return .finish on (← data) dest
  | "complete" => return .complete on dest
  | "close" => return .close on
  | "state" => return .stage on
  | "run" =>
    let chunks ← orElse step "chunks" [] asList?
    return .run on (← chunks.mapM recipe?) (← may step "finish" recipe?)
  | _ => none

/-- The command of a step. -/
def command? (step : Json) : Option Command := do
  let verb ← text? step "do"
  (lookCommand step verb).or <| (keyCommand step verb).or <| (makeCommand step verb).or <|
    (callCommand step verb).or (functionCommand step verb)

end PooledCrypto.Session.Script
