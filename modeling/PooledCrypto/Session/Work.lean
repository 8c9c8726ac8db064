import PooledCrypto.Session.Command

/-!
# The work of commands

What a command does once its slots are looked up and its bytes are put together. Work that fails
keeps nothing. Feeding a streaming function (`feedChunk`, `feedLast`, `closeFunction`) leaves the
function in its slot; running it to its end (`runFunction`) takes it out.
-/

namespace PooledCrypto.Session

open Provider

/-- Work of a session. -/
abbrev Work := Action Session Value

/-- Work on the state that the provider's operations share. -/
def onState {α : Type} (work : Action State α) : Action Session α := fun s =>
  let (result, state) := work s.provider.state
  (result, { s with provider := { s.provider with state } })

/-- Work on the provider. -/
def onProvider {α : Type} (work : Action Provider α) : Action Session α := fun s =>
  let (result, provider) := work s.provider
  (result, { s with provider })

/-- Keeps an item in a slot, if one is named. -/
def keep (dest : Option String) (item : Item) : Action Session Unit :=
  match dest with
  | some name => Action.change fun s => s.store name item
  | none => Action.change fun s => { s with provider.state := item.release s.provider.state }

/-- Keeps bytes and gives them. -/
def keepData (dest : Option String) (d : Datum) : Work := do
  keep dest (.data d)
  return .data d

/-! ### Looking around -/

/-- Remembers the first instance of an algorithm, and says whether a later one is the same. -/
def noteFound (f : Family) (name : String) (serial : Nat) : Action Session Bool := fun s =>
  match s.firstFound.find? fun e => e.1 == (f, name) with
  | some e => (.ok (e.2 == serial), s)
  | none => (.ok true, { s with firstFound := ((f, name), serial) :: s.firstFound })

/-- Looks an algorithm up. -/
def lookUp (name : String) (f : Family) (required : Bool) : Work := fun s =>
  let (found, s) := onProvider (locate f name) s
  match found with
  | .ok algorithm => (do return .found (some (← noteFound f name algorithm.serial)) : Work) s
  | .error e => if required then (.error e, s) else (.ok (.found none), s)

/-- How many contexts a pool keeps idle, if it holds contexts. -/
def idleContexts (e : Pool.Entry HandleType HandleType.carrier) : Option Nat :=
  (e.pool? .digest).map (·.idle.length)

/-- The pools of a provider in order of their names. -/
def poolList (p : Pools) : List (String × Option Nat) :=
  (p.entries.map fun e => (e.name, idleContexts e)).mergeSort fun a b => decide (a.1 ≤ b.1)

/-- The factory of a pool that was made ahead of its use: contexts cannot be made by it. -/
def seedFactory : (type : HandleType) → Nat → Except Error type.carrier
  | .digest => fun _ => .error (.execution (.other "seeded factory failed"))
  | .number => fun _ => .ok 0
  | .largeNumber => fun _ => .ok 0
  | .text => fun _ => .ok ""

/-- Sees to it that a name has a pool of a type. -/
def seed (name : String) (type : HandleType) : Action State Value := fun s =>
  let (result, pools) := s.pools.getOrCreate name type type.size (seedFactory type)
  let idle := ((pools.pool? name type).map (·.idle.length)).getD 0
  (result.map fun _ => .pool name idle, { s with pools })

/-- A key as diagnostics show it: the factories of its operations. -/
def keyDebug : Provider.Key → Option String
  | .hmac k => some ((Signer.ofHmacKey k).debug ++ " " ++ (Verifier.ofHmacKey k).debug)
  | .aead k => some (cipherFactory k).debug
  | .ecdsaPublic k => some (Verifier.ofPublicKey k).debug
  | .ecdsaPrivate k => some (Signer.ofPrivateKey k).debug
  | .ecdhPublic _ => none
  | .ecdhPrivate k => some (Agreement.factory k).debug

/-- An item as diagnostics show it. -/
def Item.debug : Item → Option String
  | .data _ | .box .. => none
  | .key k _ => keyDebug k
  | .hasher o => some o.debug
  | .cipher o _ => some o.debug
  | .signer o _ => some o.debug
  | .verifier o => some o.debug
  | .agreement o _ => some o.debug
  | .hashing f _ => some f.debug
  | .signing f _ => some f.debug
  | .verifying f => some f.debug
  | .encrypting f _ => some f.debug
  | .decrypting f => some f.debug

/-- The executor of an item that is an operation. -/
def Item.executor? : Item → Option Executor
  | .hasher o => some o.executor
  | .cipher o _ => some o.executor
  | .signer o _ => some o.executor
  | .verifier o => some o.executor
  | .agreement o _ => some o.executor
  | _ => none

/-! ### Keys -/

/-- Keeps a key and gives what is said of it. -/
def keepKey (dest : Option String) (key : Provider.Key) (drawn : Bool) (said : Value) : Work := do
  keep dest (.key key drawn)
  return said

/-- Imports a key of a message authentication code. -/
def importHmac (dest : Option String) (digest : String) (format : KeyFormat) (key : Datum) :
    Work := do
  onProvider (get .hmac Algorithm.hmac)
  let k ← onState (HmacKey.decode digest format key.bytes)
  keepKey dest (.hmac k) key.drawn (.hmacKey k.digest.name)

/-- Generates a key of a message authentication code. -/
def generateHmac (dest : Option String) (route : Factory.Route) (digest : Option String)
    (keySize : Option Nat) (shape : Shape) : Work := do
  onProvider (get .hmac Algorithm.hmac)
  let changes (p : Parameters.HmacKey) : Parameters.HmacKey :=
    ⟨digest.getD p.digest, keySize.or p.keySize⟩
  let k ← onState do
    let generator ← hmacGenerator.make route changes
    generator.call shape generator.core
  keepKey dest (.hmac k) true (.generatedHmacKey k.digest.name k.bytes.length)

/-- Imports a key of an authenticated cipher. -/
def importAead (dest : Option String) (name : String) (format : KeyFormat) (key : Datum) :
    Work := do
  let kind ← onProvider (get .aead name)
  let k ← Action.ofExcept (decodeAeadKey kind format key.bytes)
  keepKey dest (.aead k) key.drawn (.keyBits k.bits)

/-- Generates a key of an authenticated cipher. -/
def generateAead (dest : Option String) (name : String) (route : Factory.Route)
    (keySize : Option Nat) (shape : Shape) : Work := do
  let kind ← onProvider (get .aead name)
  let changes (p : Parameters.AeadKey) : Parameters.AeadKey := ⟨keySize.getD p.keySize⟩
  let k ← onState do
    let generator ← (aeadGenerator kind).make route changes
    generator.call shape generator.core
  keepKey dest (.aead k) true (.keyBits k.bits)

/-- Looks up the algorithm that a key on a curve is for. -/
def lookUpUse (use : CurveUse) : Action Session Unit :=
  match use with
  | .ecdsa => onProvider (get .ecdsa Algorithm.ecdsa)
  | .ecdh => onProvider (get .ecdh Algorithm.ecdh)

/-- A public key for its use. -/
def CurveUse.publicKey (use : CurveUse) (key : Curve.P256.PublicKey) : Provider.Key :=
  match use with
  | .ecdsa => .ecdsaPublic key
  | .ecdh => .ecdhPublic key

/-- A private key for its use. -/
def CurveUse.privateKey (use : CurveUse) (key : Curve.P256.PrivateKey) : Provider.Key :=
  match use with
  | .ecdsa => .ecdsaPrivate key
  | .ecdh => .ecdhPrivate key

/-- Imports a public key. -/
def importPublic (use : CurveUse) (dest : Option String) (curve : Curve) (format : KeyFormat)
    (key : Datum) : Work := do
  lookUpUse use
  let k ← Action.ofExcept (decodePublicKey curve format key.bytes)
  keepKey dest (use.publicKey k) key.drawn (.curve Curve.p256.name)

/-- Imports a private key. -/
def importPrivate (use : CurveUse) (dest : Option String) (curve : Curve) (format : KeyFormat)
    (key : Datum) : Work := do
  lookUpUse use
  let k ← Action.ofExcept (decodePrivateKey curve format key.bytes)
  keepKey dest (use.privateKey k) key.drawn (.curve Curve.p256.name)

/-- Generates a key pair. -/
def generatePair (use : CurveUse) (toPublic toPrivate : Option String) (curve : Option Curve)
    (route : Factory.Route) (shape : Shape) : Work := do
  lookUpUse use
  let changes (p : Parameters.EcKey) : Parameters.EcKey := ⟨curve.getD p.curve⟩
  let pair ← onState do
    let generator ← keyPairGenerator.make route changes
    generator.call shape generator.core
  keep toPublic (.key (use.publicKey pair.publicKey) true)
  keep toPrivate (.key (use.privateKey pair.privateKey) true)
  return .nothing

/-! ### Operations -/

/-- Makes a hasher. -/
def makeHasher (dest : Option String) (name : String) (route : Factory.Route) : Work := do
  let kind ← onProvider (get .digest name)
  let o ← onState ((Hasher.factory kind).make route id)
  keep dest (.hasher o)
  return .digestSize o.core.digestSize

/-- Makes a cipher. -/
def makeCipher (key : Aead.Key) (drawn : Bool) (dest : Option String) (route : Factory.Route)
    (tagSize : Option Nat) : Work := do
  let changes (p : Parameters.Aead) : Parameters.Aead := ⟨tagSize.getD p.tagSize⟩
  let o ← onState ((cipherFactory key).make route changes)
  keep dest (.cipher o drawn)
  return .cipherSizes o.core.nonceSize o.core.tagSize

/-- The changes that are asked for to the parameters of a signature. -/
def signatureChanges (digest : Option String) (form : Option Parameters.SignatureForm)
    (p : Parameters.Ecdsa) : Parameters.Ecdsa :=
  ⟨digest.getD p.digest, form.getD p.form⟩

/-- Keeps a signer. -/
def keepSigner (dest : Option String) (drawn : Bool) (made : Action State (Operation Signer)) :
    Work := do
  let o ← onState made
  keep dest (.signer o drawn)
  return .signatureSize o.core.signatureSize

/-- Keeps a verifier. -/
def keepVerifier (dest : Option String) (made : Action State (Operation Verifier)) : Work := do
  let o ← onState made
  keep dest (.verifier o)
  return .nothing

/-- Makes an agreement. -/
def makeAgreement (key : Curve.P256.PrivateKey) (drawn : Bool) (dest : Option String)
    (route : Factory.Route) : Work := do
  let o ← onState ((Agreement.factory key).make route id)
  keep dest (.agreement o drawn)
  return .secretSize o.core.secretSize

/-- Whether signatures of a scheme vary in length. -/
def variesInLength : SigningScheme → Bool
  | .mac => false
  | .ecdsa _ form => form == .der

/-- A signature as it is given: of a drawn one that varies in length, not even the length. -/
def signatureValue (scheme : SigningScheme) (d : Datum) : Value :=
  if d.drawn && variesInLength scheme then .unpredictable else .data d

/-- How long the texts of a cipher are. -/
def textSizes (c : Aead.Cipher) (plaintext ciphertext : Option Nat) : Except Error Value := do
  let plain ←
    match ciphertext with
    | some n => (c.plaintextSize n).map some
    | none => Except.ok (none : Option Nat)
  return .textSizes (plaintext.map c.ciphertextSize) plain

/-! ### Feeding streaming functions -/

/-- The result of feeding a streaming function, and where the function is afterwards. -/
def fed (outcome : Except Failure Value) (stage : Streaming.Stage) : Answer :=
  match outcome with
  | .ok v => ⟨.value v, some stage⟩
  | .error f => ⟨.failure f, some stage⟩

/-- An error as a failure. -/
def failing {α : Type} (r : Except Error α) : Except Failure α := r.mapError .error

/-- Keeps the bytes that a streaming function gave, if any, and answers. -/
def answerFed (s : Session) (dest : Option String) (result : Except Error Datum)
    (said : Datum → Value) (stage : Streaming.Stage) : Answer × Session :=
  match result with
  | .error e => (fed (.error (.error e)) stage, s)
  | .ok d =>
    let s :=
      match dest with
      | some name => s.store name (.data d)
      | none => s
    (fed (.ok (said d)) stage, s)

/-- Feeds a chunk to the function in a slot. -/
def feedChunk (s : Session) (on : String) (item : Item) (chunk : Datum) :
    Option (Answer × Session) :=
  match item with
  | .hashing f drawn =>
    let (result, f) := f.update chunk.bytes
    some (fed (failing (result.map fun _ => .nothing)) f.stage,
      s.update on (.hashing f (drawn || chunk.drawn)))
  | .signing f drawn =>
    let (result, f) := f.update chunk.bytes
    some (fed (failing (result.map fun _ => .nothing)) f.stage,
      s.update on (.signing f (drawn || chunk.drawn)))
  | .verifying f =>
    let (result, f) := f.update chunk.bytes
    some (fed (failing (result.map fun _ => .nothing)) f.stage, s.update on (.verifying f))
  | .encrypting f drawn =>
    let drawn := drawn || chunk.drawn
    let (result, f) := f.update chunk.bytes
    some (fed (failing (result.map fun out => .data ⟨out, drawn⟩)) f.stage,
      s.update on (.encrypting f drawn))
  | .decrypting f =>
    let (result, f) := f.update chunk.bytes
    some (fed (failing (result.map fun out => .data ⟨out, false⟩)) f.stage,
      s.update on (.decrypting f))
  | _ => none

/-- The scheme of a function that signs, if it still has its context. -/
def schemeOf (f : SignFunction) : SigningScheme :=
  match f.core with
  | some c => c.scheme
  | none => .mac

/-- Feeds the final chunk to the function in a slot. -/
def feedLast (s : Session) (on : String) (item : Item) (last : Datum) (dest : Option String) :
    Option (Answer × Session) :=
  match item with
  | .hashing f drawn =>
    let (result, f) := f.finish last.bytes
    let drawn := drawn || last.drawn
    some (answerFed (s.update on (.hashing f drawn)) dest (result.map fun out => ⟨out, drawn⟩) .data
      f.stage)
  | .signing f drawn =>
    let scheme := schemeOf f
    let (result, f) := f.finish last.bytes
    let drawn := drawn || last.drawn
    some (answerFed (s.update on (.signing f drawn)) dest (result.map fun out => ⟨out, drawn⟩)
      (signatureValue scheme) f.stage)
  | .verifying f =>
    let (result, f) := f.finish last.bytes
    some (fed (failing (result.map .flag)) f.stage, s.update on (.verifying f))
  | .encrypting f drawn =>
    let (result, f) := f.finish last.bytes
    let drawn := drawn || last.drawn
    some (answerFed (s.update on (.encrypting f drawn)) dest (result.map fun out => ⟨out, drawn⟩)
      .data f.stage)
  | .decrypting f =>
    let (result, f) := f.finish last.bytes
    some (answerFed (s.update on (.decrypting f)) dest (result.map fun out => ⟨out, false⟩) .data
      f.stage)
  | _ => none

/-- Closes the function in a slot. What it borrowed goes back the first time. -/
def closeFunction (s : Session) (on : String) (item : Item) : Option (Answer × Session) :=
  let state := item.release s.provider.state
  let s := { s with provider.state := state }
  let closed (item : Item) : Option (Answer × Session) :=
    some (fed (.ok .nothing) .closed, s.update on item)
  match item with
  | .hashing f drawn => closed (.hashing f.close.2 drawn)
  | .signing f drawn => closed (.signing f.close.2 drawn)
  | .verifying f => closed (.verifying f.close.2)
  | .encrypting f drawn => closed (.encrypting f.close.2 drawn)
  | .decrypting f => closed (.decrypting f.close.2)
  | _ => none

/-- Where the function in a slot is. -/
def Item.stage? : Item → Option Streaming.Stage
  | .hashing f _ => some f.stage
  | .signing f _ => some f.stage
  | .verifying f => some f.stage
  | .encrypting f _ => some f.stage
  | .decrypting f => some f.stage
  | _ => none

/-- Feeds chunks and a final chunk to a function, and gives everything that came out. -/
def feedAll (item : Item) (chunks : List Datum) (last : Datum) :
    Option (Except Error Value × Item) :=
  let bytes := chunks.map (·.bytes)
  let drawnIn := last.drawn || chunks.any (·.drawn)
  match item with
  | .hashing f drawn =>
    let (result, f) := f.feed bytes last.bytes
    some (result.map fun out => .data ⟨out.2, drawn || drawnIn⟩, .hashing f drawn)
  | .signing f drawn =>
    let scheme := schemeOf f
    let (result, f) := f.feed bytes last.bytes
    some (result.map fun out => signatureValue scheme ⟨out.2, drawn || drawnIn⟩, .signing f drawn)
  | .verifying f =>
    let (result, f) := f.feed bytes last.bytes
    some (result.map fun out => .flag out.2, .verifying f)
  | .encrypting f drawn =>
    let (result, f) := f.feed bytes last.bytes
    some (result.map fun out => .data ⟨out.1.flatten ++ out.2, drawn || drawnIn⟩,
      .encrypting f drawn)
  | .decrypting f =>
    let (result, f) := f.feed bytes last.bytes
    some (result.map fun out => .data ⟨out.1.flatten ++ out.2, false⟩, .decrypting f)
  | _ => none

/-- Takes the function out of a slot, feeds it to its end, and releases it. -/
def runFunction (s : Session) (on : String) (item : Item) (chunks : List Datum) (last : Datum) :
    Option (Answer × Session) :=
  (feedAll item chunks last).map fun (result, item) =>
    let s := { s with slots := s.slots.erase on }
    let s := { s with provider.state := item.release s.provider.state }
    match result with
    | .ok v => (⟨.value v, none⟩, s)
    | .error e => (⟨.failure (.error e), none⟩, s)

end PooledCrypto.Session
