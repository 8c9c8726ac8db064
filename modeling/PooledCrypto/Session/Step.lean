import PooledCrypto.Session.Work

/-!
# Carrying out commands

A command is first prepared: its slots are looked up and its bytes are put together. If there is no
room for the bytes the command unwinds (`step_of_not_fits`). If anything is missing the command is
refused and nothing is done (`step_refused`). Otherwise the work is carried out.

A command that unwinds takes the whole session with it: whoever had it carried out gets no answers,
not even those to earlier commands (`answers?`).
-/

namespace PooledCrypto.Session

open Provider

/-- What is done when a command is carried out. -/
abbrev Prepared := Session → Answer × Session

/-- Carries out work that feeds no streaming function. -/
def plainly (work : Work) : Prepared := fun s =>
  match work s with
  | (.ok v, s) => (⟨.value v, none⟩, s)
  | (.error f, s) => (⟨.failure f, none⟩, s)

/-- A command that fails without work. -/
def failed (e : Error) : Prepared := plainly (Action.fail e)

/-- The item in a slot. -/
def item? (s : Session) (name : String) : Option Item := s.slots.get? name

/-- The bytes of a recipe. -/
def data? (s : Session) (r : Recipe) : Option Datum := r.eval s.slots

/-- The bytes of a recipe that may be missing altogether, in which case they are none. -/
def dataOr? (s : Session) (r : Option Recipe) : Option Datum :=
  match r with
  | some r => s.data? r
  | none => some ⟨[], false⟩

/-- The bytes of a recipe that may be missing altogether. -/
def optionalData? (s : Session) (r : Option Recipe) : Option (Option Datum) :=
  match r with
  | some r => (s.data? r).map some
  | none => some none

/-- Whether bytes are drawn or depend on what is. Bytes that are missing will be drawn. -/
def drawnOr (d : Option Datum) : Bool :=
  match d with
  | some d => d.drawn
  | none => true

/-- Encrypts a text. -/
def prepareEncrypt (s : Session) (on : String) (data : Recipe) (nonce associated : Option Recipe)
    (shape : Shape) (keepBox : Aead.Box → Bool → Work) : Option Prepared := do
  let .cipher o drawn ← s.item? on | none
  let data ← s.data? data
  let nonce ← s.optionalData? nonce
  let associated ← s.dataOr? associated
  let drawn := drawn || data.drawn || associated.drawn || drawnOr nonce
  return plainly do
    let box ← onState (o.call shape
      (Enciphering.encryptBox o.core (nonce.map (·.bytes)) associated.bytes data.bytes))
    keepBox box drawn

/-- The parts of a box. -/
def box? (s : Session) (choice : BoxChoice) : Option Aead.Box :=
  match choice with
  | .slot name =>
    match s.item? name with
    | some (.box b _) => some b
    | _ => none
  | .parts nonce ciphertext tag => do
    let nonce ← s.data? nonce
    let ciphertext ← s.data? ciphertext
    let tag ← s.data? tag
    return ⟨nonce.bytes, ciphertext.bytes, tag.bytes⟩

/-- The peer of an agreement, and whether its key is drawn. -/
def peer? (s : Session) (choice : PeerChoice) : Option (Peer × Bool) :=
  match choice with
  | .slot name =>
    match s.item? name with
    | some (.key k drawn) => some (.key k, drawn)
    | _ => none
  | .raw bytes => (s.data? bytes).map fun d => (.raw d.bytes, d.drawn)
  | .refusing text => some (.refusing (.operationNotSupported (.other text)), false)

/-- Prepares a command that looks around. -/
def prepareLook (s : Session) : Command → Option Prepared
  | .info => some (plainly do
      return .provider s.provider.name s.provider.state.executor.name s.provider.algorithmNames)
  | .supports name _ => some (plainly do return .flag (s.provider.algorithms.supports name))
  | .lookup name family required => some (plainly (lookUp name family required))
  | .pools => some (plainly do return .pools (poolList s.provider.state.pools))
  | .seedPool name type => some (plainly (onState (seed name type)))
  | .debugProvider => some (plainly do return .text s.provider.debug)
  | .debug on => do
    let shown ← (← s.item? on).debug
    return plainly do return .text shown
  | .keep dest data => do
    let d ← s.data? data
    return plainly (keepData dest d)
  | .equal a b => do
    let x ← s.data? a
    let y ← s.data? b
    return plainly do return .flag (x.bytes == y.bytes)
  | .drop on => some fun s => (⟨.value (.flag (s.item? on).isSome), none⟩, s.discard on)
  | .clone on dest => do
    let item ← s.item? on
    let _ ← item.executor?
    return plainly do
      keep dest item
      return .nothing
  | .executorName on => do
    let executor ← (← s.item? on).executor?
    return plainly do return .text executor.name
  | _ => none

/-- Prepares a command on keys. -/
def prepareKey (s : Session) : Command → Option Prepared
  | .importHmac dest digest format key => do
    let key ← s.data? key
    return plainly (importHmac dest digest format key)
  | .generateHmac dest route digest keySize shape =>
    some (plainly (generateHmac dest route digest keySize shape))
  | .importAead dest name format key => do
    let key ← s.data? key
    return plainly (importAead dest name format key)
  | .generateAead dest name route keySize shape =>
    some (plainly (generateAead dest name route keySize shape))
  | .importPublic use dest curve format key => do
    let key ← s.data? key
    return plainly (importPublic use dest curve format key)
  | .importPrivate use dest curve format key => do
    let key ← s.data? key
    return plainly (importPrivate use dest curve format key)
  | .generatePair use toPublic toPrivate curve route shape =>
    some (plainly (generatePair use toPublic toPrivate curve route shape))
  | .encode on format dest => do
    let .key k drawn ← s.item? on | none
    return plainly do
      let bytes ← Action.ofExcept (k.encode format)
      keepData dest ⟨bytes, drawn⟩
  | _ => none

/-- Prepares a command that makes an operation. -/
def prepareMake (s : Session) : Command → Option Prepared
  | .hasher dest name route => some (plainly (makeHasher dest name route))
  | .cipher on dest route tagSize => do
    let .key (.aead k) drawn ← s.item? on | none
    return plainly (makeCipher k drawn dest route tagSize)
  | .signer on dest route digest form =>
    match s.item? on with
    | some (.key (.hmac k) drawn) =>
      some (plainly (keepSigner dest drawn ((Signer.ofHmacKey k).make route id)))
    | some (.key (.ecdsaPrivate k) drawn) =>
      some (plainly (keepSigner dest drawn
        ((Signer.ofPrivateKey k).make route (signatureChanges digest form))))
    | _ => none
  | .verifier on dest route digest form =>
    match s.item? on with
    | some (.key (.hmac k) _) =>
      some (plainly (keepVerifier dest ((Verifier.ofHmacKey k).make route id)))
    | some (.key (.ecdsaPublic k) _) =>
      some (plainly (keepVerifier dest
        ((Verifier.ofPublicKey k).make route (signatureChanges digest form))))
    | _ => none
  | .agreement on dest route => do
    let .key (.ecdhPrivate k) drawn ← s.item? on | none
    return plainly (makeAgreement k drawn dest route)
  | _ => none

/-- Prepares a command that calls an operation. -/
def prepareCall (s : Session) : Command → Option Prepared
  | .hash on data shape dest => do
    let .hasher o ← s.item? on | none
    let d ← s.data? data
    return plainly do
      let digest ← onState (o.call shape (o.core.hash d.bytes))
      keepData dest ⟨digest, d.drawn⟩
  | .sign on data shape dest => do
    let .signer o drawn ← s.item? on | none
    let d ← s.data? data
    return plainly do
      let signature ← onState (o.call shape (o.core.sign d.bytes))
      let kept : Datum := ⟨signature, drawn || d.drawn⟩
      keep dest (.data kept)
      return signatureValue o.core.scheme kept
  | .verify on data signature shape => do
    let .verifier o ← s.item? on | none
    let d ← s.data? data
    let sig ← s.data? signature
    return plainly do
      return .flag (← onState (o.call shape (o.core.verify d.bytes sig.bytes)))
  | .verifyOrFail on data signature => do
    let .verifier o ← s.item? on | none
    let d ← s.data? data
    let sig ← s.data? signature
    return plainly do
      onState (o.core.verifyOrFail d.bytes sig.bytes)
      return .nothing
  | .agree on peer shape dest => do
    let .agreement o drawn ← s.item? on | none
    let (peer, peerDrawn) ← s.peer? peer
    return plainly do
      let secret ← onState (Agreement.exchange o shape peer)
      keepData dest ⟨secret, drawn || peerDrawn⟩
  | .sizes on plaintext ciphertext => do
    let .cipher o _ ← s.item? on | none
    return plainly (Action.ofExcept (textSizes o.core plaintext ciphertext))
  | .encrypt on data nonce associated shape dest =>
    s.prepareEncrypt on data nonce associated shape fun box drawn =>
      keepData dest ⟨box.toFlat, drawn⟩
  | .encryptBox on data nonce associated shape dest =>
    s.prepareEncrypt on data nonce associated shape fun box drawn => do
      keep dest (.box box drawn)
      return .box box drawn
  | .decrypt on data associated shape dest => do
    let .cipher o _ ← s.item? on | none
    let d ← s.data? data
    let associated ← s.dataOr? associated
    return plainly do
      let work := Action.ofExcept (o.core.decrypt d.bytes associated.bytes)
      let plaintext ← onState (o.call shape work)
      keepData dest ⟨plaintext, false⟩
  | .decryptBox on box associated shape dest => do
    let .cipher o _ ← s.item? on | none
    let box ← s.box? box
    let associated ← s.dataOr? associated
    return plainly do
      let work := Action.ofExcept (o.core.decryptBox box associated.bytes)
      let plaintext ← onState (o.call shape work)
      keepData dest ⟨plaintext, false⟩
  | _ => none

/-- Prepares a command that starts a streaming function. -/
def prepareStart (s : Session) : Command → Option Prepared
  | .startHashing on dest => do
    let .hasher o ← s.item? on | none
    return plainly do
      keep dest (.hashing (← onState o.core.start) false)
      return .nothing
  | .startSigning on dest => do
    let .signer o drawn ← s.item? on | none
    return plainly do
      keep dest (.signing (← onState o.core.start) drawn)
      return .nothing
  | .startVerifying on signature dest => do
    let .verifier o ← s.item? on | none
    let sig ← s.data? signature
    return plainly do
      keep dest (.verifying (← onState (o.core.start sig.bytes)))
      return .nothing
  | .startEncrypting on nonce associated dest => do
    let .cipher o drawn ← s.item? on | none
    let nonce ← s.optionalData? nonce
    let associated ← s.dataOr? associated
    let drawn := drawn || associated.drawn || drawnOr nonce
    return plainly do
      let f ← onState
        (Enciphering.startEncrypting o.core (nonce.map (·.bytes)) associated.bytes)
      keep dest (.encrypting f drawn)
      return .nothing
  | .startDecrypting on associated dest => do
    let .cipher o _ ← s.item? on | none
    let associated ← s.dataOr? associated
    return plainly do
      keep dest (.decrypting (Enciphering.startDecrypting o.core associated.bytes))
      return .nothing
  | _ => none

/-- Carries out a command that feeds a streaming function, if all it asks for is there. -/
def feed? (s : Session) : Command → Option (Answer × Session)
  | .update on data => do
    let item ← s.item? on
    let chunk ← s.data? data
    feedChunk s on item chunk
  | .finish on data dest => do
    let item ← s.item? on
    let last ← s.data? data
    feedLast s on item last dest
  | .complete on dest => do
    let item ← s.item? on
    feedLast s on item ⟨[], false⟩ dest
  | .close on => do
    let item ← s.item? on
    closeFunction s on item
  | .stage on => do
    let stage ← (← s.item? on).stage?
    return (⟨.value .nothing, some stage⟩, s)
  | .run on chunks last => do
    let item ← s.item? on
    let chunks ← chunks.mapM s.data?
    let last ← s.dataOr? last
    runFunction s on item chunks last
  | _ => none

/-- Carries out a command, if all it asks for is there. -/
def carryOut? (s : Session) (c : Command) : Option (Answer × Session) :=
  let prepared :=
    (s.prepareLook c).or <| (s.prepareKey c).or <| (s.prepareMake c).or <|
      (s.prepareCall c).or (s.prepareStart c)
  match prepared with
  | some work => some (work s)
  | none => s.feed? c

/-- Carries out a command, or refuses it. -/
def step (s : Session) (c : Command) : Answer × Session :=
  if c.fits then
    match s.carryOut? c with
    | some done => done
    | none => (.refusal, s)
  else (⟨.failure .unwound, none⟩, s)

/-- Carries out commands in order. -/
def run : List Command → Session → List Answer × Session
  | [], s => ([], s)
  | c :: rest, s =>
    let (answer, s) := s.step c
    let (answers, s) := run rest s
    (answer :: answers, s)

/-- The answers to commands that are carried out in order, unless one of them unwinds. Where there
is no command, the answer is a refusal. -/
def answers? : List (Option Command) → Session → Option (List Answer)
  | [], _ => some []
  | none :: rest, s => (answers? rest s).map (Answer.refusal :: ·)
  | some c :: rest, s =>
    let (answer, s) := s.step c
    if answer.unwound then none else (answers? rest s).map (answer :: ·)

/-- A command that asks for more bytes than there is room for changes nothing. -/
theorem step_of_not_fits {s : Session} {c : Command} (tooMuch : c.fits = false) :
    s.step c = (⟨.failure .unwound, none⟩, s) := by
  simp [step, tooMuch]

/-- A refused command changes nothing. -/
theorem step_refused {s : Session} {c : Command} (room : c.fits = true)
    (missing : s.carryOut? c = none) : s.step c = (.refusal, s) := by
  simp [step, room, missing]

end PooledCrypto.Session
