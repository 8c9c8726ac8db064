import PooledCrypto.Session.Step

/-!
# What a command is prepared to do

A command is prepared from what the slots hold. Each relation below has one constructor for each way
in which a command of its kind can be prepared: what was found for it, and the work that comes of
that. Whoever follows a command goes through these ways and need not open its preparation again.
-/

namespace PooledCrypto.Session

open Provider

variable {s : Session} {c : Command} {prepared : Prepared}

/-- The ways of looking around. -/
inductive LookPrepared (s : Session) : Command → Prepared → Prop
  | info : LookPrepared s .info (plainly do
      return .provider s.provider.name s.provider.state.executor.name s.provider.algorithmNames)
  | supports (name : String) (family : Family) : LookPrepared s (.supports name family)
      (plainly do return .flag (s.provider.algorithms.supports name))
  | lookup (name : String) (family : Family) (required : Bool) :
      LookPrepared s (.lookup name family required) (plainly (lookUp name family required))
  | pools : LookPrepared s .pools
      (plainly do return .pools (poolList s.provider.state.pools))
  | seedPool (name : String) (type : HandleType) :
      LookPrepared s (.seedPool name type) (plainly (onState (seed name type)))
  | debugProvider : LookPrepared s .debugProvider
      (plainly do return .text s.provider.debug)
  | debug {on : String} {item : Item} (hitem : s.item? on = some item) {shown : String}
      (hshown : item.debug = some shown) :
      LookPrepared s (.debug on) (plainly do return .text shown)
  | keep (dest : Option String) {data : Recipe} {d : Datum} (hd : s.data? data = some d) :
      LookPrepared s (.keep dest data) (plainly (keepData dest d))
  | equal {a b : Recipe} {x y : Datum} (hx : s.data? a = some x) (hy : s.data? b = some y) :
      LookPrepared s (.equal a b) (plainly do return .flag (x.bytes == y.bytes))
  | drop (on : String) : LookPrepared s (.drop on)
      fun s => (⟨.value (.flag (s.item? on).isSome), none⟩, s.discard on)
  | clone {on : String} (dest : Option String) {item : Item} (hitem : s.item? on = some item)
      {executor : Executor} (hexecutor : item.executor? = some executor) :
      LookPrepared s (.clone on dest) (plainly do
        keep dest item
        return .nothing)
  | executorName {on : String} {item : Item} (hitem : s.item? on = some item)
      {executor : Executor} (hexecutor : item.executor? = some executor) :
      LookPrepared s (.executorName on) (plainly do return .text executor.name)

/-- The ways of importing, generating and exporting keys. -/
inductive KeyPrepared (s : Session) : Command → Prepared → Prop
  | importHmac (dest : Option String) (digest : String) (format : KeyFormat) {key : Recipe}
      {d : Datum} (hd : s.data? key = some d) :
      KeyPrepared s (.importHmac dest digest format key) (plainly (importHmac dest digest format d))
  | generateHmac (dest : Option String) (route : Factory.Route) (digest : Option String)
      (keySize : Option Nat) (shape : Shape) :
      KeyPrepared s (.generateHmac dest route digest keySize shape)
        (plainly (generateHmac dest route digest keySize shape))
  | importAead (dest : Option String) (name : String) (format : KeyFormat) {key : Recipe}
      {d : Datum} (hd : s.data? key = some d) :
      KeyPrepared s (.importAead dest name format key) (plainly (importAead dest name format d))
  | generateAead (dest : Option String) (name : String) (route : Factory.Route)
      (keySize : Option Nat) (shape : Shape) :
      KeyPrepared s (.generateAead dest name route keySize shape)
        (plainly (generateAead dest name route keySize shape))
  | importPublic (use : CurveUse) (dest : Option String) (curve : Curve) (format : KeyFormat)
      {key : Recipe} {d : Datum} (hd : s.data? key = some d) :
      KeyPrepared s (.importPublic use dest curve format key)
        (plainly (importPublic use dest curve format d))
  | importPrivate (use : CurveUse) (dest : Option String) (curve : Curve) (format : KeyFormat)
      {key : Recipe} {d : Datum} (hd : s.data? key = some d) :
      KeyPrepared s (.importPrivate use dest curve format key)
        (plainly (importPrivate use dest curve format d))
  | generatePair (use : CurveUse) (toPublic toPrivate : Option String) (curve : Option Curve)
      (route : Factory.Route) (shape : Shape) :
      KeyPrepared s (.generatePair use toPublic toPrivate curve route shape)
        (plainly (generatePair use toPublic toPrivate curve route shape))
  | encode {on : String} {k : Provider.Key} {drawn : Bool}
      (hitem : s.item? on = some (.key k drawn)) (format : KeyFormat) (dest : Option String) :
      KeyPrepared s (.encode on format dest) (plainly do
        let bytes ← Action.ofExcept (k.encode format)
        keepData dest ⟨bytes, drawn⟩)

/-- The ways of making operations. -/
inductive MakePrepared (s : Session) : Command → Prepared → Prop
  | hasher (dest : Option String) (name : String) (route : Factory.Route) :
      MakePrepared s (.hasher dest name route) (plainly (makeHasher dest name route))
  | cipher {on : String} {k : Aead.Key} {drawn : Bool}
      (hitem : s.item? on = some (.key (.aead k) drawn)) (dest : Option String)
      (route : Factory.Route) (tagSize : Option Nat) :
      MakePrepared s (.cipher on dest route tagSize)
        (plainly (makeCipher k drawn dest route tagSize))
  | hmacSigner {on : String} {k : HmacKey} {drawn : Bool}
      (hitem : s.item? on = some (.key (.hmac k) drawn)) (dest : Option String)
      (route : Factory.Route) (digest : Option String) (form : Option Parameters.SignatureForm) :
      MakePrepared s (.signer on dest route digest form)
        (plainly (keepSigner dest drawn ((Signer.ofHmacKey k).make route id)))
  | ecdsaSigner {on : String} {k : Curve.P256.PrivateKey} {drawn : Bool}
      (hitem : s.item? on = some (.key (.ecdsaPrivate k) drawn)) (dest : Option String)
      (route : Factory.Route) (digest : Option String) (form : Option Parameters.SignatureForm) :
      MakePrepared s (.signer on dest route digest form)
        (plainly (keepSigner dest drawn
          ((Signer.ofPrivateKey k).make route (signatureChanges digest form))))
  | hmacVerifier {on : String} {k : HmacKey} {drawn : Bool}
      (hitem : s.item? on = some (.key (.hmac k) drawn)) (dest : Option String)
      (route : Factory.Route) (digest : Option String) (form : Option Parameters.SignatureForm) :
      MakePrepared s (.verifier on dest route digest form)
        (plainly (keepVerifier dest ((Verifier.ofHmacKey k).make route id)))
  | ecdsaVerifier {on : String} {k : Curve.P256.PublicKey} {drawn : Bool}
      (hitem : s.item? on = some (.key (.ecdsaPublic k) drawn)) (dest : Option String)
      (route : Factory.Route) (digest : Option String) (form : Option Parameters.SignatureForm) :
      MakePrepared s (.verifier on dest route digest form)
        (plainly (keepVerifier dest
          ((Verifier.ofPublicKey k).make route (signatureChanges digest form))))
  | agreement {on : String} {k : Curve.P256.PrivateKey} {drawn : Bool}
      (hitem : s.item? on = some (.key (.ecdhPrivate k) drawn)) (dest : Option String)
      (route : Factory.Route) :
      MakePrepared s (.agreement on dest route) (plainly (makeAgreement k drawn dest route))

/-- Encrypting with what was found for it. -/
def encryptWith (o : Operation Aead.Cipher) (shape : Shape) (data : Datum) (nonce : Option Datum)
    (associated : Datum) (keepBox : Aead.Box → Work) : Work := do
  let box ← onState (o.call shape
    (Enciphering.encryptBox o.core (nonce.map (·.bytes)) associated.bytes data.bytes))
  keepBox box

/-- The ways of calling operations. -/
inductive CallPrepared (s : Session) : Command → Prepared → Prop
  | hash {on : String} {o : Operation Hasher} (hitem : s.item? on = some (.hasher o))
      {data : Recipe} {d : Datum} (hd : s.data? data = some d) (shape : Shape)
      (dest : Option String) :
      CallPrepared s (.hash on data shape dest) (plainly do
        let digest ← onState (o.call shape (o.core.hash d.bytes))
        keepData dest ⟨digest, d.drawn⟩)
  | sign {on : String} {o : Operation Signer} {drawn : Bool}
      (hitem : s.item? on = some (.signer o drawn)) {data : Recipe} {d : Datum}
      (hd : s.data? data = some d) (shape : Shape) (dest : Option String) :
      CallPrepared s (.sign on data shape dest) (plainly do
        let signature ← onState (o.call shape (o.core.sign d.bytes))
        keep dest (.data ⟨signature, drawn || d.drawn⟩)
        return signatureValue o.core.scheme ⟨signature, drawn || d.drawn⟩)
  | verify {on : String} {o : Operation Verifier} (hitem : s.item? on = some (.verifier o))
      {data signature : Recipe} {d sig : Datum} (hd : s.data? data = some d)
      (hsig : s.data? signature = some sig) (shape : Shape) :
      CallPrepared s (.verify on data signature shape) (plainly do
        return .flag (← onState (o.call shape (o.core.verify d.bytes sig.bytes))))
  | verifyOrFail {on : String} {o : Operation Verifier} (hitem : s.item? on = some (.verifier o))
      {data signature : Recipe} {d sig : Datum} (hd : s.data? data = some d)
      (hsig : s.data? signature = some sig) :
      CallPrepared s (.verifyOrFail on data signature) (plainly do
        onState (o.core.verifyOrFail d.bytes sig.bytes)
        return .nothing)
  | agree {on : String} {o : Operation Agreement} {drawn : Bool}
      (hitem : s.item? on = some (.agreement o drawn)) {choice : PeerChoice} {peer : Peer}
      {peerDrawn : Bool} (hpeer : s.peer? choice = some (peer, peerDrawn)) (shape : Shape)
      (dest : Option String) :
      CallPrepared s (.agree on choice shape dest) (plainly do
        let secret ← onState (Agreement.exchange o shape peer)
        keepData dest ⟨secret, drawn || peerDrawn⟩)
  | sizes {on : String} {o : Operation Aead.Cipher} {drawn : Bool}
      (hitem : s.item? on = some (.cipher o drawn)) (plaintext ciphertext : Option Nat) :
      CallPrepared s (.sizes on plaintext ciphertext)
        (plainly (Action.ofExcept (textSizes o.core plaintext ciphertext)))
  | encrypt {on : String} {o : Operation Aead.Cipher} {drawn : Bool}
      (hitem : s.item? on = some (.cipher o drawn)) {data : Recipe} {d : Datum}
      (hd : s.data? data = some d) {nonce : Option Recipe} {n : Option Datum}
      (hn : s.optionalData? nonce = some n) {associated : Option Recipe} {a : Datum}
      (ha : s.dataOr? associated = some a) (shape : Shape) (dest : Option String) :
      CallPrepared s (.encrypt on data nonce associated shape dest)
        (plainly (encryptWith o shape d n a fun box =>
          keepData dest ⟨box.toFlat, drawn || d.drawn || a.drawn || drawnOr n⟩))
  | encryptBox {on : String} {o : Operation Aead.Cipher} {drawn : Bool}
      (hitem : s.item? on = some (.cipher o drawn)) {data : Recipe} {d : Datum}
      (hd : s.data? data = some d) {nonce : Option Recipe} {n : Option Datum}
      (hn : s.optionalData? nonce = some n) {associated : Option Recipe} {a : Datum}
      (ha : s.dataOr? associated = some a) (shape : Shape) (dest : Option String) :
      CallPrepared s (.encryptBox on data nonce associated shape dest)
        (plainly (encryptWith o shape d n a fun box => do
          keep dest (.box box (drawn || d.drawn || a.drawn || drawnOr n))
          return .box box (drawn || d.drawn || a.drawn || drawnOr n)))
  | decrypt {on : String} {o : Operation Aead.Cipher} {drawn : Bool}
      (hitem : s.item? on = some (.cipher o drawn)) {data : Recipe} {d : Datum}
      (hd : s.data? data = some d) {associated : Option Recipe} {a : Datum}
      (ha : s.dataOr? associated = some a) (shape : Shape) (dest : Option String) :
      CallPrepared s (.decrypt on data associated shape dest) (plainly do
        let work := Action.ofExcept (o.core.decrypt d.bytes a.bytes)
        let plaintext ← onState (o.call shape work)
        keepData dest ⟨plaintext, false⟩)
  | decryptBox {on : String} {o : Operation Aead.Cipher} {drawn : Bool}
      (hitem : s.item? on = some (.cipher o drawn)) {choice : BoxChoice} {box : Aead.Box}
      (hbox : s.box? choice = some box) {associated : Option Recipe} {a : Datum}
      (ha : s.dataOr? associated = some a) (shape : Shape) (dest : Option String) :
      CallPrepared s (.decryptBox on choice associated shape dest) (plainly do
        let work := Action.ofExcept (o.core.decryptBox box a.bytes)
        let plaintext ← onState (o.call shape work)
        keepData dest ⟨plaintext, false⟩)

/-- Starting a function that borrows, with a context for it. -/
def startWith {α : Type} (source : Source) (make : Loan → α) (wrap : α → Item)
    (dest : Option String) : Work := do
  let f ← onState do
    let loan ← borrow source
    return make loan
  keep dest (wrap f)
  return .nothing

/-- The ways of starting functions. Ciphers borrow nothing. -/
inductive StartPrepared (s : Session) : Command → Prepared → Prop
  | hashing {on : String} {o : Operation Hasher} (hitem : s.item? on = some (.hasher o))
      (dest : Option String) :
      StartPrepared s (.startHashing on dest)
        (plainly (startWith (.digest o.core.kind) Streaming.Function.start
          (fun f => .hashing f false) dest))
  | signing {on : String} {o : Operation Signer} {drawn : Bool}
      (hitem : s.item? on = some (.signer o drawn)) (dest : Option String) :
      StartPrepared s (.startSigning on dest)
        (plainly (startWith o.core.source
          (fun loan => Streaming.Function.start (⟨loan, o.core.scheme⟩ : Signing))
          (fun f => .signing f drawn) dest))
  | verifying {on : String} {o : Operation Verifier} (hitem : s.item? on = some (.verifier o))
      {signature : Recipe} {sig : Datum} (hsig : s.data? signature = some sig)
      (dest : Option String) :
      StartPrepared s (.startVerifying on signature dest)
        (plainly (startWith o.core.source
          (fun loan => Streaming.Function.start (⟨loan, o.core.scheme, sig.bytes⟩ : Verifying))
          .verifying dest))
  | encrypting {on : String} {o : Operation Aead.Cipher} {drawn : Bool}
      (hitem : s.item? on = some (.cipher o drawn)) {nonce : Option Recipe} {n : Option Datum}
      (hn : s.optionalData? nonce = some n) {associated : Option Recipe} {a : Datum}
      (ha : s.dataOr? associated = some a) (dest : Option String) :
      StartPrepared s (.startEncrypting on nonce associated dest) (plainly do
        let f ← onState (Enciphering.startEncrypting o.core (n.map (·.bytes)) a.bytes)
        keep dest (.encrypting f (drawn || a.drawn || drawnOr n))
        return .nothing)
  | decrypting {on : String} {o : Operation Aead.Cipher} {drawn : Bool}
      (hitem : s.item? on = some (.cipher o drawn)) {associated : Option Recipe} {a : Datum}
      (ha : s.dataOr? associated = some a) (dest : Option String) :
      StartPrepared s (.startDecrypting on associated dest) (plainly do
        keep dest (.decrypting (Enciphering.startDecrypting o.core a.bytes))
        return .nothing)

theorem lookPrepared (h : s.prepareLook c = some prepared) : LookPrepared s c prepared := by
  cases c with
  | info =>
      obtain rfl := Option.some.inj h
      exact .info
  | supports name family =>
      obtain rfl := Option.some.inj h
      exact .supports name family
  | lookup name family required =>
      obtain rfl := Option.some.inj h
      exact .lookup name family required
  | pools =>
      obtain rfl := Option.some.inj h
      exact .pools
  | seedPool name type =>
      obtain rfl := Option.some.inj h
      exact .seedPool name type
  | debugProvider =>
      obtain rfl := Option.some.inj h
      exact .debugProvider
  | debug on =>
      obtain ⟨item, hitem, h⟩ := Option.bind_eq_some_iff.mp h
      obtain ⟨shown, hshown, h⟩ := Option.bind_eq_some_iff.mp h
      obtain rfl := Option.some.inj h
      exact .debug hitem hshown
  | keep dest data =>
      obtain ⟨d, hd, h⟩ := Option.bind_eq_some_iff.mp h
      obtain rfl := Option.some.inj h
      exact .keep dest hd
  | equal a b =>
      obtain ⟨x, hx, h⟩ := Option.bind_eq_some_iff.mp h
      obtain ⟨y, hy, h⟩ := Option.bind_eq_some_iff.mp h
      obtain rfl := Option.some.inj h
      exact .equal hx hy
  | drop on =>
      obtain rfl := Option.some.inj h
      exact .drop on
  | clone on dest =>
      obtain ⟨item, hitem, h⟩ := Option.bind_eq_some_iff.mp h
      obtain ⟨executor, hexecutor, h⟩ := Option.bind_eq_some_iff.mp h
      obtain rfl := Option.some.inj h
      exact .clone dest hitem hexecutor
  | executorName on =>
      obtain ⟨item, hitem, h⟩ := Option.bind_eq_some_iff.mp h
      obtain ⟨executor, hexecutor, h⟩ := Option.bind_eq_some_iff.mp h
      obtain rfl := Option.some.inj h
      exact .executorName hitem hexecutor
  | _ => exact absurd h (by simp [prepareLook])

theorem keyPrepared (h : s.prepareKey c = some prepared) : KeyPrepared s c prepared := by
  cases c with
  | importHmac dest digest format key =>
      obtain ⟨d, hd, h⟩ := Option.bind_eq_some_iff.mp h
      obtain rfl := Option.some.inj h
      exact .importHmac dest digest format hd
  | generateHmac dest route digest keySize shape =>
      obtain rfl := Option.some.inj h
      exact .generateHmac dest route digest keySize shape
  | importAead dest name format key =>
      obtain ⟨d, hd, h⟩ := Option.bind_eq_some_iff.mp h
      obtain rfl := Option.some.inj h
      exact .importAead dest name format hd
  | generateAead dest name route keySize shape =>
      obtain rfl := Option.some.inj h
      exact .generateAead dest name route keySize shape
  | importPublic use dest curve format key =>
      obtain ⟨d, hd, h⟩ := Option.bind_eq_some_iff.mp h
      obtain rfl := Option.some.inj h
      exact .importPublic use dest curve format hd
  | importPrivate use dest curve format key =>
      obtain ⟨d, hd, h⟩ := Option.bind_eq_some_iff.mp h
      obtain rfl := Option.some.inj h
      exact .importPrivate use dest curve format hd
  | generatePair use toPublic toPrivate curve route shape =>
      obtain rfl := Option.some.inj h
      exact .generatePair use toPublic toPrivate curve route shape
  | encode on format dest =>
      obtain ⟨item, hitem, h⟩ := Option.bind_eq_some_iff.mp h
      split at h
      · obtain rfl := Option.some.inj h
        exact .encode hitem format dest
      · exact absurd h (by simp)
  | _ => exact absurd h (by simp [prepareKey])

theorem makePrepared (h : s.prepareMake c = some prepared) : MakePrepared s c prepared := by
  cases c with
  | hasher dest name route =>
      obtain rfl := Option.some.inj h
      exact .hasher dest name route
  | cipher on dest route tagSize =>
      obtain ⟨item, hitem, h⟩ := Option.bind_eq_some_iff.mp h
      split at h
      · obtain rfl := Option.some.inj h
        exact .cipher hitem dest route tagSize
      · exact absurd h (by simp)
  | signer on dest route digest form =>
      unfold prepareMake at h
      dsimp only at h
      split at h
      · rename_i hitem
        obtain rfl := Option.some.inj h
        exact .hmacSigner hitem dest route digest form
      · rename_i hitem
        obtain rfl := Option.some.inj h
        exact .ecdsaSigner hitem dest route digest form
      · exact absurd h (by simp)
  | verifier on dest route digest form =>
      unfold prepareMake at h
      dsimp only at h
      split at h
      · rename_i hitem
        obtain rfl := Option.some.inj h
        exact .hmacVerifier hitem dest route digest form
      · rename_i hitem
        obtain rfl := Option.some.inj h
        exact .ecdsaVerifier hitem dest route digest form
      · exact absurd h (by simp)
  | agreement on dest route =>
      obtain ⟨item, hitem, h⟩ := Option.bind_eq_some_iff.mp h
      split at h
      · obtain rfl := Option.some.inj h
        exact .agreement hitem dest route
      · exact absurd h (by simp)
  | _ => exact absurd h (by simp [prepareMake])

/-- What is found for encrypting, in either form. -/
theorem encryptPrepared {on : String} {data : Recipe} {nonce associated : Option Recipe}
    {shape : Shape} {keepBox : Aead.Box → Bool → Work}
    (h : s.prepareEncrypt on data nonce associated shape keepBox = some prepared) :
    ∃ o drawn d n a, s.item? on = some (.cipher o drawn) ∧ s.data? data = some d
      ∧ s.optionalData? nonce = some n ∧ s.dataOr? associated = some a
      ∧ prepared = plainly (encryptWith o shape d n a fun box =>
          keepBox box (drawn || d.drawn || a.drawn || drawnOr n)) := by
  unfold prepareEncrypt at h
  obtain ⟨item, hitem, h⟩ := Option.bind_eq_some_iff.mp h
  split at h
  · rename_i o drawn
    obtain ⟨d, hd, h⟩ := Option.bind_eq_some_iff.mp h
    obtain ⟨n, hn, h⟩ := Option.bind_eq_some_iff.mp h
    obtain ⟨a, ha, h⟩ := Option.bind_eq_some_iff.mp h
    exact ⟨o, drawn, d, n, a, hitem, hd, hn, ha, (Option.some.inj h).symm⟩
  · exact absurd h (by simp)

/-- A call that is prepared is one of those that `CallPrepared` lists. -/
theorem callPrepared (h : s.prepareCall c = some prepared) : CallPrepared s c prepared := by
  cases c with
  | hash on data shape dest =>
      obtain ⟨item, hitem, h⟩ := Option.bind_eq_some_iff.mp h
      split at h
      · obtain ⟨d, hd, h⟩ := Option.bind_eq_some_iff.mp h
        obtain rfl := Option.some.inj h
        exact .hash hitem hd shape dest
      · exact absurd h (by simp)
  | sign on data shape dest =>
      obtain ⟨item, hitem, h⟩ := Option.bind_eq_some_iff.mp h
      split at h
      · obtain ⟨d, hd, h⟩ := Option.bind_eq_some_iff.mp h
        obtain rfl := Option.some.inj h
        exact .sign hitem hd shape dest
      · exact absurd h (by simp)
  | verify on data signature shape =>
      obtain ⟨item, hitem, h⟩ := Option.bind_eq_some_iff.mp h
      split at h
      · obtain ⟨d, hd, h⟩ := Option.bind_eq_some_iff.mp h
        obtain ⟨sig, hsig, h⟩ := Option.bind_eq_some_iff.mp h
        obtain rfl := Option.some.inj h
        exact .verify hitem hd hsig shape
      · exact absurd h (by simp)
  | verifyOrFail on data signature =>
      obtain ⟨item, hitem, h⟩ := Option.bind_eq_some_iff.mp h
      split at h
      · obtain ⟨d, hd, h⟩ := Option.bind_eq_some_iff.mp h
        obtain ⟨sig, hsig, h⟩ := Option.bind_eq_some_iff.mp h
        obtain rfl := Option.some.inj h
        exact .verifyOrFail hitem hd hsig
      · exact absurd h (by simp)
  | agree on choice shape dest =>
      obtain ⟨item, hitem, h⟩ := Option.bind_eq_some_iff.mp h
      split at h
      · obtain ⟨⟨peer, peerDrawn⟩, hpeer, h⟩ := Option.bind_eq_some_iff.mp h
        obtain rfl := Option.some.inj h
        exact .agree hitem hpeer shape dest
      · exact absurd h (by simp)
  | sizes on plaintext ciphertext =>
      obtain ⟨item, hitem, h⟩ := Option.bind_eq_some_iff.mp h
      split at h
      · obtain rfl := Option.some.inj h
        exact .sizes hitem plaintext ciphertext
      · exact absurd h (by simp)
  | encrypt on data nonce associated shape dest =>
      unfold prepareCall at h
      obtain ⟨o, drawn, d, n, a, hitem, hd, hn, ha, rfl⟩ := encryptPrepared h
      exact .encrypt hitem hd hn ha shape dest
  | encryptBox on data nonce associated shape dest =>
      unfold prepareCall at h
      obtain ⟨o, drawn, d, n, a, hitem, hd, hn, ha, rfl⟩ := encryptPrepared h
      exact .encryptBox hitem hd hn ha shape dest
  | decrypt on data associated shape dest =>
      obtain ⟨item, hitem, h⟩ := Option.bind_eq_some_iff.mp h
      split at h
      · obtain ⟨d, hd, h⟩ := Option.bind_eq_some_iff.mp h
        obtain ⟨a, ha, h⟩ := Option.bind_eq_some_iff.mp h
        obtain rfl := Option.some.inj h
        exact .decrypt hitem hd ha shape dest
      · exact absurd h (by simp)
  | decryptBox on choice associated shape dest =>
      obtain ⟨item, hitem, h⟩ := Option.bind_eq_some_iff.mp h
      split at h
      · obtain ⟨box, hbox, h⟩ := Option.bind_eq_some_iff.mp h
        obtain ⟨a, ha, h⟩ := Option.bind_eq_some_iff.mp h
        obtain rfl := Option.some.inj h
        exact .decryptBox hitem hbox ha shape dest
      · exact absurd h (by simp)
  | _ => exact absurd h (by simp [prepareCall])

theorem startPrepared (h : s.prepareStart c = some prepared) : StartPrepared s c prepared := by
  cases c with
  | startHashing on dest =>
      obtain ⟨item, hitem, h⟩ := Option.bind_eq_some_iff.mp h
      split at h
      · obtain rfl := Option.some.inj h
        exact .hashing hitem dest
      · exact absurd h (by simp)
  | startSigning on dest =>
      obtain ⟨item, hitem, h⟩ := Option.bind_eq_some_iff.mp h
      split at h
      · obtain rfl := Option.some.inj h
        exact .signing hitem dest
      · exact absurd h (by simp)
  | startVerifying on signature dest =>
      obtain ⟨item, hitem, h⟩ := Option.bind_eq_some_iff.mp h
      split at h
      · obtain ⟨sig, hsig, h⟩ := Option.bind_eq_some_iff.mp h
        obtain rfl := Option.some.inj h
        exact .verifying hitem hsig dest
      · exact absurd h (by simp)
  | startEncrypting on nonce associated dest =>
      obtain ⟨item, hitem, h⟩ := Option.bind_eq_some_iff.mp h
      split at h
      · obtain ⟨n, hn, h⟩ := Option.bind_eq_some_iff.mp h
        obtain ⟨a, ha, h⟩ := Option.bind_eq_some_iff.mp h
        obtain rfl := Option.some.inj h
        exact .encrypting hitem hn ha dest
      · exact absurd h (by simp)
  | startDecrypting on associated dest =>
      obtain ⟨item, hitem, h⟩ := Option.bind_eq_some_iff.mp h
      split at h
      · obtain ⟨a, ha, h⟩ := Option.bind_eq_some_iff.mp h
        obtain rfl := Option.some.inj h
        exact .decrypting hitem ha dest
      · exact absurd h (by simp)
  | _ => exact absurd h (by simp [prepareStart])

end PooledCrypto.Session
