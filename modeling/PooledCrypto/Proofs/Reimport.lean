import PooledCrypto.Proofs.KeyedContexts

/-!
# Keys that leave and come back

A key is exported to bytes and the bytes are imported with the decoder of the key's own family. What
comes back is the same key, or for a MAC key one with another pool. `Alike` says that this makes
no difference: whatever is tried with the two keys comes to the same, and if something fails it fails
in the same way.

A `Decoder` stands for all ways of importing. Reading and writing are inverse to each other in both
orders, but for public keys, which can be written in more ways than one.
-/

namespace PooledCrypto.Session

open Provider
open Curve (P256.PublicKey P256.PrivateKey)

/-! ## Importing -/

/-- A way of importing keys: for a MAC with a digest, for a cipher, or on a curve. -/
inductive Decoder
  | hmac (digest : String)
  | aead (kind : Aead.Kind)
  | publicKey (use : CurveUse) (curve : Curve)
  | privateKey (use : CurveUse) (curve : Curve)

/-- Imports a key. -/
def Decoder.decode (d : Decoder) (format : KeyFormat) (bytes : Bytes) : Action State Provider.Key :=
  match d with
  | .hmac digest => do return .hmac (← HmacKey.decode digest format bytes)
  | .aead kind => do return .aead (← Action.ofExcept (decodeAeadKey kind format bytes))
  | .publicKey use curve => do
    return use.publicKey (← Action.ofExcept (decodePublicKey curve format bytes))
  | .privateKey use curve => do
    return use.privateKey (← Action.ofExcept (decodePrivateKey curve format bytes))

/-- Whether there is a digest or curve to import keys for. -/
def Decoder.supported : Decoder → Bool
  | .hmac digest => (requireSha2 Algorithm.hmac digest).isOk
  | .aead _ => true
  | .publicKey _ curve => (requireP256 curve).isOk
  | .privateKey _ curve => (requireP256 curve).isOk

/-- The decoder of the key's own family. -/
def decoderOf : Provider.Key → Decoder
  | .hmac k => .hmac k.digest.name
  | .aead k => .aead k.kind
  | .ecdsaPublic _ => .publicKey .ecdsa .p256
  | .ecdsaPrivate _ => .privateKey .ecdsa .p256
  | .ecdhPublic _ => .publicKey .ecdh .p256
  | .ecdhPrivate _ => .privateKey .ecdh .p256

/-- Whether the key is a public one. -/
def isPublic : Provider.Key → Bool
  | .ecdsaPublic _ | .ecdhPublic _ => true
  | _ => false

/-! ## Trying keys out -/

/-- What can be tried with a key. Whatever operation it takes is made for it. -/
inductive Trial
  | size
  | encode (format : KeyFormat)
  | encrypt (route : Factory.Route) (changes : Parameters.Aead → Parameters.Aead)
      (nonce associated plaintext : Bytes)
  | decrypt (route : Factory.Route) (changes : Parameters.Aead → Parameters.Aead)
      (associated flat : Bytes)
  | sign (route : Factory.Route) (changes : Parameters.Ecdsa → Parameters.Ecdsa) (message : Bytes)
  | verify (route : Factory.Route) (changes : Parameters.Ecdsa → Parameters.Ecdsa)
      (message signature : Bytes)
  | agree (route : Factory.Route) (peer : Peer)
  /-- Somebody else agrees on a secret with the holder of the key. -/
  | join (other : P256.PrivateKey)

/-- What comes of a trial. -/
inductive Finding
  /-- It is not for keys of this family. -/
  | unfit
  | bits (n : Nat)
  | digest (kind : Digest.Kind)
  | bytes (b : Bytes)
  | verdict (b : Bool)

/-- Tries something with a key. -/
def tryOut (k : Provider.Key) : Trial → Action State Finding
  | .size =>
    match k with
    | .hmac k => return .digest k.digest
    | .aead k => return .bits k.bits
    | _ => return .unfit
  | .encode format => do return .bytes (← Action.ofExcept (k.encode format))
  | .encrypt route changes nonce associated plaintext =>
    match k with
    | .aead k => do
      let o ← (cipherFactory k).make route changes
      return .bytes (← Enciphering.encrypt o.core (some nonce) associated plaintext)
    | _ => return .unfit
  | .decrypt route changes associated flat =>
    match k with
    | .aead k => do
      let o ← (cipherFactory k).make route changes
      return .bytes (← Action.ofExcept (o.core.decrypt flat associated))
    | _ => return .unfit
  | .sign route changes message =>
    match k with
    | .hmac k => do
      let o ← (Signer.ofHmacKey k).make route id
      return .bytes (← o.core.sign message)
    | .ecdsaPrivate k => do
      let o ← (Signer.ofPrivateKey k).make route changes
      return .bytes (← o.core.sign message)
    | _ => return .unfit
  | .verify route changes message signature =>
    match k with
    | .hmac k => do
      let o ← (Verifier.ofHmacKey k).make route id
      return .verdict (← o.core.verify message signature)
    | .ecdsaPublic k => do
      let o ← (Verifier.ofPublicKey k).make route changes
      return .verdict (← o.core.verify message signature)
    | _ => return .unfit
  | .agree route peer =>
    match k with
    | .ecdhPrivate k => do
      let o ← (Agreement.factory k).make route id
      return .bytes (← Action.ofExcept (o.core.agree peer))
    | _ => return .unfit
  | .join other => do
    return .bytes (← Action.ofExcept (Agreement.agree ⟨other⟩ (.key k)))

/-- Nothing that is tried in the state tells the keys apart. -/
def Alike (k k' : Provider.Key) (st : State) : Prop :=
  ∀ trial, (tryOut k trial st).1 = (tryOut k' trial st).1

/-- Reading and writing keys. -/
structure Inverse : Prop where
  /-- What is read is written again as it was, unless it is a public key. -/
  encode_decode : ∀ (d : Decoder) (bytes : Bytes) (st st' : State) (k : Provider.Key),
    d.decode .raw bytes st = (.ok k, st') → isPublic k = false → k.encode .raw = .ok bytes
  /-- Only the raw format can be written. -/
  encode_other : ∀ (k : Provider.Key) (format : KeyFormat), format ≠ .raw →
    k.encode format = .error (.operationNotSupported (.keyEncoding format))
  /-- Only the raw format can be read, whatever the bytes. What is not supported may also be the
  digest or the curve, which are looked at first. -/
  decode_other : ∀ (d : Decoder) (format : KeyFormat) (bytes : Bytes) (st : State), format ≠ .raw →
    ∃ what, d.decode format bytes st = (.error (.error (.operationNotSupported what)), st)
      ∧ (d.supported = true → what = .keyEncoding format)

variable {s : Session} {l : Ledger} {k k' : Provider.Key} {st st' : State} {lent : List Loan}
  {format : KeyFormat} {bytes : Bytes} {d : Decoder}

/-! ## Formats -/

theorem requireRaw_other (h : format ≠ .raw) :
    requireRaw format = .error (.operationNotSupported (.keyEncoding format)) := by
  cases format with
  | raw => exact absurd rfl h
  | _ => rfl

theorem encode_raw (k : Provider.Key) : k.encode .raw = .ok k.raw := rfl

theorem encode_not_raw (h : format ≠ .raw) :
    k.encode format = .error (.operationNotSupported (.keyEncoding format)) := by
  unfold Key.encode
  rw [requireRaw_other h]
  rfl

/-- What the name of a digest or a curve is refused for is an unsupported operation too. -/
theorem requireSha2_error {algorithm digest : String} {e : Error}
    (h : requireSha2 algorithm digest = .error e) : ∃ what, e = .operationNotSupported what := by
  unfold requireSha2 at h
  split at h
  · split at h
    · exact absurd h (by simp)
    · exact ⟨_, (Except.error.inj h).symm⟩
  · exact ⟨_, (Except.error.inj h).symm⟩

/-- Another curve is refused as something that is not supported. -/
theorem requireP256_error {curve : Curve} {e : Error} (h : requireP256 curve = .error e) :
    ∃ what, e = .operationNotSupported what := by
  cases curve with
  | p256 => exact absurd h (by simp [requireP256])
  | _ => exact ⟨_, (Except.error.inj h).symm⟩

/-- Work that passes on an error of what it starts with. -/
theorem ofExcept_bind_error {α β : Type} {r : Except Error α} {e : Error}
    (next : α → Action State β) (h : r = .error e) :
    (Action.ofExcept r >>= next) st = (.error (.error e), st) := by
  subst h
  exact Action.bind_of_error rfl

theorem ofExcept_bind_ok {α β : Type} {r : Except Error α} {v : α} {f : α → β} (h : r = .ok v) :
    (Action.ofExcept r >>= fun x => pure (f x)) st = (.ok (f v), st) := by
  subst h
  rfl

/-- Importing on a curve looks at the curve, then at the format, then at the bytes. -/
theorem decodeCurve_other {α : Type} (curve : Curve) (read : Except Error α)
    (h : format ≠ .raw) : ∃ what, (do
      requireP256 curve
      requireRaw format
      read) = .error (.operationNotSupported what)
        ∧ ((requireP256 curve).isOk = true → what = .keyEncoding format) := by
  cases hcurve : requireP256 curve with
  | error e =>
      obtain ⟨what, rfl⟩ := requireP256_error hcurve
      exact ⟨what, rfl, fun hok => absurd hok (by simp [Except.isOk, Except.toBool])⟩
  | ok u =>
      rw [requireRaw_other h]
      exact ⟨_, rfl, fun _ => rfl⟩

theorem decodeHmacKey_other (digest : String) (bytes : Bytes) (st : State) (h : format ≠ .raw) :
    ∃ what, HmacKey.decode digest format bytes st
        = (.error (.error (.operationNotSupported what)), st)
      ∧ ((requireSha2 Algorithm.hmac digest).isOk = true → what = .keyEncoding format) := by
  unfold HmacKey.decode
  cases hsha : requireSha2 Algorithm.hmac digest with
  | error e =>
      obtain ⟨what, rfl⟩ := requireSha2_error hsha
      refine ⟨what, ofExcept_bind_error _ rfl, fun hok => ?_⟩
      exact absurd hok (by simp [Except.isOk, Except.toBool])
  | ok kind =>
      refine ⟨.keyEncoding format, ?_, fun _ => rfl⟩
      rw [Action.bind_of_ok (Action.ofExcept_apply _ st)]
      exact ofExcept_bind_error _ (requireRaw_other h)

theorem decode_not_raw (d : Decoder) (bytes : Bytes) (st : State) (h : format ≠ .raw) :
    ∃ what, d.decode format bytes st = (.error (.error (.operationNotSupported what)), st)
      ∧ (d.supported = true → what = .keyEncoding format) := by
  cases d with
  | hmac digest =>
      obtain ⟨what, hout, hwhat⟩ := decodeHmacKey_other digest bytes st h
      exact ⟨what, Action.bind_of_error hout, hwhat⟩
  | aead kind =>
      have hout : decodeAeadKey kind format bytes
          = .error (.operationNotSupported (.keyEncoding format)) := by
        unfold decodeAeadKey
        rw [requireRaw_other h]
        rfl
      exact ⟨.keyEncoding format, ofExcept_bind_error _ hout, fun _ => rfl⟩
  | publicKey use curve =>
      obtain ⟨what, hout, hwhat⟩ := decodeCurve_other curve (P256.PublicKey.ofBytes bytes) h
      exact ⟨what, ofExcept_bind_error _ hout, hwhat⟩
  | privateKey use curve =>
      obtain ⟨what, hout, hwhat⟩ := decodeCurve_other curve (P256.PrivateKey.ofBytes bytes) h
      exact ⟨what, ofExcept_bind_error _ hout, hwhat⟩

/-! ## What is read is written again -/

theorem bytes_of_ofBytes {kind : Aead.Kind} {key : Aead.Key}
    (h : Aead.Key.ofBytes kind bytes = .ok key) : key.bytes = bytes := by
  unfold Aead.Key.ofBytes at h
  split at h
  · obtain rfl := Except.ok.inj h
    rfl
  · exact absurd h (by simp)

theorem toBytes_of_ofBytes {key : P256.PrivateKey} (h : P256.PrivateKey.ofBytes bytes = .ok key) :
    key.toBytes = bytes := by
  unfold P256.PrivateKey.ofBytes P256.PrivateKey.ofScalar? at h
  split at h
  · rename_i hlen
    split at h
    · rename_i own hown
      split at hown
      · obtain rfl := Option.some.inj hown
        obtain rfl := Except.ok.inj h
        have hback := Bytes.ofNatBE_toNatBE bytes
        rw [hlen] at hback
        exact hback
      · exact absurd hown (by simp)
    · exact absurd h (by simp)
  · exact absurd h (by simp)

/-- A key that was read from bytes is written as the same bytes, if it is no public key. -/
theorem encode_of_decode (h : d.decode .raw bytes st = (.ok k, st')) (hp : isPublic k = false) :
    k.encode .raw = .ok bytes := by
  rw [encode_raw]
  congr 1
  cases d with
  | hmac digest =>
      obtain ⟨key, st₁, hdecode, hpure⟩ := Action.bind_eq_ok h
      obtain rfl := Except.ok.inj (congrArg Prod.fst hpure)
      obtain ⟨kind, -, -, -, hmake⟩ := decodeHmacKey_ok hdecode
      obtain ⟨rfl, -⟩ := makeHmacKey_ok hmake
      rfl
  | aead kind =>
      obtain ⟨key, st₁, hdecode, hpure⟩ := Action.bind_eq_ok h
      obtain rfl := Except.ok.inj (congrArg Prod.fst hpure)
      exact bytes_of_ofBytes (Action.ofExcept_eq_ok hdecode).1
  | publicKey use curve =>
      obtain ⟨key, st₁, hdecode, hpure⟩ := Action.bind_eq_ok h
      obtain rfl := Except.ok.inj (congrArg Prod.fst hpure)
      -- public keys are left out: of one point there are several encodings
      cases use <;> exact absurd hp (by simp [CurveUse.publicKey, isPublic])
  | privateKey use curve =>
      obtain ⟨key, st₁, hdecode, hpure⟩ := Action.bind_eq_ok h
      obtain rfl := Except.ok.inj (congrArg Prod.fst hpure)
      have hread : decodePrivateKey curve .raw bytes = .ok key := (Action.ofExcept_eq_ok hdecode).1
      cases curve with
      | p256 =>
          have hkey : key.toBytes = bytes := toBytes_of_ofBytes hread
          cases use <;> exact hkey
      | _ => exact absurd hread (by simp [decodePrivateKey, requireP256, bind, Except.bind])

theorem inverse : Inverse where
  encode_decode _ _ _ _ _ h hp := encode_of_decode h hp
  encode_other _ _ h := encode_not_raw h
  decode_other d _ bytes st h := decode_not_raw d bytes st h

/-! ## What is written is read again -/

/-- The keys are the same, or differ in nothing but the pool of a MAC key. -/
inductive Twins (st : State) : Provider.Key → Provider.Key → Prop
  | same (k : Provider.Key) : Twins st k k
  | mac {a b : HmacKey} (digest : b.digest = a.digest) (bytes : b.bytes = a.bytes)
      (first : a.Kept st) (second : b.Kept st) : Twins st (.hmac a) (.hmac b)

/-- Twins stay twins, as sources that stand keep standing. -/
theorem Twins.continues (h : Twins st k k') (hc : st.Continues st') : Twins st' k k' := by
  cases h with
  | same k => exact .same k
  | mac digest bytes first second =>
      exact .mac digest bytes (first.continues hc) (second.continues hc)

theorem opening_decode (d : Decoder) (format : KeyFormat) (bytes : Bytes) :
    Opening (d.decode format bytes) := by
  cases d with
  | hmac digest => exact (opening_decodeHmacKey digest format bytes).bind fun _ => opening_pure _
  | aead kind => exact (opening_ofExcept _).bind fun _ => opening_pure _
  | publicKey use curve => exact (opening_ofExcept _).bind fun _ => opening_pure _
  | privateKey use curve => exact (opening_ofExcept _).bind fun _ => opening_pure _

theorem decodePublicKey_toBytes (key : P256.PublicKey) :
    decodePublicKey .p256 .raw key.toBytes = .ok key := by
  unfold decodePublicKey P256.PublicKey.ofBytes
  rw [P256.PublicKey.ofBytes?_toBytes]
  rfl

theorem decodePrivateKey_toBytes (key : P256.PrivateKey) :
    decodePrivateKey .p256 .raw key.toBytes = .ok key := by
  unfold decodePrivateKey
  rw [P256.PrivateKey.ofBytes_toBytes]
  rfl

/-- A key that is kept, or needs no keeping, is read again from what it is written to. -/
theorem decode_raw (hk : ∀ key, k = .hmac key → key.Kept st) :
    ∃ k' st', (decoderOf k).decode .raw k.raw st = (.ok k', st') ∧ Twins st' k k' := by
  cases k with
  | hmac key =>
      have hkept := hk key rfl
      obtain ⟨st', hdecode⟩ := hkept.decode
      have hlater := (opening_decodeHmacKey key.digest.name .raw key.bytes st st .refl).continues
      rw [hdecode] at hlater
      refine ⟨_, st', Action.bind_of_ok hdecode, ?_⟩
      exact .mac rfl rfl (hkept.continues hlater) (kept_decode hdecode)
  | aead key =>
      have hdecode : decodeAeadKey key.kind .raw key.bytes = .ok key := key.ofBytes_bytes
      exact ⟨_, st, ofExcept_bind_ok hdecode, .same _⟩
  | ecdsaPublic key => exact ⟨_, st, ofExcept_bind_ok (decodePublicKey_toBytes key), .same _⟩
  | ecdhPublic key => exact ⟨_, st, ofExcept_bind_ok (decodePublicKey_toBytes key), .same _⟩
  | ecdsaPrivate key => exact ⟨_, st, ofExcept_bind_ok (decodePrivateKey_toBytes key), .same _⟩
  | ecdhPrivate key => exact ⟨_, st, ofExcept_bind_ok (decodePrivateKey_toBytes key), .same _⟩

/-! ## Nothing tells the keys apart -/

variable {key : HmacKey}

/-- What a MAC key signs is its code, however the signer is made. -/
theorem tryOut_sign (hk : key.Kept st) (ha : Accounts st lent) (route : Factory.Route)
    (changes : Parameters.Ecdsa → Parameters.Ecdsa) (message : Bytes) :
    (tryOut (.hmac key) (.sign route changes message) st).1
      = .ok (.bytes (Mac.hmac key.digest.hash key.bytes message)) := by
  have hmade : (Signer.ofHmacKey key).make route id st
      = (.ok ⟨⟨.mac key.pool, .mac, key.digest.outputSize⟩, st.executor⟩, st) := by
    cases route <;> rfl
  have hsign : (Signer.sign ⟨.mac key.pool, .mac, key.digest.outputSize⟩ message st).1 = .ok _ :=
    fst_sign rfl (hk.compute ha message)
  unfold tryOut
  dsimp only
  rw [Action.bind_of_ok hmade, Action.fst_bind, hsign]
  rfl

/-- A code is verified by comparing it with the one that the bytes of the key give. -/
theorem tryOut_verify (hk : key.Kept st) (ha : Accounts st lent) (route : Factory.Route)
    (changes : Parameters.Ecdsa → Parameters.Ecdsa) (message signature : Bytes) :
    (tryOut (.hmac key) (.verify route changes message signature) st).1
      = .ok (.verdict (Mac.hmac key.digest.hash key.bytes message == signature)) := by
  have hmade : (Verifier.ofHmacKey key).make route id st
      = (.ok ⟨⟨.mac key.pool, .mac⟩, st.executor⟩, st) := by
    cases route <;> rfl
  have hverify : (Verifier.verify ⟨.mac key.pool, .mac⟩ message signature st).1 = .ok _ :=
    fst_verify signature rfl (hk.compute ha message)
  unfold tryOut
  dsimp only
  rw [Action.bind_of_ok hmade, Action.fst_bind, hverify]
  rfl

theorem encode_mac {a b : HmacKey} (h : b.bytes = a.bytes) :
    Key.encode (.hmac a) = Key.encode (.hmac b) := by
  funext format
  unfold Key.encode
  dsimp only [Key.raw]
  rw [h]

/-- **Nothing tells twins apart** while all that is lent is accounted for. -/
theorem Twins.alike (h : Twins st k k') (ha : Accounts st lent) : Alike k k' st := by
  intro trial
  cases h with
  | same k => rfl
  | @mac a b digest bytes first second =>
      cases trial with
      | size => exact congrArg (fun kind => Except.ok (Finding.digest kind)) digest.symm
      | encode format =>
          unfold tryOut
          dsimp only
          rw [encode_mac bytes]
      | sign route changes message =>
          rw [tryOut_sign first ha, tryOut_sign second ha, digest, bytes]
      | verify route changes message signature =>
          rw [tryOut_verify first ha, tryOut_verify second ha, digest, bytes]
      | join other =>
          unfold tryOut Agreement.agree Peer.encode
          dsimp only
          rw [encode_mac bytes]
      -- ciphers and agreements are not made with a MAC key
      | _ => rfl

/-! ## Every run -/

/-- **Keys survive being exported and imported.**

Start the provider in software on any executor, with pools of any capacity, and carry out any
commands. Take any key that is in a slot by then: it can be exported, and what it is exported to can
be imported. Whatever is done afterwards, nothing tells the key that came back from the first one. -/
theorem reimported_keys_alike (executor : Executor) (entropy : Entropy) (capacity : Nat)
    (before : List Command) (name : String) (k : Provider.Key) (drawn : Bool)
    (hkey : (run before (start (software (State.start executor entropy capacity)))).2.item? name
      = some (.key k drawn)) :
    let s := (run before (start (software (State.start executor entropy capacity)))).2
    k.encode .raw = .ok k.raw
      ∧ (∃ k' st, (decoderOf k).decode .raw k.raw s.provider.state = (.ok k', st)
          ∧ ∀ after : List Command,
              Alike k k' (run after { s with provider.state := st }).2.provider.state)
      ∧ Inverse := by
  intro s
  have hstart := sound_start executor entropy capacity
  have hs : s.Sound := (parts_run hstart before).sound hstart
  have ht : Tracked s _ := watch_session before _ .blank ▸
    tracked_watch (tracked_start executor entropy capacity) before
  have hkept : ∀ key, k = .hmac key → key.Kept s.provider.state := by
    rintro key rfl
    exact hs _ _ (Slots.mem_of_get? hkey)
  obtain ⟨k', st, hdecode, htwins⟩ := decode_raw hkept
  refine ⟨rfl, ⟨k', st, hdecode, fun after => ?_⟩, inverse⟩
  -- importing makes a pool at most, so the session is in order and goes on as any other
  have hopens := opening_decode (decoderOf k) .raw k.raw s.provider.state s.provider.state .refl
  rw [hdecode] at hopens
  have hpart : Part s [] { s with provider.state := st } := .prepare rfl hopens
  have hmid := hpart.sound hs
  have htracked : Tracked { s with provider.state := st } _ :=
    ⟨hopens.accounts ht.accounts, ht.names, ht.tended⟩
  have hend := tracked_watch htracked after
  rw [watch_session] at hend
  exact (htwins.continues (parts_run hmid after).continues).alike hend.accounts

/-- A MAC key of three bytes. -/
theorem reimported_keys_alike_sha384 :
    let s₀ := start (software (State.start .inPlace (.seeded []) 2))
    let before : List Command := [.importHmac (some "k") "SHA-384" .raw (.plain [1, 2, 3])]
    let k : Provider.Key := .hmac ⟨.sha384, [1, 2, 3], 0⟩
    (run before s₀).2.item? "k" = some (.key k false) ∧ k.encode .raw = .ok [1, 2, 3]
      ∧ ∃ k' st, (Decoder.hmac "SHA-384").decode .raw [1, 2, 3] (run before s₀).2.provider.state
          = (.ok k', st)
        ∧ ∀ after : List Command,
            Alike k k'
              (run after { (run before s₀).2 with provider.state := st }).2.provider.state := by
  refine ⟨rfl, rfl, ?_⟩
  exact (reimported_keys_alike .inPlace (.seeded []) 2
    [.importHmac (some "k") "SHA-384" .raw (.plain [1, 2, 3])] "k"
    (.hmac ⟨.sha384, [1, 2, 3], 0⟩) false rfl).2.1

end PooledCrypto.Session
