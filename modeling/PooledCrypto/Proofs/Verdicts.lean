import PooledCrypto.Proofs.KeyedContexts
import PooledCrypto.Proofs.SharedSecrets
import PooledCrypto.Proofs.TwoForms

/-!
# Every signature gets a verdict

Whoever sends a signature may send any bytes: too few, too many, or none at all. A verifier has no
way to fail over them. Once it has a context, what it says depends on the code of the message and
on the signature alone, and it says the same in one call, on an executor and chunk by chunk
(`Verifier.Decides`).

A verifier of a MAC key says yes to the code that a signer of the key gives and to nothing else, so
one byte string is accepted for each message. A verifier of a public key says no to whatever is not
a signature in its form.
-/

namespace PooledCrypto.Provider

open Curve (P256.PublicKey P256.Signature)
open Parameters (SignatureForm)
open Session (Reports)

/-- The signer was made with the MAC key, in whatever state. -/
def MacSignerFor (k : HmacKey) (s : Signer) : Prop :=
  ∃ route changes st o st', (Signer.ofHmacKey k).make route changes st = (.ok o, st') ∧ o.core = s

/-- The verifier was made with the MAC key, in whatever state. -/
def MacVerifierFor (k : HmacKey) (v : Verifier) : Prop :=
  ∃ route changes st o st', (Verifier.ofHmacKey k).make route changes st = (.ok o, st')
    ∧ o.core = v

/-- The verifier comes to a verdict about any message and any signature, in whatever shape it is
asked. -/
structure Verifier.Decides (v : Verifier) (st : State) (accepts : Bytes → Bytes → Bool) : Prop where
  /-- In one call, in the caller's place or on an executor that reports. -/
  calls : ∀ (o : Operation Verifier) (shape : Shape) (message signature : Bytes), o.core = v →
    Reports o shape →
      (o.call shape (o.core.verify message signature) st).1 = .ok (accepts message signature)
  /-- Chunk by chunk: a function is started, takes any chunks, and ends with a last chunk or without
  one. -/
  functions : ∀ signature, ∃ f st', v.start signature st = (.ok f, st')
    ∧ ∀ chunks : List Bytes, ∃ fed : VerifyFunction,
      f.updateAll chunks = (.ok (chunks.map fun _ => ()), fed)
        ∧ (∀ last, (fed.finish last).1 = .ok (accepts (chunks.flatten ++ last) signature))
        ∧ fed.complete.1 = .ok (accepts chunks.flatten signature)
  /-- Where the signature is demanded to be valid, no is an error, and always the same one. -/
  demands : ∀ message signature, (v.verifyOrFail message signature st).1
    = if accepts message signature then .ok ()
      else .error (.error (.crypto (some .signatureMismatch)))

/-- How verifiers come out in a state. -/
structure Verifies (st : State) : Prop where
  /-- A verifier of a MAC key says whether the signature is the tag that a signer of the key gives for
  the message. -/
  mac : ∀ (k : HmacKey) (v : Verifier) (s : Signer), k.Kept st → MacVerifierFor k v →
    MacSignerFor k s → ∃ tag : Bytes → Bytes, (∀ h : Handing, s.signed st h = .ok (tag h.message))
      ∧ (∀ message, (tag message).length = s.signatureSize)
      ∧ v.Decides st fun message signature => signature == tag message
  /-- It accepts one signature of each message. -/
  one : ∀ (k : HmacKey) (v : Verifier) (h : Handing), k.Kept st → MacVerifierFor k v →
    Only fun signature => v.verdict st signature h = .ok true
  /-- Nothing that is shorter or longer than a tag is accepted, and so not the empty string. -/
  sized : ∀ (k : HmacKey) (v : Verifier) (h : Handing) (signature : Bytes), k.Kept st →
    MacVerifierFor k v → signature.length ≠ k.digest.outputSize ∨ signature = [] →
      v.verdict st signature h = .ok false
  /-- A verifier of a public key says whether the bytes are a signature in its form, and one of the
  message. -/
  ecdsa : ∀ (key : P256.PublicKey) (kind : Digest.Kind) (form : SignatureForm) (v : Verifier),
    VerifierFor key kind form v → Lends kind st → ∃ accepts, v.Decides st accepts
      ∧ ∀ message signature, accepts message signature = true
        ↔ ∃ sig, P256.Signature.ofBytes? form signature = some sig
          ∧ Curve.P256.verify key (kind.digest message) sig = true
  /-- Bytes that are no signature in the form of the verifier are not accepted. -/
  malformed : ∀ (key : P256.PublicKey) (kind : Digest.Kind) (form : SignatureForm) (v : Verifier)
    (h : Handing) (signature : Bytes), VerifierFor key kind form v → Lends kind st →
      P256.Signature.ofBytes? form signature = none → v.verdict st signature h = .ok false
  /-- A MAC key has contexts from the moment it is imported or generated. -/
  kept : ∀ (k : HmacKey) (made later : State), made.Continues later →
    (∀ digest format bytes, HmacKey.decode digest format bytes st = (.ok k, made) → k.Kept later)
      ∧ ∀ route changes shape, (do
          let generator ← hmacGenerator.make route changes
          generator.call shape generator.core) st = (.ok k, made) → k.Kept later
  /-- A verifier of a public key that is made for a digest without a pool has contexts from then
  on. -/
  supplied : ∀ (kind : Digest.Kind) (form : SignatureForm) (made later : State),
    st.pools.find? kind.name = none → made.Continues later →
      ∀ key route changes o, (Verifier.ofPublicKey key).make route changes st = (.ok o, made) →
        chosen route changes = ⟨kind.name, form⟩ → Lends kind later
  /-- Each configuration gives an executor that reports in either shape of a call. -/
  reports : ∀ around config (initial : State) (o : Operation Verifier),
    State.ofConfig around config = .ok initial → o.executor = initial.executor →
      ∀ shape, Reports o shape

variable {k : HmacKey} {kind : Digest.Kind} {form : SignatureForm} {key : P256.PublicKey}
  {st : State} {lent : List Loan} {s : Signer} {v : Verifier} {code : Bytes → Bytes}
  {accepts : Bytes → Bytes → Bool} {signature digest : Bytes}

/-! ## Verdicts -/

theorem MacSignerFor.made (h : MacSignerFor k s) : s = ⟨.mac k.pool, .mac, k.digest.outputSize⟩ := by
  obtain ⟨route, changes, st, o, st', hmake, rfl⟩ := h
  obtain ⟨p, hp⟩ := Factory.make_eq_ok hmake
  obtain rfl := Except.ok.inj (congrArg Prod.fst hp)
  rfl

theorem MacVerifierFor.made (h : MacVerifierFor k v) : v = ⟨.mac k.pool, .mac⟩ := by
  obtain ⟨route, changes, st, o, st', hmake, rfl⟩ := h
  obtain ⟨p, hp⟩ := Factory.make_eq_ok hmake
  obtain rfl := Except.ok.inj (congrArg Prod.fst hp)
  rfl

/-- A key's pool serves the codes under the key. -/
theorem serves_mac (hk : k.Kept st) (ha : Accounts st lent) :
    Serves st (.mac k.pool) (Mac.hmac k.digest.hash k.bytes) := by
  intro loan st' hb front last
  have hlater := continues_borrow (.mac k.pool) st
  rw [hb] at hlater
  obtain ⟨hacc, htook⟩ := borrow_ok ha hb
  have hfed := (Session.took_foldl front loan [] htook).update last
  have hreset := (Loan.reset_update _ last).trans (Loan.reset_foldl front loan)
  exact (hk.continues hlater).finish hacc (by simp) hreset hfed

/-- A verifier that can borrow compares what the source computes. -/
theorem decides_of_serves (hc : Serves st v.source code)
    (hl : ∃ loan st', borrow v.source st = (.ok loan, st')) :
    v.Decides st fun message signature => v.scheme.verify (code message) signature := by
  obtain ⟨loan, st', hb⟩ := hl
  have hverify : ∀ message signature,
      (v.verify message signature st).1 = .ok (v.scheme.verify (code message) signature) := by
    intro message signature
    have hwhole := verdict_of_serves hc signature (.whole message)
    rw [hb] at hwhole
    exact hwhole
  refine ⟨fun o shape message signature hcore hreports => ?_, fun signature => ?_,
    fun message signature => ?_⟩
  · rw [hcore]
    exact Session.fst_call_of_reports hreports (hverify message signature)
  · exact ⟨_, st', Action.bind_of_ok hb, (reduces_verify v signature).fed hc hb⟩
  · unfold Verifier.verifyOrFail
    rw [Action.fst_bind, hverify]
    dsimp only [Except.bind]
    cases v.scheme.verify (code message) signature <;> rfl

/-- A verdict is reached however the message is handed over. -/
theorem Verifier.Decides.verdict (hd : v.Decides st accepts) (signature : Bytes) (h : Handing) :
    v.verdict st signature h = .ok (accepts h.message signature) := by
  cases h with
  | whole message => exact hd.calls ⟨v, .inPlace⟩ .direct message signature rfl trivial
  | chunks front last =>
      obtain ⟨f, st', hstart, htakes⟩ := hd.functions signature
      obtain ⟨fed, hfed, hfinish, _⟩ := htakes front
      unfold Verifier.verdict
      dsimp only
      rw [hstart]
      dsimp only [Except.bind, Streaming.Function.feed]
      rw [hfed]
      dsimp only
      rw [hfinish last]
      rfl

/-! ## Codes and signatures -/

/-- For codes, the comparison is one of bytes with the code. -/
theorem MacVerifierFor.decides (hv : MacVerifierFor k v) (hk : k.Kept st) (ha : Accounts st lent) :
    v.Decides st fun message signature => signature == Mac.hmac k.digest.hash k.bytes message := by
  obtain rfl := hv.made
  obtain ⟨serial, st', hb⟩ := hk.borrow ha
  have hdecides := decides_of_serves (v := ⟨.mac k.pool, .mac⟩) (serves_mac hk ha) ⟨_, st', hb⟩
  have hsame : (fun message signature => VerifyingScheme.mac.verify
      (Mac.hmac k.digest.hash k.bytes message) signature)
      = fun message signature => signature == Mac.hmac k.digest.hash k.bytes message := by
    funext message signature
    exact Bool.beq_comm
  rw [← hsame]
  exact hdecides

theorem MacSignerFor.signed (hs : MacSignerFor k s) (hk : k.Kept st) (ha : Accounts st lent)
    (h : Handing) : s.signed st h = .ok (Mac.hmac k.digest.hash k.bytes h.message) := by
  obtain rfl := hs.made
  obtain ⟨serial, st', hb⟩ := hk.borrow ha
  have hc : Serves st (Signer.source ⟨.mac k.pool, .mac, k.digest.outputSize⟩) _ := serves_mac hk ha
  rw [signed_of_serves hc, hb]
  rfl

theorem outputSize_pos (kind : Digest.Kind) : 0 < kind.outputSize := by cases kind <;> decide

/-- For curves it is the equation of the signature. -/
theorem VerifierFor.decides (hv : VerifierFor key kind form v) (hl : Lends kind st)
    (ha : Accounts st lent) : v.Decides st fun message signature =>
      (VerifyingScheme.ecdsa key form).verify (kind.digest message) signature := by
  obtain ⟨_, hsource, hscheme⟩ := hv.made
  have hc : Serves st v.source kind.digest := hsource ▸ serves_digest ha kind
  rw [← hscheme]
  exact decides_of_serves hc (hsource ▸ hl)

/-- What is accepted is a signature in the right form for which the equation holds. -/
theorem verify_eq_true_iff : (VerifyingScheme.ecdsa key form).verify digest signature = true
    ↔ ∃ sig, P256.Signature.ofBytes? form signature = some sig
      ∧ Curve.P256.verify key digest sig = true := by
  unfold VerifyingScheme.verify
  dsimp only
  cases P256.Signature.ofBytes? form signature <;> simp

theorem verifies (ha : Accounts st lent) : Verifies st where
  mac k v s hk hv hs := by
    refine ⟨Mac.hmac k.digest.hash k.bytes, hs.signed hk ha, fun message => ?_, hv.decides hk ha⟩
    obtain rfl := hs.made
    exact Mac.length_hmac k.digest k.bytes message
  one k v h hk hv := by
    have hyes : ∀ signature, v.verdict st signature h = .ok true
        ↔ signature = Mac.hmac k.digest.hash k.bytes h.message := by
      intro signature
      rw [(hv.decides hk ha).verdict]
      simp
    exact ⟨_, (hyes _).mpr rfl, fun other hother => (hyes other).mp hother⟩
  sized k v h signature hk hv hsize := by
    -- no code is empty, so the empty signature has the wrong length as well
    have hlength : signature.length ≠ k.digest.outputSize := by
      rcases hsize with hlength | rfl
      · exact hlength
      · exact Nat.ne_of_lt (outputSize_pos k.digest)
    have hne : signature ≠ Mac.hmac k.digest.hash k.bytes h.message := by
      rintro rfl
      exact hlength (Mac.length_hmac k.digest k.bytes h.message)
    rw [(hv.decides hk ha).verdict]
    simpa using hne
  ecdsa key kind form v hv hl :=
    ⟨_, hv.decides hl ha, fun _ _ => verify_eq_true_iff⟩
  malformed key kind form v h signature hv hl hnone := by
    rw [(hv.decides hl ha).verdict]
    unfold VerifyingScheme.verify
    dsimp only
    rw [hnone]
  kept k made later hlater :=
    ⟨fun _ _ _ hdecode => (kept_decode hdecode).continues hlater,
      fun _ _ _ hgenerate => (kept_generate hgenerate).continues hlater⟩
  supplied kind form made later hnone hlater key route changes o hmake hchosen := by
    rw [make_chosen rfl, hchosen] at hmake
    obtain ⟨_, _, hopen⟩ := openSha2_name hmake
    exact ((supplied_openDigestPool hnone hopen).continues hlater).lends
  reports around config initial o hconfig he shape := Session.reports_of_config hconfig he shape

end PooledCrypto.Provider

namespace PooledCrypto.Session

open Provider

/-- **Verification is total and exact.**

Start the provider in software on any executor, with pools of any capacity, and carry out any
commands. Every verifier that can borrow a context then comes to a verdict about every message and
any bytes that are given for a signature. With a MAC key it accepts the tag of the message and
nothing else, and with a public key nothing that is not a signature in its form. -/
theorem verification_decides (executor : Executor) (entropy : Entropy) (capacity : Nat)
    (commands : List Command) :
    Verifies
      (run commands (start (software (State.start executor entropy capacity)))).2.provider.state := by
  obtain ⟨lent, ha⟩ := accounts_run executor entropy capacity commands
  exact verifies ha

end PooledCrypto.Session
