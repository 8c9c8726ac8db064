import PooledCrypto.Curve.P256.Ecdsa
import PooledCrypto.Proofs.PublicPoints
import PooledCrypto.Proofs.TwoForms

/-!
# Signatures are accepted

A signature is a pair of residues `r` and `s` with `k * s = z + r * d`, where `z` is what is signed,
`d` the private key and `k` the secret number whose multiple of the base point has `r` for its first
coordinate. The verifier puts `z / s` times the base point and `r / s` times the public key together.
That is `(z + r * d) / s = k` times the base point again, so it finds the same `r` (`verify_of_sign`).

For whole operations two more things have to fit: what is signed is what is checked, and the form
that is read is the one that was written. The first one does not depend on how the message is handed
over, nor on what the contexts were used for before (`Completes`).
-/

namespace PooledCrypto.Curve.P256

variable {key nonce : PrivateKey} {pub : PublicKey} {digest : Bytes} {sig : Signature}

theorem residueClass_residue (n : Nat) : residueClass (residue n) = (n : ZMod groupOrder) :=
  residueClass_mk n _

theorem residueClass_residue_val (u : Residue) : (u.val : ZMod groupOrder) = residueClass u := rfl

theorem residue_val (u : Residue) : residue u.val = u := Fin.ext (Nat.mod_eq_of_lt u.isLt)

theorem residueClass_residue_inverse (u : Residue) :
    residueClass (Modular.inverse u) = (residueClass u)⁻¹ :=
  Modular.residueClass_inverse u (by decide) (by decide)

theorem residueClass_residue_ne_zero {n : Nat} (hpos : 0 < n) (hlt : n < groupOrder) :
    residueClass (residue n) ≠ 0 := by
  rw [residueClass_residue, Ne, ZMod.natCast_eq_zero_iff]
  exact Nat.not_dvd_of_pos_of_lt hpos hlt

/-- What the two halves of a signature are. -/
theorem signWith?_eq_some (h : signWith? key nonce digest = some sig) :
    residue sig.r = residue (Point.multiply nonce.scalar .base).first.val
      ∧ (nonce.scalar : ZMod groupOrder) * residueClass (residue sig.s)
        = residueClass (residueOf (prehash digest))
          + residueClass (residue sig.r) * (key.scalar : ZMod groupOrder) := by
  obtain ⟨hr, hs⟩ := Signature.ofPair?_eq_some_iff.mp h
  have hnonce : (nonce.scalar : ZMod groupOrder) ≠ 0 := by
    rw [← residueClass_residue]
    exact residueClass_residue_ne_zero nonce.scalar_pos nonce.scalar_lt
  rw [← hr, ← hs, residue_val, residue_val, residueClass_mul, residueClass_residue_inverse,
    residueClass_residue, mul_inv_cancel_left₀ hnonce, residueClass_add, residueClass_mul,
    residueClass_residue key.scalar]
  exact ⟨rfl, rfl⟩

/-- The sum that a verifier computes, for the public key of a private key. -/
theorem add_multiply (h : key.publicKey? = some pub) (u₁ u₂ : Residue) :
    (Point.multiply u₁.val .base).add (Point.multiply u₂.val pub.point)
      = pointOf ((u₁.val + u₂.val * key.scalar) • generator) := by
  rw [multiply_base u₁.isLt, ← pub.pointOf_element,
    multiply_pointOf (Nat.lt_trans u₂.isLt (by decide)), add_pointOf,
    PrivateKey.publicKey?_iff_element.mp h, ← mul_nsmul', ← add_nsmul]

/-- A signature that is made with some secret number is accepted. -/
theorem verify_of_signWith? (hpub : key.publicKey? = some pub)
    (h : signWith? key nonce digest = some sig) : verify pub digest sig = true := by
  obtain ⟨hr, hs⟩ := signWith?_eq_some h
  have hsig : residueClass (residue sig.s) ≠ 0 :=
    residueClass_residue_ne_zero sig.s_range.1 sig.s_range.2
  unfold verify
  dsimp only
  generalize hu₁ : residueOf (prehash digest) * Modular.inverse (residue sig.s) = u₁
  generalize hu₂ : residue sig.r * Modular.inverse (residue sig.s) = u₂
  have hnonce : (u₁.val + u₂.val * key.scalar) • generator = nonce.scalar • generator := by
    rw [nsmul_generator_eq_iff, Nat.cast_add, Nat.cast_mul, residueClass_residue_val,
      residueClass_residue_val, ← hu₁, ← hu₂, residueClass_mul, residueClass_mul,
      residueClass_residue_inverse, mul_right_comm, ← add_mul, ← hs,
      mul_inv_cancel_right₀ hsig]
  rw [add_multiply hpub, hnonce, ← multiply_base nonce.scalar_lt, hr]
  exact beq_self_eq_true _

/-- A signature that is given was made with the secret number that was derived. -/
theorem signWith?_of_sign (h : sign key digest = .ok sig) :
    ∃ nonce, signWith? key nonce digest = some sig := by
  unfold sign at h
  cases hmade : sign? key digest with
  | none =>
      rw [hmade] at h
      exact absurd h (by simp)
  | some made =>
      rw [hmade] at h
      obtain rfl := Except.ok.inj h
      obtain ⟨nonce, _, hwith⟩ := Option.bind_eq_some_iff.mp hmade
      exact ⟨nonce, hwith⟩

/-- A signature is accepted under the public key that belongs to the private key. -/
theorem verify_of_sign (hpub : key.publicKey? = some pub) (h : sign key digest = .ok sig) :
    verify pub digest sig = true := by
  obtain ⟨nonce, hwith⟩ := signWith?_of_sign h
  exact verify_of_signWith? hpub hwith

end PooledCrypto.Curve.P256

namespace PooledCrypto.Provider

open Curve (P256.PublicKey P256.PrivateKey P256.KeyPair P256.Point P256.Signature)
open Parameters (SignatureForm)

/-- How one comes by the public key of a private key. -/
inductive Matches (key : P256.PrivateKey) : P256.PublicKey → Prop
  /-- It was imported from bytes that the decoder takes for the public point. -/
  | imported {pub : P256.PublicKey} {curve : Curve} {format : KeyFormat} {bytes : Bytes}
      (read : decodePublicKey curve format bytes = .ok pub)
      (point : pub.point = P256.Point.multiply key.scalar .base) : Matches key pub
  /-- It was generated together with the private key. -/
  | generated {pair : P256.KeyPair} (own : pair.privateKey = key) : Matches key pair.publicKey

/-- What is signed in the first state is accepted in the second one. -/
structure Completes (st st' : State) : Prop where
  /-- Every private key has a public key, to be imported from any of its encodings. -/
  matched : ∀ key, ∃ pub, Matches key pub
    ∧ ∀ bytes, pub.Encodes bytes → decodePublicKey .p256 .raw bytes = .ok pub
  /-- There are a signer and a verifier of the two for every digest of the SHA-2 family and each
  form. -/
  offered : ∀ (kind : Digest.Kind) (form : SignatureForm), kind.isSha2 = true →
    (∀ key, ∃ s, SignerFor key kind form s) ∧ ∀ pub, ∃ v, VerifierFor pub kind form v
  /-- Whatever the signer gave for a message is accepted, however the message was handed over to
  either. -/
  accepted : ∀ (kind : Digest.Kind) (form : SignatureForm) (key : P256.PrivateKey)
    (pub : P256.PublicKey) (s : Signer) (v : Verifier) (h h' : Handing) (signature : Bytes),
    Matches key pub → SignerFor key kind form s → VerifierFor pub kind form v →
    h.message = h'.message → s.signed st h = .ok signature → Lends kind st' →
      v.verdict st' signature h' = .ok true
        ∧ (v.verifyOrFail h'.message signature st').1 = .ok ()
  /-- It is never turned down: a verifier without a context says nothing at all. -/
  never_rejected : ∀ (kind : Digest.Kind) (form : SignatureForm) (key : P256.PrivateKey)
    (pub : P256.PublicKey) (s : Signer) (v : Verifier) (h h' : Handing) (signature : Bytes),
    Matches key pub → SignerFor key kind form s → VerifierFor pub kind form v →
    h.message = h'.message → s.signed st h = .ok signature →
      v.verdict st' signature h' ≠ .ok false
  /-- In whichever shape the two are called, if both calls are answered the verdict is yes. -/
  answered : ∀ (kind : Digest.Kind) (form : SignatureForm) (key : P256.PrivateKey)
    (pub : P256.PublicKey) (signing : Operation Signer) (verifying : Operation Verifier)
    (shape shape' : Shape) (message signature : Bytes) (verdict : Bool),
    Matches key pub → SignerFor key kind form signing.core →
    VerifierFor pub kind form verifying.core →
    (signing.call shape (signing.core.sign message) st).1 = .ok signature →
    (verifying.call shape' (verifying.core.verify message signature) st').1 = .ok verdict →
      verdict = true
  /-- A verifier that is made for a digest without a pool has contexts from then on. -/
  supplied : ∀ (kind : Digest.Kind) (form : SignatureForm) (made later : State),
    st'.pools.find? kind.name = none → made.Continues later →
      ∀ pub route changes o, (Verifier.ofPublicKey pub).make route changes st' = (.ok o, made) →
        chosen route changes = ⟨kind.name, form⟩ → Lends kind later

variable {kind : Digest.Kind} {form : SignatureForm} {st st' : State} {lent lent' : List Loan}
  {s : Signer} {v : Verifier} {signature digest bytes : Bytes} {key : P256.PrivateKey}
  {pub : P256.PublicKey} {h : Handing}

theorem decodePublicKey_eq_ok_iff {curve : Curve} {format : KeyFormat} :
    decodePublicKey curve format bytes = .ok pub
      ↔ curve = .p256 ∧ format = .raw ∧ P256.PublicKey.ofBytes bytes = .ok pub := by
  cases curve <;> cases format <;>
    simp [decodePublicKey, requireP256, requireRaw, bind, Except.bind]

theorem matches_iff : Matches key pub ↔ key.publicKey? = some pub := by
  constructor
  · rintro (⟨_, hpoint⟩ | ⟨rfl⟩)
    · exact P256.PrivateKey.publicKey?_eq_some_iff.mpr hpoint
    · exact P256.KeyPair.belongs _
  · intro hpub
    have hread : P256.PublicKey.ofBytes pub.toBytes = .ok pub :=
      P256.PublicKey.ofBytes_of_encodes .full
    exact .imported (decodePublicKey_eq_ok_iff.mpr ⟨rfl, rfl, hread⟩)
      (P256.PrivateKey.publicKey?_eq_some_iff.mp hpub)

/-- A signature that was given is a form of two numbers that the private key signed the digest with. -/
theorem SigningScheme.of_sign_ok (h : (SigningScheme.ecdsa key form).sign digest = .ok signature) :
    ∃ sig, Curve.P256.sign key digest = .ok sig ∧ signature = sig.toBytes form := by
  cases hsig : Curve.P256.sign key digest with
  | ok sig =>
      rw [sign_of_ok hsig] at h
      exact ⟨sig, rfl, (Except.ok.inj h).symm⟩
  | error e =>
      rw [sign_of_error hsig] at h
      exact absurd h (by simp)

/-- What a signer gave is a signature of the message's digest. -/
theorem SignerFor.of_signed (ha : Accounts st lent) (hs : SignerFor key kind form s)
    (h : Handing) (hsigned : s.signed st h = .ok signature) :
    ∃ sig, Curve.P256.sign key (kind.digest h.message) = .ok sig
      ∧ signature = sig.toBytes form := by
  obtain ⟨_, hsource, hscheme⟩ := hs.made
  rw [signed_eq ha hsource, hscheme] at hsigned
  cases hb : (borrow (.digest kind) st).1 with
  | error f =>
      rw [hb] at hsigned
      exact absurd hsigned (by simp [Except.bind])
  | ok loan =>
      rw [hb] at hsigned
      cases hsign : (SigningScheme.ecdsa key form).sign (kind.digest h.message) with
      | error e =>
          rw [hsign] at hsigned
          exact absurd hsigned (by simp [Except.bind, Except.mapError])
      | ok out =>
          rw [hsign] at hsigned
          obtain rfl : out = signature := Except.ok.inj hsigned
          exact SigningScheme.of_sign_ok hsign

theorem verifyOrFail_of_verdict {message : Bytes}
    (h : v.verdict st signature (.whole message) = .ok true) :
    (v.verifyOrFail message signature st).1 = .ok () := by
  unfold Verifier.verifyOrFail
  rw [Action.fst_bind]
  rcases hv : v.verify message signature st with ⟨result, after⟩
  obtain rfl : result = .ok true := (congrArg Prod.fst hv).symm.trans h
  rfl

/-- A verifier that can borrow a context accepts what the signer gave. -/
theorem verdict_of_signed {g : Handing} (ha : Accounts st lent) (ha' : Accounts st' lent')
    (hmatch : Matches key pub) (hs : SignerFor key kind form s) (hv : VerifierFor pub kind form v)
    (hsame : h.message = g.message) (hsigned : s.signed st h = .ok signature)
    (hl : Lends kind st') : v.verdict st' signature g = .ok true := by
  obtain ⟨sig, hsig, hform⟩ := hs.of_signed ha h hsigned
  have hvalid := Curve.P256.verify_of_sign (matches_iff.mp hmatch) hsig
  rw [hsame] at hvalid
  exact (accepts_iff ha' hv hl g).mpr ⟨sig, hform, hvalid⟩

/-- A verdict that was reached about it is yes. -/
theorem eq_true_of_verdict {g : Handing} {verdict : Bool} (ha : Accounts st lent)
    (ha' : Accounts st' lent') (hmatch : Matches key pub) (hs : SignerFor key kind form s)
    (hv : VerifierFor pub kind form v) (hsame : h.message = g.message)
    (hsigned : s.signed st h = .ok signature) (hverdict : v.verdict st' signature g = .ok verdict) :
    verdict = true := by
  have hl := lends_of_verdict ha' hv.made.2.1 hverdict
  have hyes := verdict_of_signed ha ha' hmatch hs hv hsame hsigned hl
  exact Except.ok.inj (hverdict.symm.trans hyes)

theorem completes (ha : Accounts st lent) (ha' : Accounts st' lent') : Completes st st' where
  matched key := by
    obtain ⟨pub, hpub⟩ := key.exists_publicKey
    refine ⟨pub, matches_iff.mpr hpub, fun bytes hb => ?_⟩
    exact decodePublicKey_eq_ok_iff.mpr ⟨rfl, rfl, P256.PublicKey.ofBytes_of_encodes hb⟩
  offered kind form hsha :=
    ⟨fun key => (signer_offered key kind form).mpr hsha,
      fun pub => (verifier_offered pub kind form).mpr hsha⟩
  accepted kind form key pub s v h h' signature hmatch hs hv hsame hsigned hl := by
    refine ⟨verdict_of_signed ha ha' hmatch hs hv hsame hsigned hl, verifyOrFail_of_verdict ?_⟩
    exact verdict_of_signed (g := .whole h'.message) ha ha' hmatch hs hv hsame hsigned hl
  never_rejected kind form key pub s v h h' signature hmatch hs hv hsame hsigned hno := by
    -- a verdict that is given is the right one, also when the pool had to fail before
    have hyes := eq_true_of_verdict ha ha' hmatch hs hv hsame hsigned hno
    exact absurd hyes (by decide)
  answered kind form key pub signing verifying shape shape' message signature verdict hmatch hs hv
      hsigned hverdict :=
    eq_true_of_verdict (h := .whole message) (g := .whole message) ha ha' hmatch hs hv rfl
      (call_ok hsigned) (call_ok hverdict)
  supplied kind form made later hnone hlater pub route changes o hmake hchosen := by
    rw [make_chosen rfl, hchosen] at hmake
    obtain ⟨_, _, hopen⟩ := openSha2_name hmake
    exact ((supplied_openDigestPool hnone hopen).continues hlater).lends

end PooledCrypto.Provider

namespace PooledCrypto.Session

open Provider

/-- **What is signed is accepted.**

Start two providers in software on any executors, with pools of any capacity, and carry out any
commands with each; or take one provider at two moments. Whatever a signer of a private key gives in
the one state, in one call or chunk by chunk, is accepted in the other by every verifier of its public
key that was made for the same digest and form. -/
theorem signatures_accepted (executor executor' : Executor) (entropy entropy' : Entropy)
    (capacity capacity' : Nat) (commands commands' : List Command) :
    Completes
      (run commands (start (software (State.start executor entropy capacity)))).2.provider.state
      (run commands'
        (start (software (State.start executor' entropy' capacity')))).2.provider.state := by
  obtain ⟨lent, ha⟩ := accounts_run executor entropy capacity commands
  obtain ⟨lent', ha'⟩ := accounts_run executor' entropy' capacity' commands'
  exact completes ha ha'

end PooledCrypto.Session
