import PooledCrypto.Proofs.Isolation
import PooledCrypto.Proofs.KeyPools
import PooledCrypto.Proofs.SignatureForms

/-!
# One scheme in two forms

Signers and verifiers of a key are made for a digest and a form. The form is a matter of writing
only: what is signed, and what is checked, are the two numbers of a signature. `TwoForms` says so for
whole operations, of which one works on the raw form and the other one on the sequence, each in a
state and with a way to hand over the message of its own.

An operation needs a context of its digest. `Lends` is for states in which there is one to be had; in
all others every call fails and so nothing is signed or accepted. Contexts are to be had from the
moment an operation opens the pool of its digest (`Supplied`), unless somebody else made a pool of
that name before.
-/

namespace PooledCrypto.Provider

open Curve (P256.PublicKey P256.PrivateKey P256.Signature)
open Curve.P256.Signature (Recoded)
open Parameters (SignatureForm)

/-! ## Operations and messages -/

/-- How a message is handed over: in one call, or in chunks and a last one. -/
inductive Handing
  | whole (message : Bytes)
  | chunks (front : List Bytes) (last : Bytes)

/-- What is handed over. -/
def Handing.message : Handing → Bytes
  | .whole message => message
  | .chunks front last => front.flatten ++ last

/-- What a signer gives for a message. -/
def Signer.signed (s : Signer) (st : State) : Handing → Except Failure Bytes
  | .whole message => (s.sign message st).1
  | .chunks front last =>
    (s.start st).1.bind fun f => ((f.feed front last).1.map Prod.snd).mapError Failure.error

/-- What a verifier says about a signature of a message. -/
def Verifier.verdict (v : Verifier) (st : State) (signature : Bytes) : Handing → Except Failure Bool
  | .whole message => (v.verify message signature st).1
  | .chunks front last =>
    (v.start signature st).1.bind fun f =>
      ((f.feed front last).1.map Prod.snd).mapError Failure.error

/-- The parameters that a factory with the usual defaults makes an operation with. -/
def chosen (route : Factory.Route) (changes : Parameters.Ecdsa → Parameters.Ecdsa) :
    Parameters.Ecdsa :=
  match route with
  | .create => Parameters.defaults
  | _ => changes Parameters.defaults

/-- The signer was made with the private key for a digest and a form, in whatever state. -/
def SignerFor (key : P256.PrivateKey) (kind : Digest.Kind) (form : SignatureForm) (s : Signer) :
    Prop :=
  ∃ route changes st o st', (Signer.ofPrivateKey key).make route changes st = (.ok o, st')
    ∧ chosen route changes = ⟨kind.name, form⟩ ∧ o.core = s

/-- The verifier was made with the public key for a digest and a form, in whatever state. -/
def VerifierFor (key : P256.PublicKey) (kind : Digest.Kind) (form : SignatureForm) (v : Verifier) :
    Prop :=
  ∃ route changes st o st', (Verifier.ofPublicKey key).make route changes st = (.ok o, st')
    ∧ chosen route changes = ⟨kind.name, form⟩ ∧ o.core = v

/-- A context of the digest can be borrowed. -/
def Lends (kind : Digest.Kind) (st : State) : Prop :=
  ∃ loan st', borrow (.digest kind) st = (.ok loan, st')

/-- Exactly one byte string has the property. -/
def Only (p : Bytes → Prop) : Prop := ∃ bytes, p bytes ∧ ∀ other, p other → other = bytes

/-- The raw form, in the first state, and the sequence, in the second one, are two forms of one
scheme. -/
structure TwoForms (st st' : State) : Prop where
  /-- For each digest of the SHA-2 family and each form there are a signer of every private key and
  a verifier of every public key, and none for other digests. -/
  offered : ∀ (kind : Digest.Kind) (form : SignatureForm),
    (∀ key, (∃ s, SignerFor key kind form s) ↔ kind.isSha2 = true)
      ∧ ∀ key, (∃ v, VerifierFor key kind form v) ↔ kind.isSha2 = true
  /-- Both signers write the same two numbers for a message, or have none to write for the same
  reason. -/
  signs : ∀ (kind : Digest.Kind) (key : P256.PrivateKey) (raw der : Signer) (h h' : Handing),
    SignerFor key kind .raw raw → SignerFor key kind .der der → h.message = h'.message →
    Lends kind st → Lends kind st' →
      (∃ a b, raw.signed st h = .ok a ∧ der.signed st' h' = .ok b ∧ Recoded a b)
        ∨ ∃ e, raw.signed st h = .error (.error e) ∧ der.signed st' h' = .error (.error e)
  /-- Any bytes whatever are accepted as a sequence exactly if they are the sequence of two numbers
  that are accepted in raw form. -/
  verifies : ∀ (kind : Digest.Kind) (key : P256.PublicKey) (raw der : Verifier) (h h' : Handing)
    (signature : Bytes), VerifierFor key kind .raw raw → VerifierFor key kind .der der →
    h.message = h'.message → Lends kind st → Lends kind st' →
      (der.verdict st' signature h' = .ok true
        ↔ ∃ bytes, Recoded bytes signature ∧ raw.verdict st bytes h = .ok true)
  /-- Nothing but 64 bytes is accepted in raw form. -/
  length : ∀ (kind : Digest.Kind) (key : P256.PublicKey) (raw : Verifier) (h : Handing)
    (signature : Bytes), VerifierFor key kind .raw raw →
    raw.verdict st signature h = .ok true → signature.length = 64
  /-- What is accepted in raw form has just one sequence that is accepted. -/
  one_sequence : ∀ (kind : Digest.Kind) (key : P256.PublicKey) (raw der : Verifier)
    (h h' : Handing) (signature : Bytes), VerifierFor key kind .raw raw →
    VerifierFor key kind .der der → h.message = h'.message → Lends kind st' →
    raw.verdict st signature h = .ok true →
      Only fun other => Recoded signature other ∧ der.verdict st' other h' = .ok true
  /-- What is accepted as a sequence has just one raw form that is accepted. -/
  one_raw : ∀ (kind : Digest.Kind) (key : P256.PublicKey) (raw der : Verifier)
    (h h' : Handing) (signature : Bytes), VerifierFor key kind .raw raw →
    VerifierFor key kind .der der → h.message = h'.message → Lends kind st →
    der.verdict st' signature h' = .ok true →
      Only fun other => Recoded other signature ∧ raw.verdict st other h = .ok true
  /-- An operation that is made for a digest without a pool opens one, and there are contexts to be
  had from then on. -/
  opens : ∀ (kind : Digest.Kind) (form : SignatureForm) (made later : State),
    st.pools.find? kind.name = none → made.Continues later →
      (∀ key route changes o, (Signer.ofPrivateKey key).make route changes st = (.ok o, made) →
        chosen route changes = ⟨kind.name, form⟩ → Lends kind later)
      ∧ ∀ key route changes o, (Verifier.ofPublicKey key).make route changes st = (.ok o, made) →
        chosen route changes = ⟨kind.name, form⟩ → Lends kind later
  /-- With a context to be had a verifier comes to a verdict about any bytes. -/
  decides : ∀ (kind : Digest.Kind) (key : P256.PublicKey) (form : SignatureForm) (v : Verifier)
    (h : Handing) (signature : Bytes), VerifierFor key kind form v → Lends kind st →
      ∃ verdict, v.verdict st signature h = .ok verdict
  /-- Without one nothing is signed, and nothing is accepted. -/
  refuses : ∀ (kind : Digest.Kind) (form : SignatureForm) (h : Handing), ¬ Lends kind st →
    (∀ key s, SignerFor key kind form s → ∃ f, s.signed st h = .error f)
      ∧ ∀ key v signature, VerifierFor key kind form v → ∃ f, v.verdict st signature h = .error f

variable {kind : Digest.Kind} {form : SignatureForm} {st st' : State} {lent lent' : List Loan}
  {s : Signer} {v : Verifier} {signature digest : Bytes}

/-! ## What is made -/

theorem make_chosen {ο : Type} {f : Factory State Parameters.Ecdsa ο} {route : Factory.Route}
    {changes : Parameters.Ecdsa → Parameters.Ecdsa} (hd : f.defaults = Parameters.defaults) :
    f.make route changes st = f.construct (chosen route changes) st := by
  cases route with
  | create => exact congrArg (fun p => f.construct p st) hd
  | configure => exact congrArg (fun p => f.construct (changes p) st) hd
  | createWith => exact congrArg (fun p => f.construct (changes p) st) hd
  | withDefaults => exact congrArg (fun p => f.construct (changes p) st) hd

/-- What is made for the name of a digest is made for that digest, and its pool is opened. -/
theorem openSha2_name {κ : Type} {core : Digest.Kind → κ} {o : Operation κ}
    (h : (do
      let kind ← Action.ofExcept (requireSha2 Algorithm.ecdsa kind.name)
      openDigestPool kind
      Operation.make (core kind)) st = (.ok o, st')) :
    kind.isSha2 = true ∧ o.core = core kind ∧ openDigestPool kind st = (.ok (), st') := by
  obtain ⟨own, s₁, hown, h⟩ := Action.bind_eq_ok h
  obtain ⟨_, s₂, hopen, hmake⟩ := Action.bind_eq_ok h
  obtain rfl := Except.ok.inj (congrArg Prod.fst hmake)
  obtain rfl : s₂ = st' := congrArg Prod.snd hmake
  obtain ⟨hname, rfl⟩ := Action.ofExcept_eq_ok hown
  have hsha : kind.isSha2 = true := by
    unfold requireSha2 at hname
    rw [Digest.Kind.ofName?_name] at hname
    by_cases hk : kind.isSha2 = true
    · exact hk
    · exact absurd hname (by simp [hk])
  rw [requireSha2_name _ hsha] at hname
  obtain rfl := Except.ok.inj hname
  exact ⟨hsha, rfl, hopen⟩

/-- In a new state without idle contexts there is always room for a pool. -/
theorem openSha2_succeeds {κ : Type} (core : Digest.Kind → κ) (hsha : kind.isSha2 = true) :
    ∃ o st', (do
      let kind ← Action.ofExcept (requireSha2 Algorithm.ecdsa kind.name)
      openDigestPool kind
      Operation.make (core kind)) (State.start .inPlace (.seeded []) 0) = (.ok o, st') := by
  rw [requireSha2_name _ hsha]
  cases kind with
  | sha256 => exact ⟨_, _, rfl⟩
  | sha384 => exact ⟨_, _, rfl⟩
  | sha512 => exact ⟨_, _, rfl⟩
  | _ => exact absurd hsha (by decide)

theorem SignerFor.made {key : P256.PrivateKey} (h : SignerFor key kind form s) :
    kind.isSha2 = true ∧ s.source = .digest kind ∧ s.scheme = .ecdsa key form := by
  obtain ⟨route, changes, st, o, st', hmake, hchosen, rfl⟩ := h
  rw [make_chosen rfl, hchosen] at hmake
  obtain ⟨hsha, hcore, _⟩ := openSha2_name hmake
  rw [hcore]
  exact ⟨hsha, rfl, rfl⟩

theorem VerifierFor.made {key : P256.PublicKey} (h : VerifierFor key kind form v) :
    kind.isSha2 = true ∧ v.source = .digest kind ∧ v.scheme = .ecdsa key form := by
  obtain ⟨route, changes, st, o, st', hmake, hchosen, rfl⟩ := h
  rw [make_chosen rfl, hchosen] at hmake
  obtain ⟨hsha, hcore, _⟩ := openSha2_name hmake
  rw [hcore]
  exact ⟨hsha, rfl, rfl⟩

/-- There is a signer for the digests of SHA-2 and for no others. -/
theorem signer_offered (key : P256.PrivateKey) (kind : Digest.Kind) (form : SignatureForm) :
    (∃ s, SignerFor key kind form s) ↔ kind.isSha2 = true := by
  constructor
  · rintro ⟨s, h⟩
    exact h.made.1
  · intro hsha
    obtain ⟨o, st', ho⟩ := openSha2_succeeds
      (fun kind => (⟨.digest kind, .ecdsa key form, P256.Signature.maxSize form⟩ : Signer)) hsha
    exact ⟨o.core, .configure, fun _ => ⟨kind.name, form⟩, _, o, st', ho, rfl, rfl⟩

/-- The same digests have verifiers. -/
theorem verifier_offered (key : P256.PublicKey) (kind : Digest.Kind) (form : SignatureForm) :
    (∃ v, VerifierFor key kind form v) ↔ kind.isSha2 = true := by
  constructor
  · rintro ⟨v, h⟩
    exact h.made.1
  · intro hsha
    obtain ⟨o, st', ho⟩ := openSha2_succeeds
      (fun kind => (⟨.digest kind, .ecdsa key form⟩ : Verifier)) hsha
    exact ⟨o.core, .configure, fun _ => ⟨kind.name, form⟩, _, o, st', ho, rfl, rfl⟩

/-! ## Contexts to be had -/

/-- The digest has a pool whose factory never fails. -/
def Supplied (kind : Digest.Kind) (st : State) : Prop :=
  ∃ pool, st.pools.pool? kind.name .digest = some pool ∧ ∀ k, ∃ c, pool.factory k = .ok c

theorem Supplied.continues (h : Supplied kind st) (hc : st.Continues st') : Supplied kind st' := by
  obtain ⟨pool, hpool, hfactory⟩ := h
  obtain ⟨later, hlater, hsame⟩ := hc.digest kind.name pool hpool
  exact ⟨later, hlater, hsame.symm ▸ hfactory⟩

theorem Supplied.lends (h : Supplied kind st) : Lends kind st := by
  obtain ⟨pool, hpool, hfactory⟩ := h
  have hout : ∃ handle pool', pool.checkout = (.ok handle, pool') := by
    rcases Pool.checkout_cases pool with ⟨_, _, _, hout⟩ | ⟨_, _, _, hout⟩ | ⟨_, e, he, _⟩
    · exact ⟨_, _, hout⟩
    · exact ⟨_, _, hout⟩
    · obtain ⟨c, hc⟩ := hfactory (pool.attempts + 1)
      exact absurd (hc.symm.trans he) (by simp)
  obtain ⟨handle, pool', hout⟩ := hout
  have hcheckout : checkout (.digest kind) st = (.ok (.digest kind.name handle),
      { st with pools := st.pools.replace kind.name .digest pool' }) := by
    rw [checkout_digest hpool, hout]
    rfl
  exact ⟨_, _, Action.bind_of_ok hcheckout⟩

/-- Opening makes the pool of a digest that has none. -/
theorem supplied_openDigestPool (hnone : st.pools.find? kind.name = none)
    (h : openDigestPool kind st = (.ok (), st')) : Supplied kind st' := by
  unfold openDigestPool at h
  rcases hout : st.pools.getOrCreate kind.name .digest HandleType.digest.size
    (fun _ => .ok (Digest.Context.fresh kind)) with ⟨result, pools⟩
  rw [hout] at h
  obtain ⟨rfl, rfl⟩ := Prod.mk.inj h
  rcases Pool.Directory.getOrCreate_cases st.pools kind.name .digest HandleType.digest.size
    (fun _ => .ok (Digest.Context.fresh kind)) with hsame | ⟨_, hadded⟩
  · -- nothing was made, but what was asked for without an error is there
    have hfound := Pool.Directory.pool?_getOrCreate (congrArg Prod.fst hout)
    rw [hsame, Pool.Directory.pool?, hnone] at hfound
    exact absurd hfound (by simp)
  · rw [hout] at hadded
    obtain rfl := hadded
    exact ⟨_, Pool.Directory.pool?_added_self hnone, fun _ => ⟨_, rfl⟩⟩

/-! ## What is computed

However the message is handed over, the scheme works on what a context computes of all of it. The only
other thing that matters is whether a context could be borrowed. -/

/-- What is borrowed from the source computes the code of what it takes in. -/
def Serves (st : State) (source : Source) (code : Bytes → Bytes) : Prop :=
  ∀ loan st', borrow source st = (.ok loan, st') → ∀ (front : List Bytes) (last : Bytes),
    ((front.foldl (fun loan chunk => loan.update chunk) loan).update last).finish.1
      = code (front.flatten ++ last)

/-- Whatever a digest's pool went through before, it serves the plain digest. -/
theorem serves_digest (ha : Accounts st lent) (kind : Digest.Kind) :
    Serves st (.digest kind) kind.digest := by
  intro loan st' hb front last
  have htook := (Session.took_foldl front loan [] (borrow_ok ha hb).2).update last
  exact htook.finish_digest

section

variable {κ ω : Type} [Streaming.Core κ Unit ω] {source : Source} {result : Bytes → Except Error ω}
  {wrap : Loan → κ} {whole : Bytes → Action State ω} {start : Action State (Streaming.Function κ)}
  {code : Bytes → Bytes}

/-- A context of the source reduces a message, in one call or chunk by chunk, and the rest is done
with what it computed. A streaming function keeps the context `wrap`ped. -/
structure Reduces (source : Source) (result : Bytes → Except Error ω) (wrap : Loan → κ)
    (whole : Bytes → Action State ω) (start : Action State (Streaming.Function κ)) : Prop where
  whole : ∀ message, whole message = do
    let computed ← compute source message
    Action.ofExcept (result computed)
  start : start = do
    let loan ← borrow source
    return .start (wrap loan)
  update : ∀ loan chunk,
    Streaming.Core.update (wrap loan) chunk = (.ok (), wrap (loan.update chunk))
  finish : ∀ loan last,
    (Streaming.Core.finish (wrap loan) last).1 = result (loan.update last).finish.1

/-- A call that could borrow a context comes to the result of the code. -/
theorem Reduces.fst_whole (hr : Reduces source result wrap whole start)
    (hc : Serves st source code) (message : Bytes) :
    (whole message st).1 = (borrow source st).1.bind fun _ =>
      (result (code message)).mapError Failure.error := by
  rw [hr.whole, Action.fst_bind]
  rcases compute_cases source message st with ⟨f, s₁, hb, hout⟩ | ⟨loan, s₁, hb, hout⟩
  · rw [hb, hout]
    rfl
  · have hcode : (loan.update message).finish.1 = code message := hc loan s₁ hb [] message
    rw [hb, hout]
    dsimp only [Except.bind]
    rw [Action.ofExcept_apply, hcode]

theorem Reduces.updateAll (hr : Reduces source result wrap whole start) (chunks : List Bytes)
    (loan : Loan) :
    (Streaming.Function.start (wrap loan)).updateAll chunks = (.ok (chunks.map fun _ => ()),
      .start (wrap (chunks.foldl (fun loan chunk => loan.update chunk) loan))) := by
  induction chunks generalizing loan with
  | nil => rfl
  | cons chunk rest ih =>
      have hupdate : (Streaming.Function.start (wrap loan)).update chunk
          = (.ok (), .start (wrap (loan.update chunk))) := by
        rw [Streaming.Function.start, Streaming.Function.update_opened, hr.update]
        rfl
      rw [Streaming.Function.updateAll, hupdate]
      dsimp only
      rw [ih]
      rfl

/-- A function with a context takes any chunks, and comes to the result of their code. -/
theorem Reduces.fed (hr : Reduces source result wrap whole start) (hc : Serves st source code)
    {loan : Loan} (hb : borrow source st = (.ok loan, st')) (chunks : List Bytes) :
    ∃ fed : Streaming.Function κ,
      (Streaming.Function.start (wrap loan)).updateAll chunks = (.ok (chunks.map fun _ => ()), fed)
        ∧ (∀ last, (fed.finish last).1 = result (code (chunks.flatten ++ last)))
        ∧ fed.complete.1 = result (code chunks.flatten) := by
  refine ⟨_, hr.updateAll chunks loan, ?_⟩
  have hfinish : ∀ last, ((Streaming.Function.start (wrap (chunks.foldl
      (fun loan chunk => loan.update chunk) loan))).finish last).1
        = result (code (chunks.flatten ++ last)) := by
    intro last
    rw [Streaming.Function.start, Streaming.Function.finish_opened, hr.finish,
      hc loan st' hb chunks last]
  refine ⟨hfinish, ?_⟩
  -- to end without a last chunk is to end with an empty one
  have hempty := hfinish []
  rwa [List.append_nil] at hempty

/-- A function that could borrow a context comes to the result of the code as well. -/
theorem Reduces.fst_fed (hr : Reduces source result wrap whole start) (hc : Serves st source code)
    (front : List Bytes) (last : Bytes) :
    ((start st).1.bind fun f => ((f.feed front last).1.map Prod.snd).mapError Failure.error)
      = (borrow source st).1.bind fun _ =>
        (result (code (front.flatten ++ last))).mapError Failure.error := by
  rw [hr.start, Action.fst_bind]
  rcases hb : borrow source st with ⟨f | loan, s₁⟩
  · rfl
  · obtain ⟨fed, hfed, hfinish, -⟩ := hr.fed hc hb front
    dsimp only [Except.bind]
    rw [Action.pure_apply]
    dsimp only
    rw [Streaming.Function.feed, hfed]
    dsimp only
    rw [hfinish last]
    cases result (code (front.flatten ++ last)) <;> rfl

/-- A signer signs the digest of the message, given at once or in chunks. -/
theorem reduces_sign (s : Signer) :
    Reduces s.source s.scheme.sign (fun loan => (⟨loan, s.scheme⟩ : Signing)) s.sign s.start where
  whole _ := rfl
  start := rfl
  update _ _ := rfl
  finish _ _ := rfl

/-- A verifier checks the signature against the digest of the message. -/
theorem reduces_verify (v : Verifier) (signature : Bytes) :
    Reduces v.source (fun code => .ok (v.scheme.verify code signature))
      (fun loan => (⟨loan, v.scheme, signature⟩ : Verifying))
      (fun message => v.verify message signature) (v.start signature) where
  whole _ := rfl
  start := rfl
  update _ _ := rfl
  finish _ _ := rfl

theorem signed_of_serves (hc : Serves st s.source code) (h : Handing) :
    s.signed st h = (borrow s.source st).1.bind fun _ =>
      (s.scheme.sign (code h.message)).mapError Failure.error := by
  cases h with
  | whole message => exact (reduces_sign s).fst_whole hc message
  | chunks front last => exact (reduces_sign s).fst_fed hc front last

theorem verdict_of_serves (hc : Serves st v.source code) (signature : Bytes) (h : Handing) :
    v.verdict st signature h = (borrow v.source st).1.bind fun _ =>
      .ok (v.scheme.verify (code h.message) signature) := by
  cases h with
  | whole message => exact (reduces_verify v signature).fst_whole hc message
  | chunks front last => exact (reduces_verify v signature).fst_fed hc front last

end

theorem signed_eq (ha : Accounts st lent) (hs : s.source = .digest kind) (h : Handing) :
    s.signed st h = (borrow (.digest kind) st).1.bind fun _ =>
      (s.scheme.sign (kind.digest h.message)).mapError Failure.error := by
  have hc : Serves st s.source kind.digest := hs ▸ serves_digest ha kind
  rw [signed_of_serves hc, hs]

theorem verdict_eq (ha : Accounts st lent) (hv : v.source = .digest kind) (signature : Bytes)
    (h : Handing) :
    v.verdict st signature h = (borrow (.digest kind) st).1.bind fun _ =>
      .ok (v.scheme.verify (kind.digest h.message) signature) := by
  have hc : Serves st v.source kind.digest := hv ▸ serves_digest ha kind
  rw [verdict_of_serves hc, hv]

theorem signed_of_lends (ha : Accounts st lent) (hs : s.source = .digest kind)
    (hl : Lends kind st) (h : Handing) :
    s.signed st h = (s.scheme.sign (kind.digest h.message)).mapError Failure.error := by
  obtain ⟨loan, s₁, hb⟩ := hl
  rw [signed_eq ha hs, hb]
  rfl

theorem verdict_of_lends (ha : Accounts st lent) (hv : v.source = .digest kind)
    (hl : Lends kind st) (signature : Bytes) (h : Handing) :
    v.verdict st signature h = .ok (v.scheme.verify (kind.digest h.message) signature) := by
  obtain ⟨loan, s₁, hb⟩ := hl
  rw [verdict_eq ha hv, hb]
  rfl

/-- Without a context to lend, borrowing fails. -/
theorem borrow_of_not_lends (hn : ¬ Lends kind st) :
    ∃ f, (borrow (.digest kind) st).1 = .error f := by
  rcases hb : borrow (.digest kind) st with ⟨f | loan, s₁⟩
  · exact ⟨f, rfl⟩
  · exact absurd ⟨loan, s₁, hb⟩ hn

/-- A verdict that was reached took a context. -/
theorem lends_of_verdict {verdict : Bool} {h : Handing} (ha : Accounts st lent)
    (hv : v.source = .digest kind) (hok : v.verdict st signature h = .ok verdict) :
    Lends kind st := by
  rw [verdict_eq ha hv] at hok
  rcases hb : borrow (.digest kind) st with ⟨f | loan, s₁⟩
  · rw [hb] at hok
    exact absurd hok (by simp [Except.bind])
  · exact ⟨loan, s₁, hb⟩

/-! ## What is accepted -/

theorem sign_of_ok {key : P256.PrivateKey} {sig : P256.Signature}
    (h : Curve.P256.sign key digest = .ok sig) :
    (SigningScheme.ecdsa key form).sign digest = .ok (sig.toBytes form) := by
  unfold SigningScheme.sign
  dsimp only
  rw [h]
  rfl

theorem sign_of_error {key : P256.PrivateKey} {e : Error}
    (h : Curve.P256.sign key digest = .error e) :
    (SigningScheme.ecdsa key form).sign digest = .error e := by
  unfold SigningScheme.sign
  dsimp only
  rw [h]
  rfl

/-- What is accepted is a form of numbers that belong to the digest. -/
theorem verify_ecdsa_iff {key : P256.PublicKey} :
    (VerifyingScheme.ecdsa key form).verify digest signature = true
      ↔ ∃ sig : P256.Signature, signature = sig.toBytes form
          ∧ Curve.P256.verify key digest sig = true := by
  unfold VerifyingScheme.verify
  dsimp only
  constructor
  · intro h
    split at h
    · rename_i sig hread
      exact ⟨sig, P256.Signature.ofBytes?_eq_some_iff.mp hread, h⟩
    · exact absurd h (by simp)
  · rintro ⟨sig, hform, hvalid⟩
    rw [P256.Signature.ofBytes?_eq_some_iff.mpr hform]
    exact hvalid

/-- A verifier accepts the forms of the numbers that belong to the message. -/
theorem accepts_iff {key : P256.PublicKey} (ha : Accounts st lent)
    (hv : VerifierFor key kind form v) (hl : Lends kind st) (h : Handing) :
    v.verdict st signature h = .ok true
      ↔ ∃ sig : P256.Signature, signature = sig.toBytes form
          ∧ Curve.P256.verify key (kind.digest h.message) sig = true := by
  obtain ⟨_, hsource, hscheme⟩ := hv.made
  rw [verdict_of_lends ha hsource hl, hscheme, ← verify_ecdsa_iff]
  exact ⟨Except.ok.inj, congrArg Except.ok⟩

/-! ## The two forms -/

theorem twoForms (ha : Accounts st lent) (ha' : Accounts st' lent') : TwoForms st st' where
  offered kind form :=
    ⟨fun key => signer_offered key kind form, fun key => verifier_offered key kind form⟩
  signs kind key raw der h h' hraw hder hsame hl hl' := by
    obtain ⟨_, hsource, hscheme⟩ := hraw.made
    obtain ⟨_, hsource', hscheme'⟩ := hder.made
    rw [signed_of_lends ha hsource hl, signed_of_lends ha' hsource' hl', hscheme, hscheme', hsame]
    -- one signature is behind both forms, for signing is a function of key and digest
    cases hsig : Curve.P256.sign key (kind.digest h'.message) with
    | ok sig =>
        left
        rw [sign_of_ok hsig, sign_of_ok hsig]
        exact ⟨_, _, rfl, rfl, sig.recoded⟩
    | error e =>
        right
        rw [sign_of_error hsig, sign_of_error hsig]
        exact ⟨e, rfl, rfl⟩
  verifies kind key raw der h h' signature hraw hder hsame hl hl' := by
    rw [accepts_iff ha' hder hl', ← hsame]
    constructor
    · rintro ⟨sig, rfl, hvalid⟩
      exact ⟨sig.toRaw, sig.recoded, (accepts_iff ha hraw hl h).mpr ⟨sig, rfl, hvalid⟩⟩
    · rintro ⟨bytes, hrecoded, haccepted⟩
      obtain ⟨sig, rfl, hvalid⟩ := (accepts_iff ha hraw hl h).mp haccepted
      exact ⟨sig, P256.Signature.recoded_toRaw_iff.mp hrecoded, hvalid⟩
  length kind key raw h signature hraw haccepted := by
    have hl := lends_of_verdict ha hraw.made.2.1 haccepted
    obtain ⟨sig, rfl, _⟩ := (accepts_iff ha hraw hl h).mp haccepted
    exact (P256.Signature.isRaw_iff.mpr rfl).length
  one_sequence kind key raw der h h' signature hraw hder hsame hl' haccepted := by
    have hl := lends_of_verdict ha hraw.made.2.1 haccepted
    obtain ⟨sig, rfl, hvalid⟩ := (accepts_iff ha hraw hl h).mp haccepted
    rw [hsame] at hvalid
    refine ⟨sig.toDer, ⟨sig.recoded, ?_⟩, fun other hother => ?_⟩
    · exact (accepts_iff ha' hder hl' h').mpr ⟨sig, rfl, hvalid⟩
    · exact P256.Signature.recoded_toRaw_iff.mp hother.1
  one_raw kind key raw der h h' signature hraw hder hsame hl haccepted := by
    have hl' := lends_of_verdict ha' hder.made.2.1 haccepted
    obtain ⟨sig, rfl, hvalid⟩ := (accepts_iff ha' hder hl' h').mp haccepted
    rw [← hsame] at hvalid
    refine ⟨sig.toRaw, ⟨sig.recoded, ?_⟩, fun other hother => ?_⟩
    · exact (accepts_iff ha hraw hl h).mpr ⟨sig, rfl, hvalid⟩
    · obtain ⟨sig', rfl, _⟩ := (accepts_iff ha hraw hl h).mp hother.2
      have hsequence := P256.Signature.recoded_toRaw_iff.mp hother.1
      rw [P256.Signature.toDer_inj hsequence]
      rfl
  opens kind form made later hnone hlater := by
    constructor
    · intro key route changes o hmake hchosen
      rw [make_chosen rfl, hchosen] at hmake
      obtain ⟨_, _, hopen⟩ := openSha2_name hmake
      exact ((supplied_openDigestPool hnone hopen).continues hlater).lends
    · intro key route changes o hmake hchosen
      rw [make_chosen rfl, hchosen] at hmake
      obtain ⟨_, _, hopen⟩ := openSha2_name hmake
      exact ((supplied_openDigestPool hnone hopen).continues hlater).lends
  decides kind key form v h signature hv hl :=
    ⟨_, verdict_of_lends ha hv.made.2.1 hl signature h⟩
  refuses kind form h hn := by
    obtain ⟨f, hf⟩ := borrow_of_not_lends hn
    refine ⟨fun key s hs => ⟨f, ?_⟩, fun key v signature hv => ⟨f, ?_⟩⟩
    · rw [signed_eq ha hs.made.2.1, hf]
      rfl
    · rw [verdict_eq ha hv.made.2.1, hf]
      rfl

end PooledCrypto.Provider

namespace PooledCrypto.Session

open Provider

/-- The accounts of a run are kept by the ledger that watches it. -/
theorem accounts_run (executor : Executor) (entropy : Entropy) (capacity : Nat)
    (commands : List Command) :
    ∃ lent, Accounts
      (run commands (start (software (State.start executor entropy capacity)))).2.provider.state
      lent := by
  have hend := tracked_watch (tracked_start executor entropy capacity) commands
  have hsame := watch_session commands (start (software (State.start executor entropy capacity)))
    .blank
  rw [← hsame]
  exact ⟨_, hend.accounts⟩

/-- **Raw signatures and sequences are two forms of one scheme.**

Start two providers in software on any executors, with pools of any capacity, and carry out any
commands with each; or take one provider at two moments. Signers and verifiers of the raw form in the
one state and of the sequence in the other then agree on every digest, key and message, in one call or
chunk by chunk, and on any bytes that are given for a signature. -/
theorem signature_forms_agree (executor executor' : Executor) (entropy entropy' : Entropy)
    (capacity capacity' : Nat) (commands commands' : List Command) :
    TwoForms
      (run commands (start (software (State.start executor entropy capacity)))).2.provider.state
      (run commands'
        (start (software (State.start executor' entropy' capacity')))).2.provider.state := by
  obtain ⟨lent, ha⟩ := accounts_run executor entropy capacity commands
  obtain ⟨lent', ha'⟩ := accounts_run executor' entropy' capacity' commands'
  exact twoForms ha ha'

end PooledCrypto.Session
