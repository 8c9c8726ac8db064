import PooledCrypto.Proofs.Verdicts

/-!
# Declared sizes

Callers make room for what they ask for by the size that is declared for it, before there is
anything to measure. Hashers, signers of MAC keys and signers of the raw form declare what every
result measures, and so do agreements. Sequences of two integers vary in length. What is declared
for them is the longest that there can be: each number is below 2 to the power of 256 and may need
one byte more to clear the sign (`length_toDer_le`), and there are signatures that need all of it
(`exists_length_toDer_eq`).

Hashing and signing have one shape. A context reduces the message, and the rest is done with what it
computed (`Reduces`). So everything about them is shown once for whole messages, for either shape of
a call and for chunks (`Reduces.gives`, `Reduces.yields`).
-/

namespace PooledCrypto.Curve.P256.Signature

variable {sig : Signature}

/-! ## How long sequences are -/

/-- Two integers with two bytes of heading each, and two more for the sequence. -/
theorem length_toDer (sig : Signature) :
    sig.toDer.length = (content sig.r).length + (content sig.s).length + 6 := by
  show (integer sig.r ++ integer sig.s).length + 1 + 1 = _
  rw [List.length_append, length_integer, length_integer]
  omega

theorem length_toDer_le (sig : Signature) : sig.toDer.length ≤ 72 := by
  have hr := length_content_le sig.r_range.2
  have hs := length_content_le sig.s_range.2
  rw [length_toDer]
  omega

theorem length_toRaw (sig : Signature) : sig.toRaw.length = 64 := (isRaw_iff.mpr rfl).length

/-- The largest number in range takes 33 bytes. -/
theorem length_content_last : (content (groupOrder - 1)).length = 33 := by
  have hne : groupOrder - 1 ≠ 0 := by decide
  have hlog : (groupOrder - 1).log2 = 255 := by decide
  rw [content, if_neg hne, Bytes.length_ofNatBE, hlog]

/-- No smaller size would do. -/
theorem exists_length_toDer_eq : ∃ sig : Signature, sig.toDer.length = 72 := by
  have hlast : 0 < groupOrder - 1 ∧ groupOrder - 1 < groupOrder := by decide
  exact ⟨⟨groupOrder - 1, groupOrder - 1, hlast, hlast⟩, by rw [length_toDer, length_content_last]⟩

end PooledCrypto.Curve.P256.Signature

namespace PooledCrypto.Provider

open Curve (P256.PrivateKey P256.PublicKey P256.Signature P256.groupOrder)
open Curve.P256.Signature (IsDer)
open Parameters (SignatureForm)
open Session (Reports)

/-! ## What is declared -/

/-- The sizes of digests. -/
def digestSizes : Digest.Kind → Nat
  | .sha256 | .blake2s256 => 32
  | .sha384 => 48
  | .sha512 | .blake2b512 => 64

/-- The sizes of blocks. -/
def blockSizes : Digest.Kind → Nat
  | .sha256 | .blake2s256 => 64
  | .sha384 | .sha512 | .blake2b512 => 128

/-- The sizes of signatures by their form. -/
def signatureSizes : SignatureForm → Nat
  | .raw => 64
  | .der => 72

/-- A signature in raw form has the size that is declared, a sequence has it at most. -/
def Sized (form : SignatureForm) (size : Nat) (signature : Bytes) : Prop :=
  match form with
  | .raw => signature.length = size
  | .der => signature.length ≤ size

/-! ## Who declares it -/

/-- The hasher was made for the digest, in whatever state. -/
def HasherFor (kind : Digest.Kind) (h : Hasher) : Prop :=
  ∃ route changes st o st', (Hasher.factory kind).make route changes st = (.ok o, st') ∧ o.core = h

/-- The MAC key was imported or generated, on the way to the state. -/
inductive HmacKey.Known (k : HmacKey) (st : State) : Prop
  | imported {before made : State} {digest : String} {format : KeyFormat} {bytes : Bytes}
      (decoded : HmacKey.decode digest format bytes before = (.ok k, made))
      (later : made.Continues st)
  | generated {before made : State} {route : Factory.Route}
      {changes : Parameters.HmacKey → Parameters.HmacKey} {shape : Shape}
      (drawn : HmacKey.generate route changes shape before = (.ok k, made))
      (later : made.Continues st)

/-! ## What comes out -/

section

variable {ο κ : Type} [Streaming.Core κ Unit Bytes]

/-- Whatever is made of a message has the property: by a call, in the caller's place or on any
executor, or by a function that took the message chunk by chunk. -/
structure Yields (st : State) (core : ο) (whole : ο → Bytes → Action State Bytes)
    (start : ο → Action State (Streaming.Function κ)) (p : Bytes → Prop) : Prop where
  calls : ∀ (o : Operation ο) (shape : Shape) (message bytes : Bytes), o.core = core →
    (o.call shape (whole o.core message) st).1 = .ok bytes → p bytes
  functions : ∀ f st', start core st = (.ok f, st') → ∀ chunks outs fed,
    f.updateAll chunks = (.ok outs, fed) →
      (∀ last bytes, (fed.finish last).1 = .ok bytes → p bytes)
        ∧ ∀ bytes, fed.complete.1 = .ok bytes → p bytes

/-- What is made of a message is what the function says, in whatever way it is asked for. -/
structure Gives (st : State) (core : ο) (whole : ο → Bytes → Action State Bytes)
    (start : ο → Action State (Streaming.Function κ)) (result : Bytes → Except Error Bytes) :
    Prop where
  calls : ∀ (o : Operation ο) (shape : Shape) (message : Bytes), o.core = core → Reports o shape →
    (o.call shape (whole o.core message) st).1 = (result message).mapError .error
  functions : ∃ f st', start core st = (.ok f, st') ∧ ∀ chunks : List Bytes, ∃ fed,
    f.updateAll chunks = (.ok (chunks.map fun _ => ()), fed)
      ∧ (∀ last, (fed.finish last).1 = result (chunks.flatten ++ last))
      ∧ fed.complete.1 = result chunks.flatten

end

/-- Every size that is declared is that of what is given. -/
structure HonoursSizes (st : State) : Prop where
  /-- The tables are right about the hash functions. -/
  digests : ∀ (kind : Digest.Kind) (message : Bytes), (kind.digest message).length = kind.outputSize
    ∧ kind.outputSize = digestSizes kind ∧ kind.blockSize = blockSizes kind
  /-- Hashers declare the size of their digest. With a context to be had they give it for every
  message. -/
  hashes : ∀ (kind : Digest.Kind) (h : Hasher), HasherFor kind h → h.digestSize = kind.outputSize
    ∧ Yields st h Hasher.hash Hasher.start (fun bytes => bytes.length = h.digestSize)
    ∧ (Lends kind st →
        Gives st h Hasher.hash Hasher.start fun message => .ok (kind.digest message))
  /-- A hasher or a signer that is made for a digest without a pool has contexts from then on. -/
  supplied : ∀ (kind : Digest.Kind) (made later : State), st.pools.find? kind.name = none →
    made.Continues later →
      (∀ route changes o, (Hasher.factory kind).make route changes st = (.ok o, made) →
        Lends kind later)
      ∧ ∀ key form route changes o,
          (Signer.ofPrivateKey key).make route changes st = (.ok o, made) →
          chosen route changes = ⟨kind.name, form⟩ → Lends kind later
  /-- Signers of a MAC key declare the size of its digest, and give a code for every message. -/
  codes : ∀ (k : HmacKey) (s : Signer), k.Known st → MacSignerFor k s →
    s.signatureSize = k.digest.outputSize
    ∧ Yields st s Signer.sign Signer.start (fun bytes => bytes.length = s.signatureSize)
    ∧ Gives st s Signer.sign Signer.start fun message =>
        .ok (Mac.hmac k.digest.hash k.bytes message)
  /-- Signers of a private key declare the size of their form. With a context to be had they give
  what is signed for every message. -/
  signatures : ∀ (key : P256.PrivateKey) (kind : Digest.Kind) (form : SignatureForm) (s : Signer),
    SignerFor key kind form s → s.signatureSize = signatureSizes form
    ∧ Yields st s Signer.sign Signer.start (Sized form s.signatureSize)
    ∧ (Lends kind st → Gives st s Signer.sign Signer.start fun message =>
        (Curve.P256.sign key (kind.digest message)).map fun sig => sig.toBytes form)
  /-- Any two numbers in range have one sequence, which takes 72 bytes at most. -/
  sequences : ∀ r s : Nat, 0 < r ∧ r < P256.groupOrder → 0 < s ∧ s < P256.groupOrder →
    ∃ bytes, IsDer r s bytes ∧ (∀ other, IsDer r s other → other = bytes) ∧ bytes.length ≤ 72
  /-- And some take 72 bytes. -/
  longest : ∃ (sig : P256.Signature) (bytes : Bytes), IsDer sig.r sig.s bytes ∧ bytes.length = 72
  /-- Whoever gets a secret gets as many bytes as the agreement declares. -/
  secrets : ∀ (o : Operation Agreement) (shape : Shape) (peer : Peer) (secret : Bytes),
    (Agreement.exchange o shape peer st).1 = .ok secret →
      secret.length = o.core.secretSize ∧ o.core.secretSize = 32
  /-- With a peer that shows a point there is a secret to get. -/
  shared : ∀ (key : P256.PrivateKey) (o : Operation Agreement) (shape : Shape) (peer : Peer)
    (pub : P256.PublicKey), AgreementFor key o → Reports o shape → peer.Shows pub →
      ∃ secret, (Agreement.exchange o shape peer st).1 = .ok secret
  /-- A generated MAC key is as long as a block of the digest that was chosen for it, or as long as
  was asked for. -/
  generated : ∀ route changes shape (k : HmacKey) st',
    HmacKey.generate route changes shape st = (.ok k, st') →
      k.digest.name = (wanted route changes).digest
        ∧ ((wanted route changes).keySize = none → k.bytes.length = k.digest.blockSize)
        ∧ ∀ bits, (wanted route changes).keySize = some bits →
            k.bytes.length = bits / 8 ∧ 8 * k.bytes.length = bits
  /-- It is generated if its digest is of the SHA-2 family, its length is a positive number of whole
  bytes, there is room, and the source works. -/
  generates : ∀ (kind : Digest.Kind) route changes shape, kind.isSha2 = true →
    (wanted route changes).digest = kind.name →
    (∀ bits, (wanted route changes).keySize = some bits →
      0 < bits ∧ bits % 8 = 0 ∧ bits / 8 ≤ Room.most) →
    st.pools.capacity * macContextSize ≤ Room.most → st.entropy.Works →
    Reports (⟨(), st.executor⟩ : Operation Unit) shape →
      ∃ k st', HmacKey.generate route changes shape st = (.ok k, st')

variable {st st' : State} {lent : List Loan}

/-! ## Messages that a context reduces -/

section

variable {ο κ : Type} [Streaming.Core κ Unit Bytes] {core : ο} {source : Source}
  {result : Bytes → Except Error Bytes} {wrap : Loan → κ}
  {whole : ο → Bytes → Action State Bytes} {start : ο → Action State (Streaming.Function κ)}
  {code : Bytes → Bytes} {p : Bytes → Prop}

/-- Where a context can be had, what is computed of it is known for every way to hand a message
over. -/
theorem Reduces.gives (hr : Reduces source result wrap (whole core) (start core))
    (hc : Serves st source code) (hl : ∃ loan st', borrow source st = (.ok loan, st')) :
    Gives st core whole start fun message => result (code message) where
  calls o shape message hcore hreports := by
    obtain ⟨loan, s₁, hb⟩ := hl
    have hwhole := hr.fst_whole hc message
    rw [hb] at hwhole
    rw [hcore]
    exact Session.fst_call_of_result hreports hwhole
  functions := by
    obtain ⟨loan, s₁, hb⟩ := hl
    refine ⟨_, s₁, ?_, hr.fed hc hb⟩
    rw [hr.start, Action.bind_of_ok hb]
    rfl

/-- Whatever is true of what can be computed is true of what is answered. -/
theorem Reduces.yields (hr : Reduces source result wrap (whole core) (start core))
    (hc : Serves st source code)
    (hp : ∀ message bytes, result (code message) = .ok bytes → p bytes) :
    Yields st core whole start p where
  calls o shape message bytes hcore hok := by
    have hwhole := call_ok hok
    rw [hcore, hr.fst_whole hc] at hwhole
    rcases hb : borrow source st with ⟨f | loan, s₁⟩
    · rw [hb] at hwhole
      exact absurd hwhole (by simp [Except.bind])
    · -- what the caller got is the result, and no error
      rw [hb] at hwhole
      refine hp message bytes ?_
      cases hresult : result (code message) with
      | ok out =>
          rw [hresult] at hwhole
          exact congrArg Except.ok (Except.ok.inj hwhole)
      | error e =>
          rw [hresult] at hwhole
          exact absurd hwhole (by simp [Except.bind, Except.mapError])
  functions f st' hstart chunks outs fed hfed := by
    rw [hr.start] at hstart
    obtain ⟨loan, s₁, hb, hpure⟩ := Action.bind_eq_ok hstart
    obtain rfl := Except.ok.inj (congrArg Prod.fst hpure)
    obtain ⟨fed', hfed', hfinish, hcomplete⟩ := hr.fed hc hb chunks
    -- it took the chunks, as it takes any
    obtain rfl : fed' = fed := congrArg Prod.snd (hfed'.symm.trans hfed)
    constructor
    · intro last bytes hok
      rw [hfinish] at hok
      exact hp _ bytes hok
    · intro bytes hok
      rw [hcomplete] at hok
      exact hp _ bytes hok

end

theorem reduces_hash (h : Hasher) :
    Reduces (.digest h.kind) .ok id h.hash h.start where
  whole message := by
    funext st
    rcases hcompute : compute (.digest h.kind) message st with ⟨f | bytes, st'⟩
    · rw [Action.bind_of_error hcompute]
      exact hcompute
    · rw [Action.bind_of_ok hcompute]
      exact hcompute
  start := rfl
  update _ _ := rfl
  finish _ _ := rfl

/-! ## Hashers and signers -/

/-- Making a hasher opens the pool of its digest. -/
theorem makeHasher_ok {kind : Digest.Kind} {route : Factory.Route}
    {changes : Parameters.Empty → Parameters.Empty} {o : Operation Hasher}
    (h : (Hasher.factory kind).make route changes st = (.ok o, st')) :
    o.core = ⟨kind⟩ ∧ openDigestPool kind st = (.ok (), st') := by
  obtain ⟨p, hp⟩ := Factory.make_eq_ok h
  obtain ⟨_, s₁, hopen, hmake⟩ := Action.bind_eq_ok hp
  obtain rfl := Except.ok.inj (congrArg Prod.fst hmake)
  obtain rfl : s₁ = st' := congrArg Prod.snd hmake
  exact ⟨rfl, hopen⟩

theorem HasherFor.made {kind : Digest.Kind} {h : Hasher} (hmade : HasherFor kind h) :
    h = ⟨kind⟩ := by
  obtain ⟨route, changes, st, o, st', hmake, rfl⟩ := hmade
  exact (makeHasher_ok hmake).1

/-- What a signer announces is a matter of its form alone. -/
theorem SignerFor.signatureSize_eq {key : P256.PrivateKey} {kind : Digest.Kind}
    {form : SignatureForm} {s : Signer} (h : SignerFor key kind form s) :
    s.signatureSize = signatureSizes form := by
  obtain ⟨route, changes, st, o, st', hmake, hchosen, rfl⟩ := h
  rw [make_chosen rfl, hchosen] at hmake
  obtain ⟨_, hcore, _⟩ := openSha2_name hmake
  rw [hcore]
  cases form <;> rfl

theorem sized_toBytes (form : SignatureForm) (sig : P256.Signature) :
    Sized form (signatureSizes form) (sig.toBytes form) := by
  cases form with
  | raw => exact sig.length_toRaw
  | der => exact sig.length_toDer_le

/-- A signature that is given keeps to the size of its form. -/
theorem sized_of_sign {key : P256.PrivateKey} {form : SignatureForm} {digest bytes : Bytes}
    (h : (SigningScheme.ecdsa key form).sign digest = .ok bytes) :
    Sized form (signatureSizes form) bytes := by
  cases hsig : Curve.P256.sign key digest with
  | ok sig =>
      rw [sign_of_ok hsig] at h
      obtain rfl := Except.ok.inj h
      exact sized_toBytes form sig
  | error e =>
      rw [sign_of_error hsig] at h
      exact absurd h (by simp)

/-! ## MAC keys -/

theorem HmacKey.Known.kept {k : HmacKey} (h : k.Known st) : k.Kept st := by
  cases h with
  | imported decoded later => exact (kept_decode decoded).continues later
  | generated drawn later => exact (kept_generate drawn).continues later

variable {route : Factory.Route} {changes : Parameters.HmacKey → Parameters.HmacKey}
  {shape : Shape} {k : HmacKey}

/-- A key that is asked for properly is generated if the source works and there is room. -/
theorem generate_succeeds {kind : Digest.Kind} (hsha : kind.isSha2 = true)
    (hdigest : (wanted route changes).digest = kind.name)
    (hwhole : Whole (wanted route changes).keySize)
    (hlen : keyBytes kind (wanted route changes).keySize ≤ Room.most)
    (hroom : st.pools.capacity * macContextSize ≤ Room.most) (hworks : st.entropy.Works)
    (hr : Reports (⟨(), st.executor⟩ : Operation Unit) shape) :
    ∃ k st', HmacKey.generate route changes shape st = (.ok k, st') := by
  have hkind : requireSha2 Algorithm.hmac (wanted route changes).digest = .ok kind := by
    rw [hdigest, requireSha2_name _ hsha]
  have hmade : hmacGenerator.make route changes st
      = (.ok ⟨drawBytes (keyBytes kind (wanted route changes).keySize) >>= HmacKey.make kind,
        st.executor⟩, st) := by
    have hfirst : (Action.ofExcept (requireSha2 Algorithm.hmac (wanted route changes).digest) :
        Action State Digest.Kind) st = (.ok kind, st) := by
      rw [hkind]
      rfl
    rw [make_hmacGenerator, check_of_whole hwhole]
    exact Action.bind_of_ok hfirst
  -- the generator works in the state that it was made in
  obtain ⟨k, s₁, hwork⟩ : ∃ k s₁,
      (drawBytes (keyBytes kind (wanted route changes).keySize) >>= HmacKey.make kind) st
        = (.ok k, s₁) := by
    obtain ⟨bytes, entropy, hdraw, -⟩ := drawBytes_of_works hworks hlen
    have hreserve : Room.reserve (({ st with entropy } : State).pools.capacity * macContextSize)
        = .ok () := Room.reserve_eq_ok_iff.mpr hroom
    obtain ⟨s₁, hmake⟩ := makeHmacKey_succeeds hreserve kind bytes
    exact ⟨_, s₁, (Action.bind_of_ok hdraw).trans hmake⟩
  have hresult : ((drawBytes (keyBytes kind (wanted route changes).keySize)
      >>= HmacKey.make kind) st).1 = (.ok k : Except Error HmacKey).mapError .error :=
    congrArg Prod.fst hwork
  exact ⟨k, s₁, (Action.bind_of_ok hmade).trans
    ((Session.call_of_result hr hresult).trans hwork)⟩

/-! ## Tables and secrets -/

theorem digestSizes_eq (kind : Digest.Kind) : kind.outputSize = digestSizes kind := by
  cases kind <;> rfl

theorem blockSizes_eq (kind : Digest.Kind) : kind.blockSize = blockSizes kind := by
  cases kind <;> rfl

/-- Every number in range has one sequence, and it is short enough. -/
theorem sequence_of_range {r s : Nat} (hr : 0 < r ∧ r < P256.groupOrder)
    (hs : 0 < s ∧ s < P256.groupOrder) :
    ∃ bytes, IsDer r s bytes ∧ (∀ other, IsDer r s other → other = bytes) ∧ bytes.length ≤ 72 := by
  obtain ⟨sig, rfl, rfl⟩ : ∃ sig : P256.Signature, sig.r = r ∧ sig.s = s :=
    ⟨⟨r, s, hr, hs⟩, rfl, rfl⟩
  exact ⟨sig.toDer, Curve.P256.Signature.isDer_iff.mpr rfl,
    fun _ hother => Curve.P256.Signature.isDer_iff.mp hother, sig.length_toDer_le⟩

theorem length_agree (key : P256.PrivateKey) (pub : P256.PublicKey) :
    (key.agree pub).length = Curve.P256.scalarSize := Bytes.length_ofNatBE _ _

/-- The secret of a whole agreement is that of its multiplication. -/
theorem secret_of_exchange {o : Operation Agreement} {peer : Peer} {secret : Bytes}
    (h : (Agreement.exchange o shape peer st).1 = .ok secret) :
    secret.length = o.core.secretSize := by
  cases hencode : peer.encode with
  | error e =>
      rw [exchange_of_refusal hencode] at h
      exact absurd h (by simp)
  | ok raw =>
      -- whoever did the work, a secret is what was derived
      rw [exchange_of_encode hencode] at h
      have hderive := call_ok h
      rw [Action.ofExcept_apply, Agreement.derive] at hderive
      cases hread : P256.PublicKey.ofBytes raw with
      | error e =>
          rw [hread] at hderive
          exact absurd hderive (by simp [bind, Except.bind, Except.mapError])
      | ok pub =>
          rw [hread] at hderive
          obtain rfl := Except.ok.inj hderive
          exact length_agree o.core.key pub

/-! ## Every declared size is honoured -/

/-- A hasher announces the size of its digests, and gives them. -/
theorem hasher_honours (ha : Accounts st lent) {kind : Digest.Kind} {h : Hasher}
    (hmade : HasherFor kind h) :
    h.digestSize = kind.outputSize
      ∧ Yields st h Hasher.hash Hasher.start (fun bytes => bytes.length = h.digestSize)
      ∧ (Lends kind st →
          Gives st h Hasher.hash Hasher.start fun message => .ok (kind.digest message)) := by
  obtain rfl := hmade.made
  have hr := reduces_hash ⟨kind⟩
  have hc : Serves st (.digest kind) kind.digest := serves_digest ha kind
  refine ⟨rfl, hr.yields hc fun message bytes hok => ?_, fun hl => hr.gives hc hl⟩
  obtain rfl := Except.ok.inj hok
  exact kind.length_digest message

theorem macSigner_honours (ha : Accounts st lent) {s : Signer} (hk : k.Known st)
    (hmade : MacSignerFor k s) :
    s.signatureSize = k.digest.outputSize
      ∧ Yields st s Signer.sign Signer.start (fun bytes => bytes.length = s.signatureSize)
      ∧ Gives st s Signer.sign Signer.start fun message =>
          .ok (Mac.hmac k.digest.hash k.bytes message) := by
  obtain rfl := hmade.made
  have hkept := hk.kept
  have hr := reduces_sign ⟨.mac k.pool, .mac, k.digest.outputSize⟩
  have hc := serves_mac hkept ha
  obtain ⟨serial, s₁, hb⟩ := hkept.borrow ha
  refine ⟨rfl, hr.yields hc fun message bytes hok => ?_, hr.gives hc ⟨_, s₁, hb⟩⟩
  obtain rfl := Except.ok.inj hok
  exact Mac.length_hmac k.digest k.bytes message

/-- Signatures with curves keep within what is announced, for any digest. -/
theorem signer_honours (ha : Accounts st lent) {key : P256.PrivateKey} {kind : Digest.Kind}
    {form : SignatureForm} {s : Signer} (hmade : SignerFor key kind form s) :
    s.signatureSize = signatureSizes form
      ∧ Yields st s Signer.sign Signer.start (Sized form s.signatureSize)
      ∧ (Lends kind st → Gives st s Signer.sign Signer.start fun message =>
          (Curve.P256.sign key (kind.digest message)).map fun sig => sig.toBytes form) := by
  obtain ⟨_, hsource, hscheme⟩ := hmade.made
  have hsize := hmade.signatureSize_eq
  have hr := reduces_sign s
  rw [hsource, hscheme] at hr
  have hc : Serves st (.digest kind) kind.digest := serves_digest ha kind
  refine ⟨hsize, hr.yields hc fun message bytes hok => ?_, fun hl => ?_⟩
  · rw [hsize]
    exact sized_of_sign hok
  · have hgives := hr.gives hc hl
    exact hgives

theorem honoursSizes (ha : Accounts st lent) : HonoursSizes st where
  digests kind message := ⟨kind.length_digest message, digestSizes_eq kind, blockSizes_eq kind⟩
  hashes kind h hmade := hasher_honours ha hmade
  supplied kind made later hnone hlater := by
    refine ⟨fun route changes o hmake => ?_, fun key form route changes o hmake hchosen => ?_⟩
    · exact ((supplied_openDigestPool hnone (makeHasher_ok hmake).2).continues hlater).lends
    · rw [make_chosen rfl, hchosen] at hmake
      obtain ⟨_, _, hopen⟩ := openSha2_name hmake
      exact ((supplied_openDigestPool hnone hopen).continues hlater).lends
  codes k s hk hmade := macSigner_honours ha hk hmade
  signatures key kind form s hmade := signer_honours ha hmade
  sequences r s hr hs := sequence_of_range hr hs
  longest := by
    obtain ⟨sig, hsig⟩ := Curve.P256.Signature.exists_length_toDer_eq
    exact ⟨sig, sig.toDer, Curve.P256.Signature.isDer_iff.mpr rfl, hsig⟩
  secrets o shape peer secret h := ⟨secret_of_exchange h, rfl⟩
  shared key o shape peer pub hmade hr hshows := ⟨_, fst_exchange hmade hr hshows⟩
  generated route changes shape k st' h := by
    obtain ⟨hkind, hwhole, hlen, -⟩ := generate_ok h
    refine ⟨name_of_requireSha2 hkind, fun hnone => ?_, fun bits hbits => ?_⟩
    · rw [hlen, hnone]
      rfl
    -- a size in bits was checked to be whole bytes
    · have heq : k.bytes.length = bits / 8 := by
        rw [hlen, hbits]
        rfl
      have hmod := (hwhole bits hbits).2
      exact ⟨heq, by omega⟩
  generates kind route changes shape hsha hdigest hsize hroom hworks hr := by
    have hwhole : Whole (wanted route changes).keySize := fun bits hbits =>
      ⟨(hsize bits hbits).1, (hsize bits hbits).2.1⟩
    have hlen : keyBytes kind (wanted route changes).keySize ≤ Room.most :=
      keyBytes_le fun bits hbits => (hsize bits hbits).2.2
    exact generate_succeeds hsha hdigest hwhole hlen hroom hworks hr

end PooledCrypto.Provider

namespace PooledCrypto.Session

open Provider

/-- **Every size that is declared is honoured.**

Start the provider in software on any executor, with pools of any capacity, and carry out any
commands. Whatever hashers, signers and agreements then give, in one call, on an executor or chunk
by chunk, has the size that they declare, and the sequences among the signatures have it at most. -/
theorem declared_sizes_honoured (executor : Executor) (entropy : Entropy) (capacity : Nat)
    (commands : List Command) :
    let session := (run commands (start (software (State.start executor entropy capacity)))).2
    HonoursSizes session.provider.state := by
  intro session
  obtain ⟨lent, ha⟩ := accounts_run executor entropy capacity commands
  exact honoursSizes ha

end PooledCrypto.Session
