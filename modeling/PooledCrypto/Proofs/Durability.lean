import PooledCrypto.Proofs.Balance

/-!
# Work that finds no pool by name

Making an operation may open the pool of a digest. Apart from that, all that making keys and ciphers
and working with them does to the state is to draw random bytes and to make pools for MAC keys. A
property of the state that outlasts these two is `Durable`, and it outlasts all such work.
-/

namespace PooledCrypto.Provider

open PooledCrypto.Action (Keeps)

variable {α β κ : Type} {P : State → Prop} {work : Action State α}

/-- Drawing from the source of randomness and making the pool of a MAC key leave the property
alone. -/
structure Durable (P : State → Prop) : Prop where
  draw : ∀ s entropy, P s → P { s with entropy }
  openMacPool : ∀ kind key, Keeps P (openMacPool kind key)

/-- An operation is put together without looking at the state. -/
theorem keeps_operation (core : κ) : Keeps P (Operation.make core) := fun _ h => h

/-- Where the work is done makes no difference. -/
theorem keeps_call (hw : Keeps P work) (o : Operation κ) (shape : Shape) :
    Keeps P (o.call shape work) := by
  intro s h
  cases shape with
  | direct => exact hw s h
  | offloaded =>
      rw [Operation.call, offload_apply]
      dsimp only
      -- an executor that runs nothing leaves the state as it was
      split
      · exact hw s h
      · exact h

/-- The peer's key is exported and read; neither looks at the state. -/
theorem keeps_exchange (o : Operation Agreement) (shape : Shape) (peer : Peer) :
    Keeps P (Agreement.exchange o shape peer) :=
  (Action.keeps_ofExcept _).bind fun _ => keeps_call (Action.keeps_ofExcept _) o shape

/-- Making a generator and running it keeps what making it and what running it keep. -/
theorem keeps_generate {π : Type} [Parameters π] {f : Factory State π (KeyGenerator α)}
    (hf : ∀ p, Keeps P (f.construct p))
    (hcore : ∀ p s s' o, f.construct p s = (.ok o, s') → Keeps P o.core)
    (route : Factory.Route) (changes : π → π) (shape : Shape) :
    Keeps P (do
      let generator ← f.make route changes
      generator.call shape generator.core) := by
  intro s h
  have hmid := Factory.keeps_make hf route changes s h
  rcases hout : f.make route changes s with ⟨e | o, after⟩
  · rw [hout] at hmid
    rw [Action.bind_of_error hout]
    exact hmid
  · rw [hout] at hmid
    -- the generator that was made is one that was constructed, and so is what it runs
    obtain ⟨p, hp⟩ := Factory.make_eq_ok hout
    rw [Action.bind_of_ok hout]
    exact keeps_call (hcore p s after o hp) o shape after hmid

namespace Durable

variable (h : Durable P)
include h

/-- Whatever is drawn, and however often, no more than the source changes. -/
theorem drawing (draw : Entropy → Except Failure α × Entropy) : Keeps P (drawing draw) :=
  fun _ hs => h.draw _ _ hs

/-- A key gets a pool of its own. -/
theorem makeHmacKey (digest : Digest.Kind) (bytes : Bytes) : Keeps P (HmacKey.make digest bytes) :=
  (h.openMacPool digest bytes).bind fun _ => Action.keeps_pure _

/-- Importing a key checks it first, and then makes it as generating does. -/
theorem decodeHmacKey (digest : String) (format : KeyFormat) (bytes : Bytes) :
    Keeps P (HmacKey.decode digest format bytes) := by
  refine (Action.keeps_ofExcept _).bind fun kind => (Action.keeps_ofExcept _).bind fun _ => ?_
  split
  · exact (Action.keeps_fail _).bind fun _ => h.makeHmacKey kind bytes
  · exact h.makeHmacKey kind bytes

/-! ## Ciphers -/

/-- A nonce that is given is checked; one that is not is drawn. -/
theorem chooseNonce (c : Aead.Cipher) (nonce : Option Bytes) :
    Keeps P (Enciphering.chooseNonce c nonce) := by
  cases nonce with
  | some nonce => exact Action.keeps_ofExcept _
  | none => exact h.drawing _

/-- Once there is a nonce, encrypting does not look at the state. -/
theorem encryptBox (c : Aead.Cipher) (nonce : Option Bytes) (associated plaintext : Bytes) :
    Keeps P (Enciphering.encryptBox c nonce associated plaintext) :=
  (h.chooseNonce c nonce).bind fun _ => Action.keeps_ofExcept _

theorem startEncrypting (c : Aead.Cipher) (nonce : Option Bytes) (associated : Bytes) :
    Keeps P (Enciphering.startEncrypting c nonce associated) :=
  (h.chooseNonce c nonce).bind fun _ => Action.keeps_pure _

/-! ## Generating keys

A generator is constructed after checks alone. What it runs draws, and makes a key of what was
drawn. -/

/-- The only generator whose keys get a pool. -/
theorem generateHmac (route : Factory.Route) (changes : Parameters.HmacKey → Parameters.HmacKey)
    (shape : Shape) :
    Keeps P (do
      let generator ← hmacGenerator.make route changes
      generator.call shape generator.core) := by
  refine keeps_generate (fun p => ?_) (fun p s s' o ho => ?_) route changes shape
  · exact (Action.keeps_ofExcept _).bind fun _ => keeps_operation _
  · obtain ⟨kind, s₁, _, ho⟩ := Action.bind_eq_ok ho
    obtain rfl := Except.ok.inj (congrArg Prod.fst ho)
    exact (h.drawing _).bind fun bytes => h.makeHmacKey kind bytes

theorem generateAead (kind : Aead.Kind) (route : Factory.Route)
    (changes : Parameters.AeadKey → Parameters.AeadKey) (shape : Shape) :
    Keeps P (do
      let generator ← (aeadGenerator kind).make route changes
      generator.call shape generator.core) := by
  refine keeps_generate (fun p => ?_) (fun p s s' o ho => ?_) route changes shape
  · exact (Action.keeps_ofExcept _).bind fun _ => keeps_operation _
  · obtain ⟨_, s₁, _, ho⟩ := Action.bind_eq_ok ho
    obtain rfl := Except.ok.inj (congrArg Prod.fst ho)
    exact (h.drawing _).bind fun _ => Action.keeps_ofExcept _

theorem generatePair (route : Factory.Route) (changes : Parameters.EcKey → Parameters.EcKey)
    (shape : Shape) :
    Keeps P (do
      let generator ← keyPairGenerator.make route changes
      generator.call shape generator.core) := by
  refine keeps_generate (fun p => ?_) (fun p s s' o ho => ?_) route changes shape
  · exact (Action.keeps_ofExcept _).bind fun _ => keeps_operation _
  · obtain ⟨_, s₁, _, ho⟩ := Action.bind_eq_ok ho
    obtain rfl := Except.ok.inj (congrArg Prod.fst ho)
    exact h.drawing _

end Durable
end PooledCrypto.Provider
