import PooledCrypto.Proofs.Durability

/-!
# Pools stay what they are

A state changes all the time: pools are made, contexts are lent and come back, random bytes are
drawn. What stays are the pools themselves. A pool that is there once is there from then on, with the
factory that it was made with, and `State.Continues` says so of two states.

A context that is lent or comes back leaves another pool in the place of its own, and all others as
they are: the state `Exchanges` pools. Most work does not even touch the contexts. All that it does
is draw random bytes and make pools; such work `Opens` pools.
-/

namespace PooledCrypto.Provider

variable {α β κ : Type} {s s' s'' : State} {source : Source} {loan : Loan}

/-- The later state has the pools of the earlier one. -/
structure State.Continues (s s' : State) : Prop where
  capacity : s'.pools.capacity = s.pools.capacity
  digest : ∀ name pool, s.pools.pool? name .digest = some pool →
    ∃ pool', s'.pools.pool? name .digest = some pool' ∧ pool'.factory = pool.factory
  mac : ∀ (number : Nat) pool, s.macPools[number]? = some pool →
    ∃ pool', s'.macPools[number]? = some pool' ∧ pool'.factory = pool.factory

namespace State.Continues

theorem refl (s : State) : Continues s s where
  capacity := rfl
  digest _ pool hp := ⟨pool, hp, rfl⟩
  mac _ pool hp := ⟨pool, hp, rfl⟩

theorem trans (h : Continues s s') (h' : Continues s' s'') : Continues s s'' where
  capacity := h'.capacity.trans h.capacity
  digest name pool hp := by
    obtain ⟨mid, hmid, hf⟩ := h.digest name pool hp
    obtain ⟨last, hlast, hf'⟩ := h'.digest name mid hmid
    exact ⟨last, hlast, hf'.trans hf⟩
  mac number pool hp := by
    obtain ⟨mid, hmid, hf⟩ := h.mac number pool hp
    obtain ⟨last, hlast, hf'⟩ := h'.mac number mid hmid
    exact ⟨last, hlast, hf'.trans hf⟩

/-- A digest pool is exchanged for one with the same factory. -/
theorem set_digest {name : String} {old new : Pool Digest.Context}
    (hold : s.pools.pool? name .digest = some old) (hf : new.factory = old.factory) :
    Continues s { s with pools := s.pools.replace name .digest new } where
  capacity := rfl
  digest n pool hp := by
    by_cases hn : n = name
    · subst hn
      obtain rfl : old = pool := Option.some.inj (hold.symm.trans hp)
      exact ⟨new, Pool.Directory.pool?_replace_self hold, hf⟩
    · exact ⟨pool, (Pool.Directory.pool?_replace_ne hn).trans hp, rfl⟩
  mac _ pool hp := ⟨pool, hp, rfl⟩

/-- The pool of a MAC key is exchanged for one with the same factory. -/
theorem set_mac {number : Nat} {old new : Pool Mac.Context}
    (hold : s.macPools[number]? = some old) (hf : new.factory = old.factory) :
    Continues s { s with macPools := s.macPools.set number new } where
  capacity := rfl
  digest _ pool hp := ⟨pool, hp, rfl⟩
  mac i pool hp := by
    by_cases hi : i = number
    · subst hi
      obtain rfl : old = pool := Option.some.inj (hold.symm.trans hp)
      have hlt : i < s.macPools.length := (List.getElem?_eq_some_iff.mp hold).1
      exact ⟨new, by simp [hlt], hf⟩
    · exact ⟨pool, by simpa [List.getElem?_set_ne (Ne.symm hi)] using hp, rfl⟩

theorem getOrCreate (s : State) (name : String) (t : HandleType) (size : Nat)
    (factory : Nat → Except Error t.carrier) :
    Continues s { s with pools := (s.pools.getOrCreate name t size factory).2 } := by
  rcases Pool.Directory.getOrCreate_cases s.pools name t size factory with hsame | ⟨hnone, hadded⟩
  · rw [hsame]
    exact refl s
  · rw [hadded]
    refine ⟨rfl, ?_, fun _ pool hp => ⟨pool, hp, rfl⟩⟩
    intro n pool hp
    -- the name of the new pool had none, so no pool that was there has it
    have hn : n ≠ name := by
      rintro rfl
      rw [Pool.Directory.pool?, hnone] at hp
      exact absurd hp (by simp)
    exact ⟨pool, (Pool.Directory.pool?_added_ne hn).trans hp, rfl⟩

end State.Continues

open State (Continues)

/-! ## Contexts that are lent and come back -/

/-- The digest pool that a source is. -/
def Source.pool? : Source → Option String
  | .digest kind => some kind.name
  | .mac _ => none

/-- The digest pool that a loan is from. -/
def Loan.pool? : Loan → Option String
  | .digest pool _ => some pool
  | .mac _ _ => none

/-- The pool of a source is there. -/
def Source.Stands (s : State) : Source → Prop
  | .digest kind => (s.pools.pool? kind.name .digest).isSome = true
  | .mac number => (s.macPools[number]?).isSome = true

/-- A source that can be borrowed from stays one. -/
theorem Source.Stands.continues (hs : source.Stands s) (h : s.Continues s') :
    source.Stands s' := by
  cases source with
  | digest kind =>
      obtain ⟨pool, hpool⟩ := Option.isSome_iff_exists.mp hs
      obtain ⟨later, hlater, _⟩ := h.digest kind.name pool hpool
      exact Option.isSome_iff_exists.mpr ⟨later, hlater⟩
  | mac number =>
      obtain ⟨pool, hpool⟩ := Option.isSome_iff_exists.mp hs
      obtain ⟨later, hlater, _⟩ := h.mac number pool hpool
      exact Option.isSome_iff_exists.mpr ⟨later, hlater⟩

/-- Some pools are exchanged for others with the same factories: that of a digest with the name, or
without a name those of MAC keys. -/
inductive Exchanges (name? : Option String) (s : State) : State → Prop
  | refl : Exchanges name? s s
  | digest {s' : State} {name : String} {old new : Pool Digest.Context}
      (before : Exchanges name? s s') (own : name? = some name)
      (found : s'.pools.pool? name .digest = some old) (factory : new.factory = old.factory) :
      Exchanges name? s { s' with pools := s'.pools.replace name .digest new }
  | mac {s' : State} {number : Nat} {old new : Pool Mac.Context}
      (before : Exchanges name? s s') (own : name? = none)
      (found : s'.macPools[number]? = some old) (factory : new.factory = old.factory) :
      Exchanges name? s { s' with macPools := s'.macPools.set number new }

theorem Exchanges.trans {name? : Option String} (h : Exchanges name? s s')
    (h' : Exchanges name? s' s'') : Exchanges name? s s'' := by
  induction h' with
  | refl => exact h
  | digest _ own found factory ih => exact ih.digest own found factory
  | mac _ own found factory ih => exact ih.mac own found factory

/-- To exchange a pool for another of the same name takes nothing away. -/
theorem Exchanges.continues {name? : Option String} (h : Exchanges name? s s') :
    Continues s s' := by
  induction h with
  | refl => exact .refl s
  | digest _ _ found factory ih => exact ih.trans (.set_digest found factory)
  | mac _ _ found factory ih => exact ih.trans (.set_mac found factory)

/-- Who checks a context out has found the pool of the source, and the context is from there. -/
theorem of_checkout (hc : checkout source s = (.ok loan, s')) :
    source.Stands s ∧ loan.pool? = source.pool? := by
  cases source with
  | digest kind =>
      cases hpool : s.pools.pool? kind.name .digest with
      | none =>
          rw [checkout_digest_none hpool] at hc
          exact absurd (congrArg Prod.fst hc) (by simp)
      | some pool =>
          refine ⟨Option.isSome_iff_exists.mpr ⟨pool, hpool⟩, ?_⟩
          rw [checkout_digest hpool] at hc
          rcases hout : pool.checkout.1 with e | h
          · rw [hout] at hc
            exact absurd (congrArg Prod.fst hc) (by simp [Except.map])
          · rw [hout] at hc
            obtain rfl := Except.ok.inj (congrArg Prod.fst hc)
            rfl
  | mac number =>
      cases hpool : s.macPools[number]? with
      | none =>
          rw [checkout_mac_none hpool] at hc
          exact absurd (congrArg Prod.fst hc) (by simp)
      | some pool =>
          refine ⟨Option.isSome_iff_exists.mpr ⟨pool, hpool⟩, ?_⟩
          rw [checkout_mac hpool] at hc
          rcases hout : pool.checkout.1 with e | h
          · rw [hout] at hc
            exact absurd (congrArg Prod.fst hc) (by simp [Except.map])
          · rw [hout] at hc
            obtain rfl := Except.ok.inj (congrArg Prod.fst hc)
            rfl

/-- So has who borrows one, which is a checkout and a reset. -/
theorem of_borrow (hb : borrow source s = (.ok loan, s')) :
    source.Stands s ∧ loan.pool? = source.pool? := by
  obtain ⟨out, s₁, hc, hpure⟩ := Action.bind_eq_ok hb
  obtain rfl : out.reset = loan := Except.ok.inj (congrArg Prod.fst hpure)
  obtain ⟨hstands, hpool⟩ := of_checkout hc
  refine ⟨hstands, ?_⟩
  rw [← hpool]
  cases out <;> rfl

/-- Borrowing exchanges the pool of the source and no other, whether it succeeds or not. -/
theorem exchanges_borrow (source : Source) (s : State) :
    Exchanges source.pool? s (borrow source s).2 := by
  rw [snd_borrow]
  cases source with
  | digest kind =>
      cases hpool : s.pools.pool? kind.name .digest with
      | none =>
          rw [checkout_digest_none hpool]
          exact .refl
      | some pool =>
          rw [checkout_digest hpool]
          exact .digest .refl rfl hpool (Pool.factory_checkout pool)
  | mac number =>
      cases hpool : s.macPools[number]? with
      | none =>
          rw [checkout_mac_none hpool]
          exact .refl
      | some pool =>
          rw [checkout_mac hpool]
          exact .mac .refl rfl hpool (Pool.factory_checkout pool)

/-- Giving back exchanges the pool that the loan is from. -/
theorem exchanges_giveBack (s : State) (loan : Loan) :
    Exchanges loan.pool? s (s.giveBack loan) := by
  unfold State.giveBack
  cases loan with
  | digest name h =>
      dsimp only
      cases hpool : s.pools.pool? name .digest with
      | none => exact .refl
      | some pool => exact .digest .refl rfl hpool (Pool.factory_release pool h)
  | mac number h =>
      dsimp only
      cases hpool : s.macPools[number]? with
      | none => exact .refl
      | some pool => exact .mac .refl rfl hpool (Pool.factory_release pool h)

/-- A call borrows a context and gives it back to where it is from. -/
theorem exchanges_compute (source : Source) (data : Bytes) (s : State) :
    Exchanges source.pool? s (compute source data s).2 := by
  have hmid := exchanges_borrow source s
  rcases compute_cases source data s with ⟨f, s₁, hb, hout⟩ | ⟨loan, s₁, hb, hout⟩
  · rw [hb] at hmid
    rw [hout]
    exact hmid
  · rw [hb] at hmid
    have hback : (loan.update data).finish.2.pool? = source.pool? := by
      rw [← (of_borrow hb).2]
      cases loan <;> rfl
    rw [hout]
    exact hmid.trans (hback ▸ exchanges_giveBack s₁ _)

theorem continues_borrow (source : Source) (s : State) : Continues s (borrow source s).2 :=
  (exchanges_borrow source s).continues

/-! ## Work that touches no context -/

/-- Random bytes are drawn, and pools are made, as operations make them. -/
inductive Opens (s : State) : State → Prop
  | refl : Opens s s
  | draw {s' : State} (entropy : Entropy) : Opens s s' → Opens s { s' with entropy }
  | digest {s' : State} (kind : Digest.Kind) : Opens s s' → Opens s (openDigestPool kind s').2
  | mac {s' : State} (kind : Digest.Kind) (key : Bytes) :
      Opens s s' → Opens s (openMacPool kind key s').2

theorem continues_openMacPool (kind : Digest.Kind) (key : Bytes) (s : State) :
    Continues s (openMacPool kind key s).2 := by
  unfold openMacPool Pool.reserve
  cases Room.reserve (s.pools.capacity * macContextSize) with
  | error f => exact .refl s
  | ok u =>
      refine ⟨rfl, fun _ pool hp => ⟨pool, hp, rfl⟩, fun number pool hp => ⟨pool, ?_, rfl⟩⟩
      have hlt : number < s.macPools.length := (List.getElem?_eq_some_iff.mp hp).1
      exact (List.getElem?_append_left hlt).trans hp

/-- Opening pools only adds to what is there. -/
theorem Opens.continues (h : Opens s s') : Continues s s' := by
  induction h with
  | refl => exact .refl s
  | draw entropy _ ih => exact ⟨ih.capacity, ih.digest, ih.mac⟩
  | digest kind _ ih => exact ih.trans (.getOrCreate _ _ _ _ _)
  | mac kind key _ ih => exact ih.trans (continues_openMacPool kind key _)

/-- Nothing is lent or taken back on the way. -/
theorem Opens.accounts {lent : List Loan} (h : Opens s s') (ha : Accounts s lent) :
    Accounts s' lent := by
  induction h with
  | refl => exact ha
  | draw entropy _ ih => exact ⟨ih.digest, ih.mac, ih.home⟩
  | digest kind _ ih => exact balanced_openDigestPool kind lent _ ih
  | mac kind key _ ih => exact balanced_openMacPool kind key lent _ ih

/-- Work that opens pools, however it ends. -/
def Opening (work : Action State α) : Prop := ∀ s, Action.Keeps (Opens s) work

variable {work : Action State α} {next : α → Action State β}

/-- Who opens pools borrows nothing from them. -/
theorem Opening.balanced (hw : Opening work) : Balanced work :=
  fun _ s ha => (hw s s .refl).accounts ha

theorem opening_pure (x : α) : Opening (pure x : Action State α) := fun _ => Action.keeps_pure x

theorem opening_ofExcept (r : Except Error α) : Opening (Action.ofExcept r) :=
  fun _ => Action.keeps_ofExcept r

theorem Opening.bind (hw : Opening work) (hn : ∀ x, Opening (next x)) : Opening (work >>= next) :=
  fun s => (hw s).bind fun x => hn x s

theorem opening_make (core : κ) : Opening (Operation.make core) := fun _ _ h => h

theorem opening_openDigestPool (kind : Digest.Kind) : Opening (openDigestPool kind) :=
  fun _ _ h => .digest kind h

/-- Neither draws nor new key pools touch a name that is there, so opening outlasts them. -/
theorem durable_opens (s : State) : Durable (Opens s) where
  draw _ entropy h := .draw entropy h
  openMacPool kind key _ h := .mac kind key h

/-- Where the work is done makes no difference. -/
theorem Opening.call (hw : Opening work) (o : Operation κ) (shape : Shape) :
    Opening (o.call shape work) :=
  fun s => keeps_call (hw s) o shape

theorem opening_factory {π : Type} [Parameters π] {f : Factory State π κ}
    (hf : ∀ p, Opening (f.construct p)) (route : Factory.Route) (changes : π → π) :
    Opening (f.make route changes) :=
  fun s => Factory.keeps_make (fun p => hf p s) route changes

theorem opening_decodeHmacKey (digest : String) (format : KeyFormat) (bytes : Bytes) :
    Opening (HmacKey.decode digest format bytes) :=
  fun s => (durable_opens s).decodeHmacKey digest format bytes

theorem opening_encryptBox (c : Aead.Cipher) (nonce : Option Bytes)
    (associated plaintext : Bytes) :
    Opening (Enciphering.encryptBox c nonce associated plaintext) :=
  fun s => (durable_opens s).encryptBox c nonce associated plaintext

theorem opening_startEncrypting (c : Aead.Cipher) (nonce : Option Bytes) (associated : Bytes) :
    Opening (Enciphering.startEncrypting c nonce associated) :=
  fun s => (durable_opens s).startEncrypting c nonce associated

/-- An agreement takes no context, on whatever executor it is made. -/
theorem opening_exchange (o : Operation Agreement) (shape : Shape) (peer : Peer) :
    Opening (Agreement.exchange o shape peer) :=
  fun _ => keeps_exchange o shape peer

theorem opening_generateHmac (route : Factory.Route)
    (changes : Parameters.HmacKey → Parameters.HmacKey) (shape : Shape) :
    Opening (do
      let generator ← hmacGenerator.make route changes
      generator.call shape generator.core) :=
  fun s => (durable_opens s).generateHmac route changes shape

theorem opening_generateAead (kind : Aead.Kind) (route : Factory.Route)
    (changes : Parameters.AeadKey → Parameters.AeadKey) (shape : Shape) :
    Opening (do
      let generator ← (aeadGenerator kind).make route changes
      generator.call shape generator.core) :=
  fun s => (durable_opens s).generateAead kind route changes shape

theorem opening_generatePair (route : Factory.Route)
    (changes : Parameters.EcKey → Parameters.EcKey) (shape : Shape) :
    Opening (do
      let generator ← keyPairGenerator.make route changes
      generator.call shape generator.core) :=
  fun s => (durable_opens s).generatePair route changes shape

/-- Signatures with keys on a curve take their contexts from the pool of a digest. -/
theorem opening_openSha2 (algorithm digest : String) (core : Digest.Kind → κ) :
    Opening (do
      let kind ← Action.ofExcept (requireSha2 algorithm digest)
      openDigestPool kind
      Operation.make (core kind)) :=
  (opening_ofExcept _).bind fun kind =>
    (opening_openDigestPool kind).bind fun _ => opening_make _

end PooledCrypto.Provider
