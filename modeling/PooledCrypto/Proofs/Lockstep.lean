import PooledCrypto.Proofs.TwoSessions

/-!
# The same command in two sessions

Two paired sessions answer a command alike. The answers may differ in how many contexts are idle and
in the capacity that diagnostics show, and `Value.Like` allows for no more. A side without room for
a pool may unwind (`Meets`).

What a command does is prepared from the slots, in which the numbers of handles are of no account: a
session is prepared from as it is `viewed`. So both sides carry out the same work, but for commands
that look at the provider itself, and these are compared one by one (`look_paired`).
-/

namespace PooledCrypto

/-- The provider with another capacity. -/
def Provider.sized (p : Provider) (capacity : Nat) : Provider :=
  { p with state.pools.capacity := capacity }

namespace Session

open Provider
open PooledCrypto.Action (Agree Blind blind_pure blind_fail blind_ofExcept)

/-! ## Answers that are alike -/

/-- Two values that are the same, or differ in the numbers of idle contexts or in the capacity that
diagnostics show. -/
inductive Value.Like (k k' : Nat) : Value → Value → Prop
  | same (v : Value) : Like k k' v v
  | pools {idle idle' : List (String × Option Nat)}
      (h : idle.map (Prod.map id Option.isSome) = idle'.map (Prod.map id Option.isSome)) :
      Like k k' (.pools idle) (.pools idle')
  | pool (name : String) (idle idle' : Nat) : Like k k' (.pool name idle) (.pool name idle')
  | shown (p : Provider) : Like k k' (.text (p.sized k).debug) (.text (p.sized k').debug)

/-- Two ends of a command. -/
inductive Outcome.Like (k k' : Nat) : Outcome → Outcome → Prop
  | value {v v' : Value} (h : v.Like k k' v') : Like k k' (.value v) (.value v')
  | failure (f : Failure) : Like k k' (.failure f) (.failure f)
  | refused : Like k k' .refused .refused

/-- Two answers that say the same but for idle counts and the capacity. -/
structure Answer.Like (k k' : Nat) (a a' : Answer) : Prop where
  outcome : a.outcome.Like k k' a'.outcome
  stage : a.stage = a'.stage

/-- Two ways in which a command was carried out. They are alike and leave paired sessions, unless
one of the two unwound for want of room. -/
def Meets (k k' : Nat) (done done' : Answer × Session) : Prop :=
  (¬Roomy k ∧ done.1.unwound = true) ∨ (¬Roomy k' ∧ done'.1.unwound = true)
    ∨ (done.1.Like k k' done'.1 ∧ Paired k k' done.2 done'.2)

variable {k k' : Nat} {s t : Session} {l l' : Ledger} {c : Command} {work work' : Prepared}

theorem Outcome.like_refl (k k' : Nat) (o : Outcome) : o.Like k k' o := by
  cases o with
  | value v => exact .value (.same v)
  | failure f => exact .failure f
  | refused => exact .refused

theorem Answer.like_refl (k k' : Nat) (a : Answer) : a.Like k k' a :=
  ⟨Outcome.like_refl k k' _, rfl⟩

theorem Meets.same {done done' : Answer × Session} (h : done.1 = done'.1)
    (hp : Paired k k' done.2 done'.2) : Meets k k' done done' :=
  Or.inr (Or.inr ⟨h ▸ Answer.like_refl k k' done.1, hp⟩)

/-- Work that agrees is answered alike. -/
theorem meets_plainly {w w' : Work}
    (h : Agree (¬Roomy k) (¬Roomy k') (Paired k k') (w s) (w' t)) :
    Meets k k' (plainly w s) (plainly w' t) := by
  unfold plainly
  rcases hs : w s with ⟨r, s₁⟩
  rcases ht : w' t with ⟨r', t₁⟩
  rw [hs, ht] at h
  rcases h with ⟨hk, hr⟩ | ⟨hk, hr⟩ | ⟨hr, hp⟩
  · obtain rfl : r = .error .unwound := hr
    exact Or.inl ⟨hk, rfl⟩
  · obtain rfl : r' = .error .unwound := hr
    exact Or.inr (Or.inl ⟨hk, rfl⟩)
  · obtain rfl : r = r' := hr
    cases r with
    | ok v => exact .same rfl hp
    | error f => exact .same rfl hp

/-! ## Preparing -/

/-- The session without the numbers of handles. -/
def viewed (s : Session) : Session := { s with slots := s.slots.unnumbered }

theorem item?_viewed (s : Session) (on : String) :
    s.viewed.item? on = (s.item? on).map Item.unnumbered := get?_unnumbered s.slots on

/-- What a recipe makes is seen without numbers. -/
theorem data?_viewed (s : Session) (r : Recipe) : s.viewed.data? r = s.data? r :=
  eval_unnumbered s.slots r

theorem dataOr?_viewed (s : Session) (r : Option Recipe) : s.viewed.dataOr? r = s.dataOr? r := by
  cases r with
  | none => rfl
  | some r => exact data?_viewed s r

theorem optionalData?_viewed (s : Session) (r : Option Recipe) :
    s.viewed.optionalData? r = s.optionalData? r := by
  cases r with
  | none => rfl
  | some r => exact congrArg (Option.map some) (data?_viewed s r)

theorem box?_viewed (s : Session) (choice : BoxChoice) : s.viewed.box? choice = s.box? choice := by
  cases choice with
  | slot name =>
      unfold box?
      dsimp only
      rw [item?_viewed]
      cases s.item? name with
      | none => rfl
      | some item => cases item <;> rfl
  | parts nonce ciphertext tag =>
      unfold box?
      dsimp only
      rw [data?_viewed, data?_viewed, data?_viewed]

theorem peer?_viewed (s : Session) (choice : PeerChoice) :
    s.viewed.peer? choice = s.peer? choice := by
  cases choice with
  | slot name =>
      unfold peer?
      dsimp only
      rw [item?_viewed]
      cases s.item? name with
      | none => rfl
      | some item => cases item <;> rfl
  | raw bytes => exact congrArg (Option.map _) (data?_viewed s bytes)
  | refusing text => rfl

/-- Keys are prepared from recipes and keys, neither of which has a number. -/
theorem prepareKey_viewed (s : Session) (c : Command) : s.viewed.prepareKey c = s.prepareKey c := by
  cases c with
  | encode on format dest =>
      unfold prepareKey
      dsimp only
      rw [item?_viewed]
      cases s.item? on with
      | none => rfl
      | some item => cases item <;> rfl
  | _ =>
      unfold prepareKey
      simp only [data?_viewed]

theorem prepareMake_viewed (s : Session) (c : Command) :
    s.viewed.prepareMake c = s.prepareMake c := by
  unfold prepareMake
  simp only [item?_viewed]
  split
  · rfl
  · cases s.item? _ with
      | none => rfl
      | some item => cases item <;> rfl
  · cases s.item? _ with
      | none => rfl
      | some item => cases item <;> rfl
  · cases s.item? _ with
      | none => rfl
      | some item => cases item <;> rfl
  · cases s.item? _ with
      | none => rfl
      | some item => cases item <;> rfl
  · rfl

theorem prepareEncrypt_viewed (s : Session) (on : String) (data : Recipe)
    (nonce associated : Option Recipe) (shape : Shape) (keepBox : Aead.Box → Bool → Work) :
    s.viewed.prepareEncrypt on data nonce associated shape keepBox
      = s.prepareEncrypt on data nonce associated shape keepBox := by
  unfold prepareEncrypt
  simp only [item?_viewed, data?_viewed, dataOr?_viewed, optionalData?_viewed]
  cases s.item? on with
  | none => rfl
  | some item => cases item <;> rfl

/-- Calls are prepared from operations, which hold no context. -/
theorem prepareCall_viewed (s : Session) (c : Command) :
    s.viewed.prepareCall c = s.prepareCall c := by
  unfold prepareCall
  simp only [item?_viewed, data?_viewed, dataOr?_viewed, box?_viewed, peer?_viewed,
    prepareEncrypt_viewed]
  cases c with
  | hash on | sign on | verify on | verifyOrFail on | agree on | sizes on | decrypt on
  | decryptBox on =>
      dsimp only
      cases s.item? on with
      | none => rfl
      | some item => cases item <;> rfl
  | _ => rfl

theorem prepareStart_viewed (s : Session) (c : Command) :
    s.viewed.prepareStart c = s.prepareStart c := by
  unfold prepareStart
  simp only [item?_viewed, data?_viewed, dataOr?_viewed, optionalData?_viewed]
  cases c with
  | startHashing on | startSigning on | startVerifying on | startEncrypting on
  | startDecrypting on =>
      dsimp only
      cases s.item? on with
      | none => rfl
      | some item => cases item <;> rfl
  | _ => rfl

/-- What is prepared is the same on both sides. -/
theorem prepareKey_paired (h : Paired k k' s t) : s.prepareKey c = t.prepareKey c := by
  rw [← prepareKey_viewed s, ← prepareKey_viewed t, viewed, viewed, h.slots]
  cases c <;> rfl

/-- So one preparation serves both sessions. -/
theorem prepareMake_paired (h : Paired k k' s t) : s.prepareMake c = t.prepareMake c := by
  rw [← prepareMake_viewed s, ← prepareMake_viewed t, viewed, viewed, h.slots]
  cases c <;> rfl

theorem prepareCall_paired (h : Paired k k' s t) : s.prepareCall c = t.prepareCall c := by
  rw [← prepareCall_viewed s, ← prepareCall_viewed t, viewed, viewed, h.slots]
  cases c <;> rfl

theorem prepareStart_paired (h : Paired k k' s t) : s.prepareStart c = t.prepareStart c := by
  rw [← prepareStart_viewed s, ← prepareStart_viewed t, viewed, viewed, h.slots]
  cases c <;> rfl

theorem data?_paired (h : Paired k k' s t) (r : Recipe) : s.data? r = t.data? r := by
  rw [← data?_viewed s, ← data?_viewed t, viewed, viewed, h.slots]
  rfl

theorem dataOr?_paired (h : Paired k k' s t) (r : Option Recipe) :
    s.dataOr? r = t.dataOr? r := by
  rw [← dataOr?_viewed s, ← dataOr?_viewed t, viewed, viewed, h.slots]
  cases r <;> rfl

/-! ## Carrying out -/

/-- Whatever is prepared, it is carried out alike in paired sessions. -/
def BlindPrepared (k k' : Nat) (work : Prepared) : Prop :=
  ∀ s t l l', Paired k k' s t → Tracked s l → Tracked t l' → Meets k k' (work s) (work t)

theorem blind_plainly {w : Work} (hw : BlindWork (¬Roomy k) (¬Roomy k') k k' w) :
    BlindPrepared k k' (plainly w) :=
  fun s t _ _ h _ _ => meets_plainly (hw s t h)

/-- Importing and generating keys comes to the same in both. -/
theorem blind_key (h : KeyPrepared s c work) : BlindPrepared k k' work := by
  cases h with
  | importHmac => exact blind_plainly (blind_importHmac _ _ _ _)
  | generateHmac => exact blind_plainly (blind_generateHmacKey _ _ _ _ _)
  | importAead => exact blind_plainly (blind_importAead _ _ _ _)
  | generateAead => exact blind_plainly (blind_generateAeadKey _ _ _ _ _)
  | importPublic => exact blind_plainly (blind_importPublic _ _ _ _ _)
  | importPrivate => exact blind_plainly (blind_importPrivate _ _ _ _ _)
  | generatePair => exact blind_plainly (blind_generateKeys _ _ _ _ _ _)
  | encode => exact blind_plainly ((blind_ofExcept _).bind fun _ => blind_keepData _ _)

theorem blind_making (h : MakePrepared s c work) : BlindPrepared k k' work := by
  cases h with
  | hasher => exact blind_plainly (blind_makeHasher _ _ _)
  | cipher => exact blind_plainly (blind_makeCipher _ _ _ _ _)
  | hmacSigner =>
      refine blind_plainly (blind_keepSigner _ _ ?_)
      exact Factory.blind_factory (fun _ => blind_make _) _ _
  | ecdsaSigner =>
      refine blind_plainly (blind_keepSigner _ _ ?_)
      exact Factory.blind_factory (fun _ => blind_openSha2 _ _ _) _ _
  | hmacVerifier =>
      refine blind_plainly (blind_keepVerifier _ ?_)
      exact Factory.blind_factory (fun _ => blind_make _) _ _
  | ecdsaVerifier =>
      refine blind_plainly (blind_keepVerifier _ ?_)
      exact Factory.blind_factory (fun _ => blind_openSha2 _ _ _) _ _
  | agreement => exact blind_plainly (blind_makeAgreement _ _ _ _)

/-- A call on the state, after which the session goes on. -/
theorem blind_called {α : Type} {work : Action State α} {next : α → Work}
    (hw : ∀ st st' lent lent', State.Paired k k' st st' → Accounts st lent → Accounts st' lent' →
      Agree (¬Roomy k) (¬Roomy k') (State.Paired k k') (work st) (work st'))
    (hn : ∀ x, BlindWork (¬Roomy k) (¬Roomy k') k k' (next x)) :
    BlindPrepared k k' (plainly (onState work >>= next)) := by
  intro s t l l' h hs ht
  refine meets_plainly ((h.onState (hw _ _ _ _ h.state hs.accounts ht.accounts)).bind ?_)
  intro x s' t' _ h'
  exact hn x s' t' h'

/-- So does every call; those that borrow do so from pools that supply alike. -/
theorem blind_call (h : CallPrepared s c work) : BlindPrepared k k' work := by
  cases h with
  | hash =>
      exact blind_called (fun _ _ _ _ h' ha ha' => agree_call h' (h'.hash ha ha' _ _))
        fun _ => blind_keepData _ _
  | sign =>
      exact blind_called (fun _ _ _ _ h' ha ha' => agree_call h' (h'.sign ha ha' _ _))
        fun _ => (blind_keep _ _).bind fun _ => blind_pure _
  | verify =>
      exact blind_called (fun _ _ _ _ h' ha ha' => agree_call h' (h'.verify ha ha' _ _ _))
        fun _ => blind_pure _
  | verifyOrFail =>
      exact blind_called (fun _ _ _ _ h' ha ha' => h'.verifyOrFail ha ha' _ _ _)
        fun _ => blind_pure _
  | agree =>
      refine blind_plainly ((blind_onState (blind_exchange _ _ _)).bind fun _ => ?_)
      exact blind_keepData _ _
  | sizes => exact blind_plainly (blind_ofExcept _)
  | encrypt =>
      exact blind_called (fun _ _ _ _ h' _ _ => agree_call h' (blind_encryptBox _ _ _ _ _ _ h'))
        fun _ => blind_keepData _ _
  | encryptBox =>
      exact blind_called (fun _ _ _ _ h' _ _ => agree_call h' (blind_encryptBox _ _ _ _ _ _ h'))
        fun _ => (blind_keep _ _).bind fun _ => blind_pure _
  | decrypt =>
      exact blind_called (fun _ _ _ _ h' _ _ => agree_call h' (blind_ofExcept _ _ _ h'))
        fun _ => blind_keepData _ _
  | decryptBox =>
      exact blind_called (fun _ _ _ _ h' _ _ => agree_call h' (blind_ofExcept _ _ _ h'))
        fun _ => blind_keepData _ _

/-- What is begun on the two sides differs in the number of the handle that was borrowed. -/
theorem blind_begin {α : Type} (source : Source) (make : Loan → α) (wrap : α → Item)
    (hwrap : ∀ loan loan' : Loan, loan.unnumbered = loan'.unnumbered →
      (wrap (make loan)).unnumbered = (wrap (make loan')).unnumbered)
    (dest : Option String) :
    BlindPrepared k k' (plainly (startWith source make wrap dest)) := by
  intro s t l l' h hs ht
  have hsame := h.state.fst_borrow hs.accounts ht.accounts source
  have hpair := h.state.borrow source
  rcases startWith_cases source make wrap dest s with ⟨f, st, hb, hout⟩ | ⟨loan, st, hb, hout⟩ <;>
  rcases startWith_cases source make wrap dest t with
    ⟨f', st', hb', hout'⟩ | ⟨loan', st', hb', hout'⟩ <;>
  rw [hb, hb'] at hsame hpair <;> rw [hout, hout']
  · obtain rfl : f = f' := Except.error.inj hsame
    exact .same rfl ⟨hpair, h.algorithms, h.slots, h.found⟩
  · exact absurd hsame (by simp [Except.map])
  · exact absurd hsame (by simp [Except.map])
  · have hi := hwrap loan loan' (Except.ok.inj hsame)
    have hmid : Paired k k' { s with provider.state := st } { t with provider.state := st' } :=
      ⟨hpair, h.algorithms, h.slots, h.found⟩
    have hkept : Agree False False (Paired k k') _ _ := hmid.keep hi dest
    exact .same rfl hkept.sure.2

theorem blind_start (h : StartPrepared s c work) : BlindPrepared k k' work := by
  cases h with
  | hashing =>
      refine blind_begin _ _ _ (fun loan loan' hl => ?_) _
      exact congrArg (fun l => Item.hashing (.start l) false) hl
  | @signing _ o drawn =>
      refine blind_begin _ _ _ (fun loan loan' hl => ?_) _
      exact congrArg (fun l => Item.signing (.start ⟨l, o.core.scheme⟩) drawn) hl
  | @verifying _ o _ _ sig =>
      refine blind_begin _ _ _ (fun loan loan' hl => ?_) _
      exact congrArg (fun l => Item.verifying (.start ⟨l, o.core.scheme, sig.bytes⟩)) hl
  | encrypting =>
      refine blind_plainly ((blind_onState (blind_startEncrypting _ _ _)).bind fun _ => ?_)
      exact (blind_keep _ _).bind fun _ => blind_pure _
  | decrypting => exact blind_plainly ((blind_keep _ _).bind fun _ => blind_pure _)

/-! ## Looking around -/

/-- What is prepared on the two sides is carried out alike. -/
def MeetsBoth (k k' : Nat) (s t : Session) (work work' : Prepared) : Prop :=
  ∀ l l', Tracked s l → Tracked t l' → Meets k k' (work s) (work' t)

theorem idleContexts_isSome (e : Pool.Entry HandleType HandleType.carrier) :
    (idleContexts e).isSome = decide (e.type = .digest) := by
  unfold idleContexts Pool.Entry.pool?
  by_cases h : e.type = .digest
  · simp [h]
  · simp [h]

/-- The order of pools in a list. -/
def byName {α : Type} (a b : String × α) : Bool := decide (a.1 ≤ b.1)

/-- The names and types of pools are listed whatever is idle in them. -/
theorem poolList_kinds (p : Pools) :
    (poolList p).map (Prod.map id Option.isSome)
      = (p.kinds.map fun e => (e.1, decide (e.2 = .digest))).mergeSort byName := by
  have hsort : ∀ pools : List (String × Option Nat),
      (pools.mergeSort byName).map (Prod.map id Option.isSome)
        = (pools.map (Prod.map id Option.isSome)).mergeSort byName :=
    fun _ => List.map_mergeSort fun _ _ _ _ => rfl
  refine (hsort _).trans (congrArg (List.mergeSort · byName) ?_)
  unfold Pool.Directory.kinds
  rw [List.map_map, List.map_map]
  exact List.map_congr_left fun e _ => Prod.ext rfl (idleContexts_isSome e)

/-- The same pools are listed, with a count of idle contexts for the same ones. -/
theorem poolList_paired (h : Paired k k' s t) :
    (poolList s.provider.state.pools).map (Prod.map id Option.isSome)
      = (poolList t.provider.state.pools).map (Prod.map id Option.isSome) := by
  have hkinds : s.provider.state.pools.kinds = t.provider.state.pools.kinds :=
    congrArg Outline.pools h.state.outline
  rw [poolList_kinds, poolList_kinds, hkinds]

/-- Diagnostics show the names of the pools and the capacity. -/
theorem debug_paired (h : Paired k k' s t) :
    s.provider.sized k = s.provider ∧ (s.provider.sized k').debug = t.provider.debug := by
  have hkinds : s.provider.state.pools.kinds = t.provider.state.pools.kinds :=
    congrArg Outline.pools h.state.outline
  have halgorithms : (s.provider.sized k').algorithms = t.provider.algorithms := h.algorithms
  have hexecutor : (s.provider.sized k').state.executor = t.provider.state.executor :=
    congrArg Outline.executor h.state.outline
  have hcapacity : (s.provider.sized k').state.pools.capacity = t.provider.state.pools.capacity :=
    h.state.right.symm
  have hnames : (s.provider.sized k').state.pools.names = t.provider.state.pools.names := by
    rw [Pool.Directory.names_eq, Pool.Directory.names_eq, ← hkinds]
    rfl
  constructor
  · rw [Provider.sized, ← h.state.left]
  · unfold Provider.debug State.debug Pool.Directory.debug Provider.name Provider.algorithmNames
    rw [halgorithms, hexecutor, hcapacity, hnames]

/-- A pool that is made ahead of its use is made on both sides. -/
theorem meets_seed (h : Paired k k' s t) (name : String) (type : HandleType) :
    Meets k k' (plainly (onState (seed name type)) s) (plainly (onState (seed name type)) t) := by
  have hmid := h.state.getOrCreate name type (seedFactory type) fun _ => by cases type <;> rfl
  unfold plainly onState seed
  dsimp only
  rcases hs : s.provider.state.pools.getOrCreate name type type.size (seedFactory type) with ⟨r, p⟩
  rcases ht : t.provider.state.pools.getOrCreate name type type.size (seedFactory type)
    with ⟨r', p'⟩
  rw [hs, ht] at hmid
  rcases hmid with ⟨hk, hr⟩ | ⟨hk, hr⟩ | ⟨hr, hp⟩
  · obtain rfl : r = .error .unwound := hr
    exact Or.inl ⟨hk, rfl⟩
  · obtain rfl : r' = .error .unwound := hr
    exact Or.inr (Or.inl ⟨hk, rfl⟩)
  · obtain rfl : r = r' := hr
    have hafter : Paired k k' { s with provider.state.pools := p }
        { t with provider.state.pools := p' } := ⟨hp, h.algorithms, h.slots, h.found⟩
    cases r with
    | error f => exact .same rfl hafter
    | ok u => exact Or.inr (Or.inr ⟨⟨.value (.pool name _ _), rfl⟩, hafter⟩)

theorem debug_unnumbered (item : Item) : item.unnumbered.debug = item.debug := by
  cases item <;> rfl

theorem executor?_unnumbered (item : Item) : item.unnumbered.executor? = item.executor? := by
  cases item <;> rfl

/-- A slot is empty on both sides, or has an item that is the same but for its number. -/
theorem item?_paired (h : Paired k k' s t) (on : String) :
    (s.item? on = none ∧ t.item? on = none)
      ∨ ∃ item item', s.item? on = some item ∧ t.item? on = some item'
        ∧ item.unnumbered = item'.unnumbered := by
  have hsame := h.get? on
  unfold item?
  cases hs : s.slots.get? on with
  | none =>
      rw [hs] at hsame
      exact Or.inl ⟨rfl, Option.map_eq_none_iff.mp hsame.symm⟩
  | some item =>
      rw [hs] at hsame
      obtain ⟨item', ht, hi⟩ := Option.map_eq_some_iff.mp hsame.symm
      exact Or.inr ⟨item, item', rfl, ht, hi.symm⟩

section Rel

variable {α β γ : Type} {R : β → γ → Prop}

/-- What is decided before the sessions are looked at is decided for both. -/
theorem rel_bind {o : Option α} {f : α → Option β} {f' : α → Option γ}
    (hf : ∀ x, Option.Rel R (f x) (f' x)) : Option.Rel R (o.bind f) (o.bind f') := by
  cases o with
  | none => exact .none
  | some x => exact hf x

/-- What is done with the item in a slot. -/
theorem rel_item (h : Paired k k' s t) (on : String) {f : Item → Option β} {f' : Item → Option γ}
    (hf : ∀ item item', item.unnumbered = item'.unnumbered →
      Option.Rel R (f item) (f' item')) :
    Option.Rel R ((s.item? on).bind f) ((t.item? on).bind f') := by
  rcases item?_paired h on with ⟨hs, ht⟩ | ⟨item, item', hs, ht, hi⟩
  · rw [hs, ht]
    exact .none
  · rw [hs, ht]
    exact hf item item' hi

/-- What an item gives, and what is done with it and the item that it leaves. -/
theorem rel_fed {o o' : Option (α × Item)}
    (ho : o.map (Prod.map id Item.unnumbered) = o'.map (Prod.map id Item.unnumbered))
    {f : α × Item → β} {f' : α × Item → γ}
    (hf : ∀ x item item', item.unnumbered = item'.unnumbered → R (f (x, item)) (f' (x, item'))) :
    Option.Rel R (o.map f) (o'.map f') := by
  cases o with
  | none =>
      rw [Option.map_eq_none_iff.mp ho.symm]
      exact .none
  | some out =>
      obtain ⟨⟨x', item'⟩, rfl, hout⟩ := Option.map_eq_some_iff.mp ho.symm
      obtain ⟨x, item⟩ := out
      obtain ⟨hx, hi⟩ := Prod.mk.inj hout
      obtain rfl : x' = x := hx
      exact .some (hf x' item item' hi.symm)

end Rel

/-- Work that is prepared on both sides. -/
theorem rel_plainly {w w' : Work} (h : Paired k k' s t)
    (hw : Paired k k' s t → Agree (¬Roomy k) (¬Roomy k') (Paired k k') (w s) (w' t)) :
    Option.Rel (MeetsBoth k k' s t) (some (plainly w)) (some (plainly w')) :=
  .some fun _ _ _ _ => meets_plainly (hw h)

/-- Looking around shows how many contexts are idle, and the capacity where a provider is shown, and
nothing else in which the two differ. -/
theorem look_paired (h : Paired k k' s t) :
    Option.Rel (MeetsBoth k k' s t) (s.prepareLook c) (t.prepareLook c) := by
  cases c with
  | info =>
      have hexecutor : s.provider.state.executor = t.provider.state.executor :=
        congrArg Outline.executor h.state.outline
      refine rel_plainly h fun h => ?_
      rw [hexecutor, Provider.name, Provider.algorithmNames, h.algorithms]
      exact .same rfl h
  | supports name family =>
      refine rel_plainly h fun h => ?_
      rw [h.algorithms]
      exact .same rfl h
  | lookup name family required => exact rel_plainly h (blind_lookUp _ _ _ s t)
  | pools =>
      -- how many contexts are idle hangs on the capacity, so the two answers are alike and not equal
      exact .some fun _ _ _ _ =>
        Or.inr (Or.inr ⟨⟨.value (.pools (poolList_paired h)), rfl⟩, h⟩)
  | seedPool name type => exact .some fun _ _ _ _ => meets_seed h name type
  | debugProvider =>
      obtain ⟨hs, ht⟩ := debug_paired h
      have hshown : Value.Like k k' _ _ := .shown s.provider
      rw [hs, ht] at hshown
      exact .some fun _ _ _ _ => Or.inr (Or.inr ⟨⟨.value hshown, rfl⟩, h⟩)
  | debug on =>
      refine rel_item h on fun item item' hi => ?_
      -- an item is shown without the number of its handle
      rw [← debug_unnumbered item, hi, debug_unnumbered]
      exact rel_bind fun _ => rel_plainly h fun h => .same rfl h
  | keep dest data =>
      simp only [prepareLook, data?_paired h]
      exact rel_bind fun d => rel_plainly h (blind_keepData _ _ s t)
  | equal a b =>
      simp only [prepareLook, data?_paired h]
      exact rel_bind fun _ => rel_bind fun _ => rel_plainly h fun h => .same rfl h
  | drop on =>
      refine .some fun _ _ _ _ => .same ?_ (h.discard on)
      rcases item?_paired h on with ⟨hs, ht⟩ | ⟨item, item', hs, ht, _⟩
      · rw [hs, ht]
      · rw [hs, ht]
        rfl
  | clone on dest =>
      refine rel_item h on fun item item' hi => ?_
      rw [← executor?_unnumbered item, hi, executor?_unnumbered]
      exact rel_bind fun _ => rel_plainly h fun h =>
        (h.keep hi dest).bind fun _ _ _ _ h' => .same rfl h'
  | executorName on =>
      refine rel_item h on fun item item' hi => ?_
      rw [← executor?_unnumbered item, hi, executor?_unnumbered]
      exact rel_bind fun _ => rel_plainly h fun h => .same rfl h
  | _ => exact .none

/-! ## Feeding -/

theorem Paired.keepGiven (h : Paired k k' s t) (dest : Option String) (given : Option Datum) :
    Paired k k' (keepGiven dest given s) (keepGiven dest given t) := by
  cases dest with
  | none => exact h
  | some name =>
      cases given with
      | none => exact h
      | some d => exact h.store rfl name

theorem rel_feedLast (h : Paired k k' s t) {on : String} {item item' : Item}
    (hi : item.unnumbered = item'.unnumbered) (last : Datum) (dest : Option String) :
    Option.Rel (Meets k k') (feedLast s on item last dest) (feedLast t on item' last dest) := by
  rw [feedLast_eq, feedLast_eq]
  refine rel_fed ?_ fun out after after' hafter =>
    .same rfl ((h.update hafter on).keepGiven dest out.2)
  rw [← takeLast_unnumbered, hi, takeLast_unnumbered]

/-- A function that was started in both is fed, finished and closed alike. -/
theorem feed_paired (h : Paired k k' s t) :
    Option.Rel (Meets k k') (s.feed? c) (t.feed? c) := by
  have hdata : s.data? = t.data? := funext (data?_paired h)
  cases c with
  | update on data =>
      simp only [feed?, hdata]
      refine rel_item h on fun item item' hi => rel_bind fun chunk => ?_
      rw [feedChunk_eq, feedChunk_eq]
      refine rel_fed ?_ fun out after after' hafter => .same rfl (h.update hafter on)
      rw [← takeIn_unnumbered, hi, takeIn_unnumbered]
  | finish on data dest =>
      simp only [feed?, hdata]
      exact rel_item h on fun item item' hi => rel_bind fun last => rel_feedLast h hi last dest
  | complete on dest => exact rel_item h on fun item item' hi => rel_feedLast h hi _ dest
  | close on =>
      refine rel_item h on fun item item' hi => ?_
      have hshut : item.shut?.map Item.unnumbered = item'.shut?.map Item.unnumbered := by
        rw [← shut?_unnumbered, hi, shut?_unnumbered]
      -- the loans go back first, and then the two slots are filled alike
      have hmid : Paired k k' { s with provider.state := item.release s.provider.state }
          { t with provider.state := item'.release t.provider.state } :=
        ⟨paired_release h.state item item', h.algorithms, h.slots, h.found⟩
      rw [closeFunction_eq, closeFunction_eq]
      cases hs : item.shut? with
      | none =>
          rw [hs] at hshut
          rw [Option.map_eq_none_iff.mp hshut.symm]
          exact .none
      | some after =>
          rw [hs] at hshut
          obtain ⟨after', ht, hafter⟩ := Option.map_eq_some_iff.mp hshut.symm
          rw [ht]
          exact .some (.same rfl (hmid.update hafter.symm on))
  | stage on =>
      refine rel_item h on fun item item' hi => ?_
      rw [← stage?_unnumbered item, hi, stage?_unnumbered]
      exact rel_bind fun stage => .some (.same rfl h)
  | run on chunks last =>
      simp only [feed?, hdata, dataOr?_paired h]
      refine rel_item h on fun item item' hi => rel_bind fun chunks => rel_bind fun last => ?_
      refine rel_fed ?_ fun result after after' _ => ?_
      · rw [← feedAll_unnumbered, hi, feedAll_unnumbered]
      · have hmid : Paired k k'
            { s with
              slots := s.slots.erase on, provider.state := after.release s.provider.state }
            { t with
              slots := t.slots.erase on, provider.state := after'.release t.provider.state } :=
          ⟨paired_release h.state after after', h.algorithms, (h.discard on).slots, h.found⟩
        cases result with
        | ok v => exact .same rfl hmid
        | error e => exact .same rfl hmid
  | _ => exact .none

/-! ## Any command -/

/-- A command is carried out alike, or asks for something that is missing on both sides. -/
theorem carryOut_paired (h : Paired k k' s t) (hs : Tracked s l) (ht : Tracked t l') :
    Option.Rel (Meets k k') (s.carryOut? c) (t.carryOut? c) := by
  have hlook := look_paired (c := c) h
  unfold carryOut?
  -- only those who look around are told of what differs; all else is the very same work
  rw [prepareKey_paired h, prepareMake_paired h, prepareCall_paired h, prepareStart_paired h]
  generalize s.prepareLook c = looked at hlook
  generalize t.prepareLook c = looked' at hlook
  cases hlook with
  | some hwork => exact .some (hwork l l' hs ht)
  | none =>
      dsimp only [Option.none_or]
      cases hprepared : (t.prepareKey c).or ((t.prepareMake c).or
          ((t.prepareCall c).or (t.prepareStart c))) with
      | none => exact feed_paired h
      | some work =>
          refine .some ?_
          rcases Option.or_eq_some_iff.mp hprepared with hw | ⟨_, hw⟩
          · exact blind_key (keyPrepared hw) s t l l' h hs ht
          rcases Option.or_eq_some_iff.mp hw with hw | ⟨_, hw⟩
          · exact blind_making (makePrepared hw) s t l l' h hs ht
          rcases Option.or_eq_some_iff.mp hw with hw | ⟨_, hw⟩
          · exact blind_call (callPrepared hw) s t l l' h hs ht
          · exact blind_start (startPrepared hw) s t l l' h hs ht

/-- **One command in two sessions.** -/
theorem step_paired (h : Paired k k' s t) (hs : Tracked s l) (ht : Tracked t l') (c : Command) :
    Meets k k' (s.step c) (t.step c) := by
  unfold step
  cases c.fits with
  | false => exact .same rfl h
  | true =>
      have hdone := carryOut_paired (c := c) h hs ht
      rw [if_pos rfl, if_pos rfl]
      generalize s.carryOut? c = done at hdone
      generalize t.carryOut? c = done' at hdone
      cases hdone with
      | some hmeets => exact hmeets
      | none => exact .same rfl h

end Session
end PooledCrypto
