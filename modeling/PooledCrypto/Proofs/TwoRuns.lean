import PooledCrypto.Proofs.Continuity

/-!
# Two runs side by side

The same work is done on two states whose pools may keep different numbers of idle handles. What is
idle differs, and so do the handles that are lent. What is the same is the states' `outline`: it has
the pools and their factories, but no handle. As contexts are reset when they are borrowed, and a
factory makes them all alike, the outline is all that work can tell of a state.

Room is the one thing that a capacity can be too large for. `Agree` says that two ways of ending are
the same unless one of the two sides ran out of it, and `Blind` that work ends in the same way on
any two states that belong together.
-/

namespace PooledCrypto.Action

variable {σ α β : Type} {short short' : Prop} {R : σ → σ → Prop}

/-- Two ways in which work ended. They are the same and leave states that belong together, unless
one side unwound for want of room. -/
def Agree (short short' : Prop) (R : σ → σ → Prop) (out out' : Except Failure α × σ) : Prop :=
  (short ∧ out.1 = .error .unwound) ∨ (short' ∧ out'.1 = .error .unwound)
    ∨ (out.1 = out'.1 ∧ R out.2 out'.2)

theorem Agree.same {out out' : Except Failure α × σ} (h : out.1 = out'.1) (hr : R out.2 out'.2) :
    Agree short short' R out out' := Or.inr (Or.inr ⟨h, hr⟩)

/-- Where room is of no concern the two sides are the same. -/
theorem Agree.sure {out out' : Except Failure α × σ} (h : Agree False False R out out') :
    out.1 = out'.1 ∧ R out.2 out'.2 := by
  rcases h with ⟨hf, _⟩ | ⟨hf, _⟩ | h
  · exact hf.elim
  · exact hf.elim
  · exact h

/-- Work that goes on from what agrees. -/
theorem Agree.bind {a a' : Action σ α} {f f' : α → Action σ β} {s t : σ}
    (h : Agree short short' R (a s) (a' t))
    (hn : ∀ x s' t', a s = (.ok x, s') → R s' t' → Agree short short' R (f x s') (f' x t')) :
    Agree short short' R ((a >>= f) s) ((a' >>= f') t) := by
  rcases ha : a s with ⟨r, s'⟩
  rcases ha' : a' t with ⟨r', t'⟩
  rw [ha, ha'] at h
  rcases h with ⟨hs, hr⟩ | ⟨hs, hr⟩ | ⟨hr, hR⟩
  · obtain rfl : r = .error .unwound := hr
    exact Or.inl ⟨hs, by rw [bind_of_error ha]⟩
  · obtain rfl : r' = .error .unwound := hr
    exact Or.inr (Or.inl ⟨hs, by rw [bind_of_error ha']⟩)
  · obtain rfl : r = r' := hr
    cases r with
    | error e =>
        rw [bind_of_error ha, bind_of_error ha']
        exact .same rfl hR
    | ok x =>
        rw [bind_of_ok ha, bind_of_ok ha']
        exact hn x s' t' ha hR

/-- Work that ends in the same way on any two states that belong together. -/
def Blind (short short' : Prop) (R : σ → σ → Prop) (work : Action σ α) : Prop :=
  ∀ s t, R s t → Agree short short' R (work s) (work t)

theorem blind_pure (x : α) : Blind short short' R (pure x : Action σ α) := fun _ _ h => .same rfl h

theorem blind_fail (e : Error) : Blind short short' R (fail e : Action σ α) :=
  fun _ _ h => .same rfl h

theorem blind_ofExcept (r : Except Error α) : Blind short short' R (ofExcept r) := by
  intro s t h
  rw [ofExcept_apply, ofExcept_apply]
  exact .same rfl h

theorem Blind.bind {a : Action σ α} {f : α → Action σ β} (ha : Blind short short' R a)
    (hf : ∀ x, Blind short short' R (f x)) : Blind short short' R (a >>= f) :=
  fun s t h => (ha s t h).bind fun x s' t' _ h' => hf x s' t' h'

end PooledCrypto.Action

namespace PooledCrypto.Factory

/-- An operation that is asked for in any way is made as blindly as it is constructed. -/
theorem blind_factory {σ π ο : Type} [Parameters π] {short short' : Prop} {R : σ → σ → Prop}
    {f : Factory σ π ο} (hf : ∀ p, Action.Blind short short' R (f.construct p)) (route : Route)
    (changes : π → π) : Action.Blind short short' R (f.make route changes) := by
  rcases make_cases f route changes with ⟨p, hp⟩ | ⟨e, he⟩
  · rw [hp]
    exact hf p
  · rw [he]
    exact Action.blind_fail e

end PooledCrypto.Factory

namespace PooledCrypto.Pool

variable {α : Type} {p : Pool α} {good : α → Prop} {lent : List (Handle α)}

/-- What is checked out of a pool is as good as new when it is reset. -/
theorem InOrder.checkout_reset {reset : α → α} (ho : InOrder good p lent)
    (steady : ∀ k, p.factory k = p.factory 1)
    (alike : ∀ v w, good v → good w → reset v = reset w) :
    (p.checkout.1.map fun h => reset h.value) = (p.factory 1).map reset := by
  rcases checkout_cases p with ⟨h, rest, hidle, hout⟩ | ⟨_, v, hv, hout⟩ | ⟨_, e, he, hout⟩
  · -- what is idle was made once, so the factory does not fail
    obtain ⟨w, hw, hgood⟩ := ho.supplied (by simp [hidle]) 1
    rw [hout, hw]
    exact congrArg Except.ok (alike _ _ (ho.sound h (by simp [hidle])) hgood)
  · rw [hout, ← steady (p.attempts + 1), hv]
    rfl
  · rw [hout, ← steady (p.attempts + 1), he]
    rfl

end PooledCrypto.Pool

namespace PooledCrypto.Provider

open PooledCrypto.Action (Agree Blind blind_pure blind_fail blind_ofExcept)

/-- There is room for pools of that capacity, whatever their handles are. A context of a MAC key
takes the most. -/
def Roomy (capacity : Nat) : Prop := capacity * macContextSize ≤ Room.most

/-- What a state is apart from its capacity and its handles. -/
structure Outline where
  executor : Executor
  entropy : Entropy
  /-- The pools that are found by name. -/
  pools : List (String × HandleType)
  /-- The factories of the digest pools. -/
  digest : String → Option (Nat → Except Error Digest.Context)
  /-- The factories of the pools of MAC keys. -/
  macs : List (Nat → Except Error Mac.Context)

/-- The outline of a state. -/
def State.outline (s : State) : Outline where
  executor := s.executor
  entropy := s.entropy
  pools := s.pools.kinds
  digest name := (s.pools.pool? name .digest).map (·.factory)
  macs := s.macPools.map (·.factory)

/-- Two states that differ in their capacities and in their handles. Work is done in the caller's
place, and no factory changes its mind. -/
structure State.Paired (k k' : Nat) (s t : State) : Prop where
  left : s.pools.capacity = k
  right : t.pools.capacity = k'
  inPlace : s.executor = .inPlace
  outline : s.outline = t.outline
  steady : ∀ name factory, s.outline.digest name = some factory → ∀ i, factory i = factory 1

open State (Paired)

variable {α β κ : Type} {k k' : Nat} {s s' t t' : State} {lent lent' : List Loan}
  {source : Source} {data : Bytes} {short short' : Prop}

theorem paired_start (entropy : Entropy) (k k' : Nat) :
    Paired k k' (State.start .inPlace entropy k) (State.start .inPlace entropy k') where
  left := rfl
  right := rfl
  inPlace := rfl
  outline := rfl
  steady name factory h := absurd h (by simp [State.outline, State.start, Pool.Directory.pool?,
    Pool.Directory.find?, Pool.Directory.empty])

/-! ## Contexts -/

/-- The loan without the number of its handle. -/
def Loan.unnumbered : Loan → Loan
  | .digest pool h => .digest pool ⟨0, h.value⟩
  | .mac pool h => .mac pool ⟨0, h.value⟩

/-- Pools that are exchanged keep their factories. -/
theorem Exchanges.outline_eq {name? : Option String} (h : Exchanges name? s s') :
    s'.outline = s.outline := by
  induction h with
  | refl => rfl
  | @digest s' name old new _ _ found factory ih =>
      rw [← ih]
      unfold State.outline
      congr 1
      · exact Pool.Directory.kinds_replace (d := s'.pools) (t := .digest) new
      · funext n
        by_cases hn : n = name
        · subst hn
          rw [Pool.Directory.pool?_replace_self found, found]
          exact congrArg some factory
        · rw [Pool.Directory.pool?_replace_ne hn]
  | @mac s' number old new _ _ found factory ih =>
      rw [← ih]
      unfold State.outline
      congr 1
      dsimp only
      refine List.ext_getElem? fun i => ?_
      by_cases hi : number = i
      · subst hi
        obtain ⟨hlt, hold⟩ := List.getElem?_eq_some_iff.mp found
        simp [hlt, hold, factory]
      · simp [List.getElem?_set_ne hi]

theorem State.Paired.exchanges {name? name?' : Option String} (h : Paired k k' s t)
    (hs : Exchanges name? s s') (ht : Exchanges name?' t t') : Paired k k' s' t' where
  left := hs.continues.capacity.trans h.left
  right := ht.continues.capacity.trans h.right
  inPlace := (congrArg Outline.executor hs.outline_eq).trans h.inPlace
  outline := by rw [hs.outline_eq, ht.outline_eq, h.outline]
  steady := by
    rw [hs.outline_eq]
    exact h.steady

/-- Borrowing is checking out and resetting. -/
theorem borrow_digest {kind : Digest.Kind} {pool : Pool Digest.Context}
    (hp : s.pools.pool? kind.name .digest = some pool) :
    (borrow (.digest kind) s).1.map Loan.unnumbered
      = ((pool.checkout.1.map fun h => h.value.reset).map
          fun c => Loan.digest kind.name ⟨0, c⟩).mapError Failure.error := by
  have hc := checkout_digest hp
  rcases hout : pool.checkout.1 with e | h
  · rw [hout] at hc
    rw [borrow, Action.bind_of_error hc]
    rfl
  · rw [hout] at hc
    rw [borrow, Action.bind_of_ok hc]
    rfl

theorem borrow_mac {number : Nat} {pool : Pool Mac.Context}
    (hp : s.macPools[number]? = some pool) :
    (borrow (.mac number) s).1.map Loan.unnumbered
      = ((pool.checkout.1.map fun h => h.value.reset).map
          fun c => Loan.mac number ⟨0, c⟩).mapError Failure.error := by
  have hc := checkout_mac hp
  rcases hout : pool.checkout.1 with e | h
  · rw [hout] at hc
    rw [borrow, Action.bind_of_error hc]
    rfl
  · rw [hout] at hc
    rw [borrow, Action.bind_of_ok hc]
    rfl

/-- What is borrowed on the two sides is the same but for the numbers of the handles. -/
theorem State.Paired.fst_borrow (h : Paired k k' s t) (ha : Accounts s lent)
    (ha' : Accounts t lent') (source : Source) :
    (borrow source s).1.map Loan.unnumbered = (borrow source t).1.map Loan.unnumbered := by
  cases source with
  | digest kind =>
      have hsame := congrFun (congrArg Outline.digest h.outline) kind.name
      have hsteady := h.steady kind.name
      unfold State.outline at hsame hsteady
      dsimp only at hsame hsteady
      -- a context that is reset is a fresh one of its digest, and all of the pool are of one
      have halike : ∀ v w : Digest.Context, v.kind.name = kind.name → w.kind.name = kind.name →
          v.reset = w.reset := by
        intro v w hv hw
        rw [Digest.Context.reset, Digest.Context.reset, Digest.Kind.name_injective hv,
          Digest.Kind.name_injective hw]
      cases hp : s.pools.pool? kind.name .digest with
      | none =>
          rw [hp] at hsame
          have hp' := Option.map_eq_none_iff.mp hsame.symm
          rw [borrow, Action.bind_of_error (checkout_digest_none hp),
            Action.bind_of_error (checkout_digest_none hp')]
      | some p =>
          rw [hp] at hsame hsteady
          obtain ⟨p', hp', hfactory⟩ := Option.map_eq_some_iff.mp hsame.symm
          have hsteady := hsteady p.factory rfl
          rw [borrow_digest hp, borrow_digest hp',
            (ha.digest _ p hp).checkout_reset hsteady halike,
            (ha'.digest _ p' hp').checkout_reset (hfactory ▸ hsteady) halike, hfactory]
  | mac number =>
      have hsame := congrArg (fun o => o.macs[number]?) h.outline
      unfold State.outline at hsame
      simp only [List.getElem?_map] at hsame
      cases hp : s.macPools[number]? with
      | none =>
          rw [hp] at hsame
          have hp' := Option.map_eq_none_iff.mp hsame.symm
          rw [borrow, Action.bind_of_error (checkout_mac_none hp),
            Action.bind_of_error (checkout_mac_none hp')]
      | some p =>
          -- the contexts of a key are all as they were made, also those that were used
          rw [hp] at hsame
          obtain ⟨p', hp', hfactory⟩ := Option.map_eq_some_iff.mp hsame.symm
          obtain ⟨kind, key, hmade, ho⟩ := ha.mac number p hp
          obtain ⟨kind', key', hmade', ho'⟩ := ha'.mac number p' hp'
          rw [borrow_mac hp, borrow_mac hp',
            ho.checkout_reset (fun i => (hmade i).trans (hmade 1).symm)
              fun v w hv hw => hv.trans hw.symm,
            ho'.checkout_reset (fun i => (hmade' i).trans (hmade' 1).symm)
              fun v w hv hw => hv.trans hw.symm, hfactory]

theorem State.Paired.borrow (h : Paired k k' s t) (source : Source) :
    Paired k k' (borrow source s).2 (borrow source t).2 :=
  h.exchanges (exchanges_borrow source s) (exchanges_borrow source t)

/-- What a context gives does not depend on the number of its handle. -/
theorem Loan.finish_of_unnumbered {loan loan' : Loan} (h : loan.unnumbered = loan'.unnumbered)
    (data : Bytes) : (loan.update data).finish.1 = (loan'.update data).finish.1 := by
  have hfinish : ∀ l : Loan, (l.update data).finish.1 = (l.unnumbered.update data).finish.1 := by
    intro l
    cases l <;> rfl
  rw [hfinish loan, hfinish loan', h]

theorem State.Paired.compute (h : Paired k k' s t) (ha : Accounts s lent) (ha' : Accounts t lent')
    (source : Source) (data : Bytes) :
    Agree short short' (Paired k k') (compute source data s) (compute source data t) := by
  have hsame := h.fst_borrow ha ha' source
  refine .same ?_ (h.exchanges (exchanges_compute source data s) (exchanges_compute source data t))
  rcases compute_cases source data s with ⟨f, s₁, hb, hout⟩ | ⟨loan, s₁, hb, hout⟩ <;>
    rcases compute_cases source data t with ⟨f', t₁, hb', hout'⟩ | ⟨loan', t₁, hb', hout'⟩ <;>
    rw [hb, hb'] at hsame <;> rw [hout, hout']
  -- one side has a context exactly if the other has, so the mixed cases are none
  · exact congrArg Except.error (Except.error.inj hsame)
  · exact absurd hsame (by simp [Except.map])
  · exact absurd hsame (by simp [Except.map])
  · exact congrArg Except.ok (Loan.finish_of_unnumbered (Except.ok.inj hsame) data)

/-! ## Work that opens pools -/

/-- The factory of a pool, if it is one of digest contexts. -/
def digestFactory? : (type : HandleType) → (Nat → Except Error type.carrier) →
    Option (Nat → Except Error Digest.Context)
  | .digest, factory => some factory
  | _, _ => none

/-- A new pool is in the outline with its factory. -/
theorem outline_added {name : String} {type : HandleType}
    {factory : Nat → Except Error type.carrier} (hn : s.pools.find? name = none) :
    State.outline { s with pools := s.pools.added name type factory }
      = { s.outline with
          pools := s.outline.pools ++ [(name, type)]
          digest := fun n =>
            if n = name then digestFactory? type factory else s.outline.digest n } := by
  unfold State.outline
  congr 1
  · exact Pool.Directory.kinds_added
  · funext n
    dsimp only
    by_cases hname : n = name
    · subst hname
      rw [if_pos rfl]
      by_cases htype : type = .digest
      · subst htype
        rw [Pool.Directory.added, Pool.Directory.pool?_added_self hn]
        rfl
      · -- the name is taken now, and by no digest
        have hnone : digestFactory? type factory = none := by
          cases type with
          | digest => exact absurd rfl htype
          | _ => rfl
        rw [hnone]
        unfold Pool.Directory.find? at hn
        simp [Pool.Directory.pool?, Pool.Directory.find?, Pool.Directory.added, List.find?_append,
          hn, Pool.Entry.pool?, htype]
    · rw [if_neg hname, Pool.Directory.added, Pool.Directory.pool?_added_ne hname]

theorem State.Paired.added (h : Paired k k' s t) {name : String} {type : HandleType}
    {factory : Nat → Except Error type.carrier} (hn : s.pools.find? name = none)
    (hn' : t.pools.find? name = none) (hf : ∀ i, factory i = factory 1) :
    Paired k k' { s with pools := s.pools.added name type factory }
      { t with pools := t.pools.added name type factory } where
  left := h.left
  right := h.right
  inPlace := h.inPlace
  outline := by rw [outline_added hn, outline_added hn', h.outline]
  steady n own hown i := by
    rw [outline_added hn] at hown
    dsimp only at hown
    split at hown
    · cases type with
      | digest =>
          obtain rfl := Option.some.inj hown
          exact hf i
      | _ => exact absurd hown (by simp [digestFactory?])
    · exact h.steady n own hown i

/-- A handle that pools found by name can hold takes no more room than a MAC context. -/
theorem Roomy.named {k : Nat} (h : Roomy k) (type : HandleType) : k * type.size ≤ Room.most := by
  have hsize : type.size ≤ macContextSize := by cases type <;> decide
  exact Nat.le_trans (Nat.mul_le_mul_left k hsize) h

/-- A pool that is asked for is found on both sides or made on both sides, where there is room. -/
theorem State.Paired.getOrCreate (h : Paired k k' s t) (name : String) (type : HandleType)
    (factory : Nat → Except Error type.carrier) (hf : ∀ i, factory i = factory 1) :
    Agree (¬Roomy k) (¬Roomy k') (Paired k k')
      ((s.pools.getOrCreate name type type.size factory).1,
        { s with pools := (s.pools.getOrCreate name type type.size factory).2 })
      ((t.pools.getOrCreate name type type.size factory).1,
        { t with pools := (t.pools.getOrCreate name type type.size factory).2 }) := by
  have hkinds : s.pools.kinds = t.pools.kinds := congrArg Outline.pools h.outline
  cases hfound : s.pools.find? name with
  | some e =>
      -- the outlines list the same names, so it is found in both or in neither
      have hfound' : (t.pools.find? name).isSome = true := by
        rw [Option.isSome_iff_ne_none]
        intro hn
        rw [Pool.Directory.find?_eq_none_of_kinds hkinds.symm hn] at hfound
        exact absurd hfound (by simp)
      obtain ⟨e', hfound'⟩ := Option.isSome_iff_exists.mp hfound'
      rw [Pool.Directory.getOrCreate_found hfound, Pool.Directory.getOrCreate_found hfound']
      exact .same (Pool.Directory.check_of_kinds hkinds) h
  | none =>
      have hfound' := Pool.Directory.find?_eq_none_of_kinds hkinds hfound
      by_cases hs : s.pools.capacity * type.size ≤ Room.most
      · by_cases ht : t.pools.capacity * type.size ≤ Room.most
        · rw [Pool.Directory.getOrCreate_new hfound hs, Pool.Directory.getOrCreate_new hfound' ht]
          exact .same rfl (h.added hfound hfound' hf)
        · rw [Pool.Directory.getOrCreate_short hfound' ht]
          -- no room on this side, which unwinds; then nothing has to agree
          exact Or.inr (Or.inl ⟨fun hk => ht (h.right ▸ hk.named type), rfl⟩)
      · rw [Pool.Directory.getOrCreate_short hfound hs]
        exact Or.inl ⟨fun hk => hs (h.left ▸ hk.named type), rfl⟩

theorem blind_openDigestPool (kind : Digest.Kind) :
    Blind (¬Roomy k) (¬Roomy k') (Paired k k') (openDigestPool kind) :=
  fun _ _ h => h.getOrCreate kind.name .digest _ fun _ => rfl

/-- The pool of a new MAC key gets the next number, if there is room for it. -/
theorem openMacPool_new {kind : Digest.Kind} {key : Bytes} (room : Roomy s.pools.capacity) :
    openMacPool kind key s = (.ok s.macPools.length, { s with macPools := s.macPools ++
      [Pool.empty ("HMAC/" ++ kind.name) s.pools.capacity
        fun _ => .ok (Mac.Context.fresh kind key)] }) := by
  unfold openMacPool Pool.reserve
  rw [Room.reserve_eq_ok_iff.mpr room]
  rfl

theorem openMacPool_short {kind : Digest.Kind} {key : Bytes} (room : ¬Roomy s.pools.capacity) :
    openMacPool kind key s = (.error .unwound, s) := by
  unfold openMacPool Pool.reserve
  rw [Room.reserve_eq_unwound room]
  rfl

theorem outline_addMac (pool : Pool Mac.Context) :
    State.outline { s with macPools := s.macPools ++ [pool] }
      = { s.outline with macs := s.outline.macs ++ [pool.factory] } := by
  simp [State.outline]

theorem blind_openMacPool (kind : Digest.Kind) (key : Bytes) :
    Blind (¬Roomy k) (¬Roomy k') (Paired k k') (openMacPool kind key) := by
  rintro s t ⟨rfl, rfl, hinPlace, houtline, hsteady⟩
  by_cases hs : Roomy s.pools.capacity
  · by_cases ht : Roomy t.pools.capacity
    · have hlength : s.macPools.length = t.macPools.length := by
        simpa [State.outline] using congrArg (fun o => o.macs.length) houtline
      rw [openMacPool_new hs, openMacPool_new ht]
      refine .same (congrArg Except.ok hlength) ⟨rfl, rfl, hinPlace, ?_, ?_⟩
      · rw [outline_addMac, outline_addMac, houtline]
        rfl
      · rw [outline_addMac]
        exact hsteady
    · rw [openMacPool_short ht]
      exact Or.inr (Or.inl ⟨ht, rfl⟩)
  · rw [openMacPool_short hs]
    exact Or.inl ⟨hs, rfl⟩

/-- Both runs draw from the same source, and it is the same afterwards. -/
theorem blind_drawing (draw : Entropy → Except Failure α × Entropy) :
    Blind short short' (Paired k k') (drawing draw) := by
  intro s t h
  have hentropy : s.entropy = t.entropy := congrArg Outline.entropy h.outline
  rw [drawing_apply, drawing_apply, hentropy]
  refine .same rfl ⟨h.left, h.right, h.inPlace, ?_, h.steady⟩
  exact congrArg (fun o : Outline => { o with entropy := (draw t.entropy).2 }) h.outline

theorem blind_make (core : κ) : Blind short short' (Paired k k') (Operation.make core) := by
  intro s t h
  have hexecutor : s.executor = t.executor := congrArg Outline.executor h.outline
  refine .same ?_ h
  show Except.ok (⟨core, s.executor⟩ : Operation κ) = .ok ⟨core, t.executor⟩
  rw [hexecutor]

/-! ## Calls -/

/-- Work done in the caller's place is the work. -/
theorem call_inPlace {o : Operation κ} (ho : o.executor = .inPlace) (shape : Shape)
    (work : Action State α) : o.call shape work = work := by
  cases shape with
  | direct => rfl
  | offloaded =>
      funext s
      rw [Operation.call, offload_apply, ho]
      rcases work s with ⟨(e | _) | v, s'⟩ <;> rfl

/-- Whatever the executor, what needs no room is called alike. -/
theorem agree_call {o : Operation κ} {shape : Shape} {work : Action State α}
    (h : Paired k k' s t) (hw : Agree False False (Paired k k') (work s) (work t)) :
    Agree short short' (Paired k k') (o.call shape work s) (o.call shape work t) := by
  obtain ⟨hr, hR⟩ := hw.sure
  cases shape with
  | direct => exact .same hr hR
  | offloaded =>
      rw [Operation.call, offload_apply, offload_apply, hr]
      refine .same rfl ?_
      dsimp only
      split
      · exact hR
      · exact h

theorem State.Paired.hash (h : Paired k k' s t) (ha : Accounts s lent) (ha' : Accounts t lent')
    (hasher : Hasher) (data : Bytes) :
    Agree short short' (Paired k k') (hasher.hash data s) (hasher.hash data t) :=
  h.compute ha ha' _ data

theorem State.Paired.sign (h : Paired k k' s t) (ha : Accounts s lent) (ha' : Accounts t lent')
    (signer : Signer) (data : Bytes) :
    Agree short short' (Paired k k') (signer.sign data s) (signer.sign data t) :=
  (h.compute ha ha' _ data).bind fun _ _ _ _ h' => blind_ofExcept _ _ _ h'

theorem State.Paired.verify (h : Paired k k' s t) (ha : Accounts s lent) (ha' : Accounts t lent')
    (v : Verifier) (data signature : Bytes) :
    Agree short short' (Paired k k') (v.verify data signature s) (v.verify data signature t) :=
  (h.compute ha ha' _ data).bind fun _ _ _ _ h' => .same rfl h'

theorem State.Paired.verifyOrFail (h : Paired k k' s t) (ha : Accounts s lent)
    (ha' : Accounts t lent') (v : Verifier) (data signature : Bytes) :
    Agree short short' (Paired k k') (v.verifyOrFail data signature s)
      (v.verifyOrFail data signature t) := by
  refine (h.verify ha ha' v data signature).bind fun valid s' t' _ h' => ?_
  cases valid with
  | true => exact .same rfl h'
  | false => exact .same rfl h'

/-! ## Operations -/

theorem blind_makeHmacKey (digest : Digest.Kind) (bytes : Bytes) :
    Blind (¬Roomy k) (¬Roomy k') (Paired k k') (HmacKey.make digest bytes) :=
  (blind_openMacPool digest bytes).bind fun _ => blind_pure _

theorem blind_decodeHmacKey (digest : String) (format : KeyFormat) (bytes : Bytes) :
    Blind (¬Roomy k) (¬Roomy k') (Paired k k') (HmacKey.decode digest format bytes) := by
  refine (blind_ofExcept _).bind fun kind => (blind_ofExcept _).bind fun _ => ?_
  split
  · exact (blind_fail _).bind fun _ => blind_makeHmacKey kind bytes
  · exact blind_makeHmacKey kind bytes

theorem blind_chooseNonce (c : Aead.Cipher) (nonce : Option Bytes) :
    Blind short short' (Paired k k') (Enciphering.chooseNonce c nonce) := by
  cases nonce with
  | some nonce => exact blind_ofExcept _
  | none => exact blind_drawing _

theorem blind_encryptBox (c : Aead.Cipher) (nonce : Option Bytes) (associated plaintext : Bytes) :
    Blind short short' (Paired k k') (Enciphering.encryptBox c nonce associated plaintext) :=
  (blind_chooseNonce c nonce).bind fun _ => blind_ofExcept _

theorem blind_startEncrypting (c : Aead.Cipher) (nonce : Option Bytes) (associated : Bytes) :
    Blind short short' (Paired k k') (Enciphering.startEncrypting c nonce associated) :=
  (blind_chooseNonce c nonce).bind fun _ => blind_pure _

theorem blind_exchange (o : Operation Agreement) (shape : Shape) (peer : Peer) :
    Blind short short' (Paired k k') (Agreement.exchange o shape peer) :=
  (blind_ofExcept _).bind fun _ _ _ h => agree_call h (blind_ofExcept _ _ _ h)

/-- A generator works on the executor of the state that it was made on. -/
theorem blind_generate {π : Type} [Parameters π] {f : Factory State π (KeyGenerator α)}
    (hf : ∀ p, Blind short short' (Paired k k') (f.construct p))
    (hcore : ∀ p s s' o, f.construct p s = (.ok o, s') →
      Blind short short' (Paired k k') o.core ∧ o.executor = s.executor)
    (route : Factory.Route) (changes : π → π) (shape : Shape) :
    Blind short short' (Paired k k') (do
      let generator ← f.make route changes
      generator.call shape generator.core) := by
  intro s t h
  refine (Factory.blind_factory hf route changes s t h).bind fun o s' t' hout h' => ?_
  obtain ⟨p, hp⟩ := Factory.make_eq_ok hout
  obtain ⟨hblind, hexecutor⟩ := hcore p s s' o hp
  rw [call_inPlace (hexecutor.trans h.inPlace)]
  exact hblind s' t' h'

theorem blind_generateHmac (route : Factory.Route)
    (changes : Parameters.HmacKey → Parameters.HmacKey) (shape : Shape) :
    Blind (¬Roomy k) (¬Roomy k') (Paired k k') (do
      let generator ← hmacGenerator.make route changes
      generator.call shape generator.core) := by
  refine blind_generate (fun p => ?_) (fun p s s' o h => ?_) route changes shape
  · exact (blind_ofExcept _).bind fun _ => blind_make _
  · obtain ⟨kind, s₁, hkind, h⟩ := Action.bind_eq_ok h
    obtain ⟨-, rfl⟩ := Action.ofExcept_eq_ok hkind
    obtain rfl := Except.ok.inj (congrArg Prod.fst h)
    exact ⟨(blind_drawing _).bind fun bytes => blind_makeHmacKey kind bytes, rfl⟩

theorem blind_generateAead (kind : Aead.Kind) (route : Factory.Route)
    (changes : Parameters.AeadKey → Parameters.AeadKey) (shape : Shape) :
    Blind short short' (Paired k k') (do
      let generator ← (aeadGenerator kind).make route changes
      generator.call shape generator.core) := by
  refine blind_generate (fun p => ?_) (fun p s s' o h => ?_) route changes shape
  · exact (blind_ofExcept _).bind fun _ => blind_make _
  · obtain ⟨_, s₁, hsize, h⟩ := Action.bind_eq_ok h
    obtain ⟨-, rfl⟩ := Action.ofExcept_eq_ok hsize
    obtain rfl := Except.ok.inj (congrArg Prod.fst h)
    exact ⟨(blind_drawing _).bind fun _ => blind_ofExcept _, rfl⟩

theorem blind_generatePair (route : Factory.Route)
    (changes : Parameters.EcKey → Parameters.EcKey) (shape : Shape) :
    Blind short short' (Paired k k') (do
      let generator ← keyPairGenerator.make route changes
      generator.call shape generator.core) := by
  refine blind_generate (fun p => ?_) (fun p s s' o h => ?_) route changes shape
  · exact (blind_ofExcept _).bind fun _ => blind_make _
  · obtain ⟨_, s₁, hcurve, h⟩ := Action.bind_eq_ok h
    obtain ⟨-, rfl⟩ := Action.ofExcept_eq_ok hcurve
    obtain rfl := Except.ok.inj (congrArg Prod.fst h)
    exact ⟨blind_drawing _, rfl⟩

theorem blind_openSha2 (algorithm digest : String) (core : Digest.Kind → κ) :
    Blind (¬Roomy k) (¬Roomy k') (Paired k k') (do
      let kind ← Action.ofExcept (requireSha2 algorithm digest)
      openDigestPool kind
      Operation.make (core kind)) :=
  (blind_ofExcept _).bind fun kind => (blind_openDigestPool kind).bind fun _ => blind_make _

/-! ## Where there is no room -/

theorem unwinds_openDigestPool (kind : Digest.Kind) (s : State) :
    (openDigestPool kind s).1 = .error .unwound
      ↔ s.pools.find? kind.name = none
        ∧ Room.most < s.pools.capacity * HandleType.digest.size := by
  have hout : (openDigestPool kind s).1 = (s.pools.getOrCreate kind.name .digest
    HandleType.digest.size fun _ => .ok (Digest.Context.fresh kind)).1 := rfl
  rw [hout]
  cases hf : s.pools.find? kind.name with
  | some e =>
      rw [Pool.Directory.getOrCreate_found hf, Pool.Directory.check, hf]
      dsimp only
      split
      · simp
      · simp
  | none =>
      by_cases hroom : s.pools.capacity * HandleType.digest.size ≤ Room.most
      · rw [Pool.Directory.getOrCreate_new hf hroom]
        simp [hroom]
      · rw [Pool.Directory.getOrCreate_short hf hroom]
        simpa using hroom

/-- A hasher cannot be had exactly where its pool is missing and there is no room for it. -/
theorem unwinds_hasher_iff (kind : Digest.Kind) (route : Factory.Route) (s : State) :
    ((Hasher.factory kind).make route id s).1 = .error .unwound
      ↔ s.pools.find? kind.name = none
        ∧ Room.most < s.pools.capacity * HandleType.digest.size := by
  have hmake : (Hasher.factory kind).make route id = (do
      openDigestPool kind
      Operation.make ⟨kind⟩) := by
    cases route <;> rfl
  rw [hmake, Action.fst_bind, ← unwinds_openDigestPool]
  cases (openDigestPool kind s).1 with
  | error f => simp [Except.bind]
  | ok u => simp [Except.bind, Operation.make]

/-- A MAC key makes a pool of its own, so it cannot be had wherever there is no room for one. -/
theorem unwinds_key_iff {digest : String} {kind : Digest.Kind} {bytes : Bytes}
    (hkind : requireSha2 Algorithm.hmac digest = .ok kind) (hne : bytes ≠ []) (s : State) :
    (HmacKey.decode digest .raw bytes s).1 = .error .unwound ↔ ¬Roomy s.pools.capacity := by
  have hdecode : HmacKey.decode digest .raw bytes = HmacKey.make kind bytes := by
    unfold HmacKey.decode
    rw [hkind]
    cases bytes with
    | nil => exact absurd rfl hne
    | cons b rest => rfl
  rw [hdecode, HmacKey.make, Action.fst_bind]
  by_cases hroom : Roomy s.pools.capacity
  · rw [openMacPool_new hroom]
    simp [Except.bind, Action.pure_apply, hroom]
  · rw [openMacPool_short hroom]
    simp [Except.bind, hroom]

end PooledCrypto.Provider
