import PooledCrypto.Proofs.KeyedContexts
import PooledCrypto.Proofs.Undisturbed

/-!
# What failed calls leave behind

Pools are made on the way to something else: whoever makes a hasher, or a signer with a key on a
curve, sees to it that the digest has a pool. All that can go wrong is looked into before that, so a
call that fails leaves the directory as it was. The one thing that can still be tried in vain is to
borrow. Then a pool's factory was called, and no more than that.

`failed_step` is about one command in any session whose items are in order. Somebody else may have
the directory too. `Move` is what commands and others do with it, and `Orderly` what no move
disturbs.
-/

namespace PooledCrypto.Session

open Provider
open PooledCrypto.Action (Keeps Spares Sure)

variable {s s' t : Session} {es : List Event} {c : Command} {prepared : Prepared} {d : Pools}

/-! ## Commands and others -/

/-- Where the command borrows a context, if it does. -/
def asked? (s : Session) (c : Command) : Option Source := (s.called? c).or (s.opened? c)

/-- The session with another directory. -/
def withPools (s : Session) (pools : Pools) : Session :=
  { s with provider.state.pools := pools }

/-- What happens to the directory of a session. -/
inductive Move
  | command (c : Command)
  /-- Somebody else asks for a pool, with handles and a factory of any kind. -/
  | ask (name : String) (type : HandleType) (handleBytes : Nat)
      (factory : Nat → Except Error type.carrier)
  /-- Somebody else uses a pool that is there. -/
  | use (name : String) (type : HandleType) (use : Pool.Use type.carrier)

/-- The session after a move. -/
def move (s : Session) : Move → Session
  | .command c => (s.step c).2
  | .ask name type handleBytes factory =>
    s.withPools (s.provider.state.pools.getOrCreate name type handleBytes factory).2
  | .use name type use =>
    match s.provider.state.pools.pool? name type with
    | none => s
    | some pool => s.withPools (s.provider.state.pools.replace name type (use.after pool))

/-- The session after moves one after the other. -/
def moves (s : Session) (ms : List Move) : Session := ms.foldl move s

/-- The command asks for an operation with a digest that cannot be had for it. -/
inductive AsksUnsupported (s : Session) : Command → Prop
  | hasher (dest : Option String) {name : String} (route : Factory.Route) {f : Failure}
      (missing : (locate .digest name s.provider).1 = .error f) :
      AsksUnsupported s (.hasher dest name route)
  | signer {on : String} {k : Curve.P256.PrivateKey} {drawn : Bool}
      (found : s.item? on = some (.key (.ecdsaPrivate k) drawn)) (dest : Option String)
      {route : Factory.Route} (heeds : route ≠ .create) {digest : String} {e : Error}
      (other : requireSha2 Algorithm.ecdsa digest = .error e)
      (form : Option Parameters.SignatureForm) :
      AsksUnsupported s (.signer on dest route (some digest) form)
  | verifier {on : String} {k : Curve.P256.PublicKey} {drawn : Bool}
      (found : s.item? on = some (.key (.ecdsaPublic k) drawn)) (dest : Option String)
      {route : Factory.Route} (heeds : route ≠ .create) {digest : String} {e : Error}
      (other : requireSha2 Algorithm.ecdsa digest = .error e)
      (form : Option Parameters.SignatureForm) :
      AsksUnsupported s (.verifier on dest route (some digest) form)

/-- Calls that fail in the session leave no trace in the directory. -/
structure LeavesNoTrace (s : Session) : Prop where
  /-- What borrows nothing changes nothing when it fails: making keys, operations and functions of
  ciphers, looking around, feeding. A run is left out, since it gives back what its function had. -/
  made : ∀ c f, s.asked? c = none → (∀ on chunks last, c ≠ .run on chunks last) →
    (s.step c).1.outcome = .failure f →
    (s.step c).2.provider.state.pools = s.provider.state.pools
  /-- A function that cannot be started. -/
  started : ∀ c source f, s.opened? c = some source → (s.step c).1.outcome = .failure f →
    s.provider.state.pools.Undisturbed (s.step c).2.provider.state.pools
  /-- A one-shot call without a context to be had. It does fail. -/
  called : ∀ c source e, s.called? c = some source →
    (borrow source s.provider.state).1 = .error e →
    (∀ v, (s.step c).1.outcome ≠ .value v)
      ∧ s.provider.state.pools.Undisturbed (s.step c).2.provider.state.pools
  /-- A digest that is not supported: the call fails and there is no pool for it. -/
  unsupported : ∀ c, AsksUnsupported s c → (∃ f, (s.step c).1.outcome = .failure f)
    ∧ (s.step c).2.provider.state.pools = s.provider.state.pools
  /-- Whatever pools commands make are those of digests that are. -/
  supported : ∀ c name, (∀ name type, c ≠ .seedPool name type) →
    name ∈ (s.step c).2.provider.state.pools.names →
    name ∈ s.provider.state.pools.names ∨ ∃ kind : Digest.Kind, name = kind.name
  /-- A pool of another type is what it is, handles and all, whatever commands come and however
  they end. -/
  foreign : ∀ c name e, s.provider.state.pools.find? name = some e → e.type ≠ .digest →
    (s.step c).2.provider.state.pools.find? name = some e

/-! ## What commands do with the directory -/

/-- Pools are asked for, and digest pools are put in the place of others. -/
inductive Managed (d : Pools) : Pools → Prop
  | refl : Managed d d
  | ask {d' : Pools} (name : String) (type : HandleType) (handleBytes : Nat)
      (factory : Nat → Except Error type.carrier) :
      Managed d d' → Managed d (d'.getOrCreate name type handleBytes factory).2
  | digest {d' : Pools} (name : String) (pool : Pool Digest.Context) :
      Managed d d' → Managed d (d'.replace name .digest pool)

namespace Managed

variable {d' d'' : Pools}

theorem trans (h : Managed d d') (h' : Managed d' d'') : Managed d d'' := by
  induction h' with
  | refl => exact h
  | ask name type handleBytes factory _ ih => exact ih.ask name type handleBytes factory
  | digest name pool _ ih => exact ih.digest name pool

/-- A name has one pool. -/
theorem nodup (h : Managed d d') (honce : d.names.Nodup) : d'.names.Nodup := by
  induction h with
  | refl => exact honce
  | ask name type handleBytes factory _ ih => exact Pool.Directory.nodup_getOrCreate ih
  | digest name pool _ ih =>
      rw [Pool.Directory.names_replace]
      exact ih

/-- No pool of another type is touched. -/
theorem foreign (h : Managed d d') {name : String} {e : Pool.Entry HandleType HandleType.carrier}
    (hf : d.find? name = some e) (htype : e.type ≠ .digest) : d'.find? name = some e := by
  induction h with
  | refl => exact hf
  | @ask d' other type handleBytes factory _ ih =>
      rcases Pool.Directory.getOrCreate_cases d' other type handleBytes factory with
        hsame | ⟨_, hadded⟩
      · rw [hsame]
        exact ih
      · -- the new pool comes last, so the entry is still the first of its name
        rw [hadded]
        unfold Pool.Directory.find? at ih ⊢
        rw [List.find?_append, ih]
        rfl
  | digest other pool _ ih =>
      rw [Pool.Directory.find?_replace, ih]
      simp [htype]

end Managed

theorem managed_exchanges {name? : Option String} {st st' : State} (h : Exchanges name? st st') :
    Managed st.pools st'.pools := by
  induction h with
  | refl => exact .refl
  | digest _ _ _ _ ih => exact ih.digest _ _
  | mac _ _ _ _ ih => exact ih

theorem managed_opens {st st' : State} (h : Opens st st') : Managed st.pools st'.pools := by
  induction h with
  | refl => exact .refl
  | draw _ _ ih => exact ih
  | digest _ _ ih => exact ih.ask _ _ _ _
  | @mac before kind key _ ih =>
      exact (durable_pools before.pools).openMacPool kind key before rfl ▸ ih

theorem managed_release (item : Item) (st : State) : Managed st.pools (item.release st).pools := by
  unfold Item.release
  cases item.loan? with
  | none => exact .refl
  | some loan => exact managed_exchanges (exchanges_giveBack st loan)

theorem managed_discard (s : Session) (name : String) :
    Managed s.provider.state.pools (s.discard name).provider.state.pools := by
  unfold discard
  dsimp only
  cases s.slots.get? name with
  | none => exact .refl
  | some old => exact managed_release old _

theorem managed_keep (s : Session) (dest : Option String) (item : Item) :
    Managed s.provider.state.pools (keep dest item s).2.provider.state.pools := by
  cases dest with
  | none => exact managed_release item _
  | some name => exact managed_discard s name

/-- No part of a step does more to the directory than that. -/
theorem Part.managed (h : Part s es t) :
    Managed s.provider.state.pools t.provider.state.pools := by
  cases h with
  | prepare _ state => exact managed_opens state
  | seed name type _ _ state =>
      rw [state]
      exact Managed.refl.ask _ _ _ _
  | call source data _ _ state =>
      rw [state]
      exact managed_exchanges (exchanges_compute source data _)
  | miss source f _ borrowed =>
      have hmid := managed_exchanges (exchanges_borrow source s.provider.state)
      rwa [borrowed] at hmid
  | @start source loan st item dest borrowed _ _ =>
      have hmid := managed_exchanges (exchanges_borrow source s.provider.state)
      rw [borrowed] at hmid
      exact hmid.trans (managed_keep { s with provider.state := st } dest item)
  | fill dest item _ _ => exact managed_keep s dest item
  | discard name => exact managed_discard s name
  | feed _ _ _ _ => exact .refl
  | @close name old item _ _ _ => exact managed_release old _

/-- Nor do several parts, one after the other. -/
theorem Parts.managed (h : Parts s es t) :
    Managed s.provider.state.pools t.provider.state.pools := by
  induction h with
  | nil => exact .refl
  | snoc _ hpart ih => exact ih.trans hpart.managed

/-! ## Work that fails -/

/-- The session has this directory. -/
abbrev Has (d : Pools) (s : Session) : Prop := s.provider.state.pools = d

theorem has_onState {α : Type} {work : Action State α} (hw : Keeps (fun st => st.pools = d) work) :
    Keeps (Has d) (onState work) :=
  fun s hs => hw s.provider.state hs

theorem has_get (f : Family) (name : String) : Keeps (Has d) (onProvider (get f name)) := by
  intro s hs
  show (get f name s.provider).2.state.pools = d
  rw [state_get]
  exact hs

theorem has_lookUpUse (use : CurveUse) : Keeps (Has d) (lookUpUse use) := by
  cases use with
  | ecdsa => exact has_get _ _
  | ecdh => exact has_get _ _

theorem has_lookUp (name : String) (f : Family) (required : Bool) :
    Keeps (Has d) (lookUp name f required) := by
  intro s hs
  have hmid : (onProvider (locate f name) s).2.provider.state = s.provider.state :=
    state_locate f name s.provider
  unfold lookUp
  rcases hout : onProvider (locate f name) s with ⟨e | found, after⟩
  · rw [hout] at hmid
    dsimp only
    split
    · exact (congrArg State.pools hmid).trans hs
    · exact (congrArg State.pools hmid).trans hs
  · rw [hout] at hmid
    refine Keeps.bind (P := Has d) ?_ (fun _ => Action.keeps_pure _) after
      ((congrArg State.pools hmid).trans hs)
    intro s hs
    unfold noteFound
    split
    · exact hs
    · exact hs

theorem spares_onState {α : Type} {work : Action State α}
    (hw : Spares (fun st => st.pools = d) work) : Spares (Has d) (onState work) := by
  intro s s' f hs hout
  obtain ⟨hresult, rfl⟩ := Prod.mk.inj hout
  exact hw s.provider.state _ f hs (Prod.ext hresult rfl)

theorem spares_seed (name : String) (type : HandleType) :
    Spares (fun st => st.pools = d) (seed name type) := by
  intro st st' f hs hout
  unfold seed at hout
  rcases hmade : st.pools.getOrCreate name type type.size (seedFactory type) with ⟨f' | u, after⟩
  · have hsame := Pool.Directory.getOrCreate_error (congrArg Prod.fst hmade)
    rw [hmade] at hout hsame
    obtain ⟨_, rfl⟩ := Prod.mk.inj hout
    exact hsame.trans hs
  · rw [hmade] at hout
    exact absurd (congrArg Prod.fst hout) (by simp [Except.map])

/-- Filling a slot cannot fail. -/
theorem sure_keep (dest : Option String) (item : Item) : Sure (keep dest item) := by
  intro s
  cases dest with
  | none => exact ⟨(), _, rfl⟩
  | some name => exact ⟨(), _, rfl⟩

/-- Nothing fails any more once something is kept. -/
theorem sure_keeping (dest : Option String) (item : Item) (v : Value) :
    Sure (do keep dest item; return v : Work) :=
  (sure_keep dest item).bind fun _ => Action.sure_pure v

theorem plainly_of_error {work : Work} {f : Failure} (h : work s = (.error f, t)) :
    plainly work s = (⟨.failure f, none⟩, t) := by
  rw [plainly, h]

theorem plainly_onState_of_error {α : Type} {work : Action State α} {next : α → Work}
    {f : Failure} {st : State} (h : work s.provider.state = (.error f, st)) :
    plainly (onState work >>= next) s = (⟨.failure f, none⟩, { s with provider.state := st }) := by
  have hout : onState work s = (.error f, { s with provider.state := st }) := by
    unfold onState
    rw [h]
  exact plainly_of_error (Action.bind_of_error hout)

/-- If the command fails, the directory is as it was. -/
def Careful (s : Session) (work : Prepared) : Prop :=
  ∀ f, (work s).1.outcome = .failure f → Has s.provider.state.pools (work s).2

/-- Work that spares the pools when it fails is careful, however its result is kept. -/
theorem careful_plainly {work : Work} (hw : ∀ d, Spares (Has d) work) :
    Careful s (plainly work) := by
  intro f hf
  unfold plainly at hf ⊢
  rcases hout : work s with ⟨e | v, after⟩
  · exact hw _ s after e rfl hout
  · rw [hout] at hf
    exact absurd hf (by simp)

theorem careful_sure {work : Work} (hw : Sure work) : Careful s (plainly work) :=
  careful_plainly fun _ => hw.spares

/-- What comes first leaves the directory alone, and nothing fails afterwards. -/
theorem careful_bind {α : Type} {work : Action Session α} {next : α → Work}
    (hw : ∀ d, Keeps (Has d) work) (hn : ∀ x, Sure (next x)) :
    Careful s (plainly (work >>= next)) :=
  careful_plainly fun d => (hw d).spares.bind_sure hn

/-- So does the work on what was looked up. -/
theorem careful_bind_bind {α β : Type} {look : Action Session α} {work : α → Action Session β}
    {next : α → β → Work} (hl : ∀ d, Keeps (Has d) look) (hw : ∀ d x, Keeps (Has d) (work x))
    (hn : ∀ x y, Sure (next x y)) :
    Careful s (plainly (look >>= fun x => work x >>= next x)) :=
  careful_plainly fun d => (hl d).spares_bind fun x => (hw d x).spares.bind_sure (hn x)

theorem careful_look (h : LookPrepared s c prepared) : Careful s prepared := by
  cases h with
  | lookup name family required => exact careful_plainly fun _ => (has_lookUp _ _ _).spares
  | seedPool name type => exact careful_plainly fun _ => spares_onState (spares_seed name type)
  | keep dest hd => exact careful_sure (sure_keeping _ _ _)
  | clone dest hitem hexecutor => exact careful_sure (sure_keeping _ _ _)
  | drop on =>
      intro f hf
      exact absurd hf (by simp)
  | _ => exact careful_sure (Action.sure_pure _)

theorem careful_key (h : KeyPrepared s c prepared) : Careful s prepared := by
  cases h with
  | importHmac =>
      refine careful_bind_bind (fun _ => has_get _ _) (fun d _ => ?_) fun _ _ => sure_keeping _ _ _
      exact has_onState ((durable_pools d).decodeHmacKey _ _ _)
  | generateHmac =>
      refine careful_bind_bind (fun _ => has_get _ _) (fun d _ => ?_) fun _ _ => sure_keeping _ _ _
      exact has_onState ((durable_pools d).generateHmac _ _ _)
  | importAead =>
      refine careful_bind_bind (fun _ => has_get _ _) (fun _ _ => ?_) fun _ _ => sure_keeping _ _ _
      exact Action.keeps_ofExcept _
  | generateAead =>
      refine careful_bind_bind (fun _ => has_get _ _) (fun d _ => ?_) fun _ _ => sure_keeping _ _ _
      exact has_onState ((durable_pools d).generateAead _ _ _ _)
  | importPublic =>
      refine careful_bind_bind (fun _ => has_lookUpUse _) (fun _ _ => ?_)
        fun _ _ => sure_keeping _ _ _
      exact Action.keeps_ofExcept _
  | importPrivate =>
      refine careful_bind_bind (fun _ => has_lookUpUse _) (fun _ _ => ?_)
        fun _ _ => sure_keeping _ _ _
      exact Action.keeps_ofExcept _
  | generatePair =>
      -- here both keys of the pair are kept
      refine careful_bind_bind (fun _ => has_lookUpUse _) (fun d _ => ?_)
        fun _ _ => (sure_keep _ _).bind fun _ => sure_keeping _ _ _
      exact has_onState ((durable_pools d).generatePair _ _ _)
  | encode => exact careful_bind (fun _ => Action.keeps_ofExcept _) fun _ => sure_keeping _ _ _

/-- An operation is made and kept: what can fail is its construction. -/
theorem careful_making {κ π : Type} [Parameters π] {f : Factory State π (Operation κ)}
    {route : Factory.Route} {changes : π → π} {next : Operation κ → Work}
    (hf : ∀ d p, Spares (fun st => st.pools = d) (f.construct p)) (hn : ∀ o, Sure (next o)) :
    ∀ d, Spares (Has d) (onState (f.make route changes) >>= next) :=
  fun d => (spares_onState (Action.spares_make (hf d) route changes)).bind_sure hn

theorem careful_make (h : MakePrepared s c prepared) : Careful s prepared := by
  cases h with
  | hasher =>
      refine careful_plainly fun d => (has_get _ _).spares_bind fun kind => ?_
      refine careful_making (fun d p => ?_) (fun o => sure_keeping _ _ _) d
      -- with the digest found, it is opening the pool that can fail, and that is the last such step
      exact (spares_openDigestPool kind).bind_sure fun _ => sure_operation _
  | cipher =>
      refine careful_plainly (careful_making (fun d p => ?_) fun o => sure_keeping _ _ _)
      exact (Action.keeps_ofExcept _).spares_bind fun _ => (sure_operation _).spares
  | hmacSigner =>
      refine careful_plainly (careful_making (fun d p => ?_) fun o => sure_keeping _ _ _)
      exact (sure_operation _).spares
  | ecdsaSigner =>
      refine careful_plainly (careful_making (fun d p => ?_) fun o => sure_keeping _ _ _)
      exact spares_openSha2 _ _ _
  | hmacVerifier =>
      refine careful_plainly (careful_making (fun d p => ?_) fun o => sure_keeping _ _ _)
      exact (sure_operation _).spares
  | ecdsaVerifier =>
      refine careful_plainly (careful_making (fun d p => ?_) fun o => sure_keeping _ _ _)
      exact spares_openSha2 _ _ _
  | agreement =>
      refine careful_plainly (careful_making (fun d p => ?_) fun o => sure_keeping _ _ _)
      exact (sure_operation _).spares

/-! ## Work that borrows -/

/-- The command borrows for one call, and then keeps what comes of it. -/
inductive Calling (s : Session) (c : Command) : Prepared → Prop
  | intro {κ α : Type} (o : Operation κ) (shape : Shape) (source : Source)
      {work : Action State α} {next : α → Work}
      (called : s.called? c = if o.works shape then some source else none)
      (borrows : ∀ st f st', borrow source st = (.error f, st') → work st = (.error f, st'))
      (keeps : ∀ x, Sure (next x)) :
      Calling s c (plainly (onState (o.call shape work) >>= next))

/-- Where no context can be had nothing is computed, and nothing given back. -/
theorem compute_of_error {source : Source} {data : Bytes} {st st' : State} {f : Failure}
    (h : borrow source st = (.error f, st')) : compute source data st = (.error f, st') :=
  Action.bind_of_error h

/-- A call that borrows does so from a source that is known beforehand. Any other one is careful. -/
theorem calling_cases (h : CallPrepared s c prepared) :
    Calling s c prepared ∨ (s.called? c = none ∧ Careful s prepared) := by
  cases h with
  | @hash on o hitem data d hd shape dest =>
      -- four calls borrow a context, and fail if they get none; the others have no use for the
      -- pools
      refine Or.inl (.intro o shape (.digest o.core.kind) ?_ (fun st f st' hb => ?_) fun x => ?_)
      · simp only [called?, hitem]
      · exact compute_of_error hb
      · exact sure_keeping _ _ _
  | @sign on o drawn hitem data d hd shape dest =>
      refine Or.inl (.intro o shape o.core.source ?_ (fun st f st' hb => ?_) fun x => ?_)
      · simp only [called?, hitem]
      · exact Action.bind_of_error (compute_of_error hb)
      · exact sure_keeping _ _ _
  | @verify on o hitem data signature d sig hd hsig shape =>
      refine Or.inl (.intro o shape o.core.source ?_ (fun st f st' hb => ?_) fun x => ?_)
      · simp only [called?, hitem]
      · exact Action.bind_of_error (compute_of_error hb)
      · exact Action.sure_pure _
  | @verifyOrFail on o hitem data signature d sig hd hsig =>
      refine Or.inl (.intro o .direct o.core.source ?_ (fun st f st' hb => ?_) fun x => ?_)
      · simp only [called?, hitem, Operation.works, if_true]
      · exact Action.bind_of_error (Action.bind_of_error (compute_of_error hb))
      · exact Action.sure_pure _
  | agree =>
      refine Or.inr ⟨rfl, careful_bind (fun d => ?_) fun _ => sure_keeping _ _ _⟩
      exact has_onState (keeps_exchange _ _ _)
  | sizes => exact Or.inr ⟨rfl, careful_plainly fun d => (Action.keeps_ofExcept _).spares⟩
  | encrypt =>
      refine Or.inr ⟨rfl, careful_bind (fun d => ?_) fun _ => sure_keeping _ _ _⟩
      exact has_onState (keeps_call ((durable_pools d).encryptBox _ _ _ _) _ _)
  | encryptBox =>
      refine Or.inr ⟨rfl, careful_bind (fun d => ?_) fun _ => sure_keeping _ _ _⟩
      exact has_onState (keeps_call ((durable_pools d).encryptBox _ _ _ _) _ _)
  | decrypt =>
      refine Or.inr ⟨rfl, careful_bind (fun d => ?_) fun _ => sure_keeping _ _ _⟩
      exact has_onState (keeps_call (Action.keeps_ofExcept _) _ _)
  | decryptBox =>
      refine Or.inr ⟨rfl, careful_bind (fun d => ?_) fun _ => sure_keeping _ _ _⟩
      exact has_onState (keeps_call (Action.keeps_ofExcept _) _ _)

/-- A call that does not get as far as the operation is careful. -/
theorem Calling.careful (h : Calling s c prepared) (hcalled : s.called? c = none) :
    Careful s prepared := by
  cases h with
  | intro o shape source called borrows keeps =>
      have hidle : o.works shape = false := by
        cases hworks : o.works shape with
        | false => rfl
        | true => exact absurd (hcalled.symm.trans called) (by simp [hworks])
      refine careful_plainly fun d => Spares.bind_sure (spares_onState ?_) keeps
      -- what is not worked on went to an executor that runs nothing
      cases shape with
      | direct => exact absurd hidle (by simp [Operation.works])
      | offloaded =>
          have hstays : o.executor.adaptor.runs = false := hidle
          intro st st' f hs hout
          rw [Operation.call, offload_apply, hstays] at hout
          obtain rfl : st = st' := congrArg Prod.snd hout
          exact hs

/-- A call for which there is nothing to borrow fails, and has done no more than to try. -/
theorem Calling.fails (h : Calling s c prepared) {source : Source} {f : Failure} {st' : State}
    (hcalled : s.called? c = some source)
    (hb : borrow source s.provider.state = (.error f, st')) :
    (∃ f', (prepared s).1.outcome = .failure f') ∧ (prepared s).2.provider.state = st' := by
  cases h with
  | @intro κ α o shape own work next called borrows keeps =>
      -- where the executor runs nothing, nothing is called either
      have hworks : o.works shape = true := by
        cases hworks : o.works shape with
        | true => rfl
        | false => exact absurd (hcalled.symm.trans called) (by simp [hworks])
      obtain rfl : source = own := by simpa [hworks] using hcalled.symm.trans called
      have hwork := borrows _ _ _ hb
      have hstate : (o.call shape work s.provider.state).2 = st' := by
        cases shape with
        | direct => exact congrArg Prod.snd hwork
        | offloaded =>
            have hruns : o.executor.adaptor.runs = true := hworks
            rw [Operation.call, offload_apply, hwork, hruns]
            rfl
      rcases hcall : o.call shape work s.provider.state with ⟨f' | x, after⟩
      · rw [hcall] at hstate
        rw [plainly_onState_of_error hcall]
        exact ⟨⟨f', rfl⟩, hstate⟩
      · -- an executor gives no answer that the work has not given
        have hok := call_ok (congrArg Prod.fst hcall)
        rw [hwork] at hok
        exact absurd hok (by simp)

/-- Starting a function fails only where borrowing does. -/
theorem borrow_of_startWith {α : Type} {source : Source} {make : Loan → α} {wrap : α → Item}
    {dest : Option String} {f : Failure}
    (hf : (plainly (startWith source make wrap dest) s).1.outcome = .failure f) :
    borrow source s.provider.state
      = (.error f, (plainly (startWith source make wrap dest) s).2.provider.state) := by
  rcases startWith_cases source make wrap dest s with ⟨f', st, hb, hout⟩ | ⟨loan, st, hb, hout⟩
  · rw [hout] at hf ⊢
    obtain rfl := Outcome.failure.inj hf
    exact hb
  · rw [hout] at hf
    exact absurd hf (by simp)

/-- What the session is like when the function could not be started. -/
theorem starting_fails (h : StartPrepared s c prepared) {f : Failure}
    (hf : (prepared s).1.outcome = .failure f) :
    Has s.provider.state.pools (prepared s).2
      ∨ ∃ source, s.opened? c = some source
          ∧ borrow source s.provider.state = (.error f, (prepared s).2.provider.state) := by
  cases h with
  | @hashing on o hitem dest =>
      refine Or.inr ⟨.digest o.core.kind, by simp only [opened?, hitem], ?_⟩
      exact borrow_of_startWith hf
  | @signing on o drawn hitem dest =>
      refine Or.inr ⟨o.core.source, by simp only [opened?, hitem], ?_⟩
      exact borrow_of_startWith hf
  | @verifying on o hitem signature sig hsig dest =>
      refine Or.inr ⟨o.core.source, by simp only [opened?, hitem], ?_⟩
      exact borrow_of_startWith hf
  | encrypting =>
      refine Or.inl (careful_bind (fun d => ?_) (fun _ => sure_keeping _ _ _) f hf)
      exact has_onState ((durable_pools d).startEncrypting _ _ _)
  | decrypting => exact Or.inl (careful_sure (sure_keeping _ _ _) f hf)

/-! ## Feeding -/

variable {on : String} {item : Item} {answer : Answer} {dest : Option String}

/-- A last chunk that is refused is not kept. -/
theorem pools_feedLast {last : Datum} {f : Failure} (hi : item.Sound s.provider.state)
    (h : feedLast s on item last dest = some (answer, s')) (hf : answer.outcome = .failure f) :
    Has s.provider.state.pools s' := by
  obtain ⟨item', _, ⟨_, rfl⟩ | ⟨_, r, said, stage, hanswer⟩⟩ := refed_feedLast hi h
  · rfl
  · cases r with
    | error e =>
        obtain ⟨_, rfl⟩ := Prod.mk.inj hanswer
        rfl
    | ok out =>
        obtain ⟨rfl, _⟩ := Prod.mk.inj hanswer
        exact absurd hf (by simp [fed])

theorem careful_feed (hs : s.Sound) {done : Answer × Session} (h : s.feed? c = some done)
    (hrun : ∀ on chunks last, c ≠ .run on chunks last) {f : Failure}
    (hf : done.1.outcome = .failure f) : Has s.provider.state.pools done.2 := by
  obtain ⟨answer, s'⟩ := done
  unfold feed? at h
  split at h
  · rename_i on data
    obtain ⟨item, hitem, h⟩ := Option.bind_eq_some_iff.mp h
    obtain ⟨chunk, _, h⟩ := Option.bind_eq_some_iff.mp h
    obtain ⟨item', _, rfl⟩ := refed_feedChunk (hs on item (Slots.mem_of_get? hitem)) h
    rfl
  · rename_i on data dest
    obtain ⟨item, hitem, h⟩ := Option.bind_eq_some_iff.mp h
    obtain ⟨last, _, h⟩ := Option.bind_eq_some_iff.mp h
    -- a last chunk that fails has a function ended, but its context stays with it until it is
    -- closed
    exact pools_feedLast (hs on item (Slots.mem_of_get? hitem)) h hf
  · rename_i on dest
    obtain ⟨item, hitem, h⟩ := Option.bind_eq_some_iff.mp h
    exact pools_feedLast (hs on item (Slots.mem_of_get? hitem)) h hf
  · -- closing does not fail
    rename_i on
    obtain ⟨item, hitem, h⟩ := Option.bind_eq_some_iff.mp h
    obtain ⟨_, rfl⟩ := parts_close hitem h
    exact absurd hf (by simp [fed])
  · rename_i on
    obtain ⟨item, _, h⟩ := Option.bind_eq_some_iff.mp h
    obtain ⟨stage, _, h⟩ := Option.bind_eq_some_iff.mp h
    obtain ⟨rfl, rfl⟩ := Prod.mk.inj (Option.some.inj h)
    rfl
  · exact absurd rfl (hrun _ _ _)
  · exact absurd h (by simp)

/-! ## Any command -/

/-- A command is refused before anything is done, or else it is prepared in one of the ways. -/
theorem step_cases (s : Session) (c : Command) :
    ((s.step c).2 = s ∧ ∀ v, (s.step c).1.outcome ≠ .value v)
      ∨ (∃ prepared, (LookPrepared s c prepared ∨ KeyPrepared s c prepared
          ∨ MakePrepared s c prepared) ∧ s.step c = prepared s)
      ∨ (∃ prepared, CallPrepared s c prepared ∧ s.step c = prepared s)
      ∨ (∃ prepared, StartPrepared s c prepared ∧ s.step c = prepared s)
      ∨ s.feed? c = some (s.step c) := by
  cases hfits : c.fits with
  | false =>
      rw [step_of_not_fits hfits]
      exact Or.inl ⟨rfl, by simp⟩
  | true =>
      cases hdone : s.carryOut? c with
      | none =>
          rw [step_refused hfits hdone]
          exact Or.inl ⟨rfl, by simp [Answer.refusal]⟩
      | some done =>
          rw [step_of_fits hfits hdone]
          refine Or.inr ?_
          rcases carryOut?_cases hdone with ⟨work, hw | hw | hw | hw, rfl⟩ | ⟨work, hw, rfl⟩ | hf
          · exact Or.inl ⟨work, Or.inl (lookPrepared hw), rfl⟩
          · exact Or.inl ⟨work, Or.inr (Or.inl (keyPrepared hw)), rfl⟩
          · exact Or.inl ⟨work, Or.inr (Or.inr (makePrepared hw)), rfl⟩
          · exact Or.inr (Or.inl ⟨work, callPrepared hw, rfl⟩)
          · exact Or.inr (Or.inr (Or.inl ⟨work, startPrepared hw, rfl⟩))
          · exact Or.inr (Or.inr (Or.inr hf))

/-- Only calls of operations borrow for a call. -/
theorem called?_feed {done : Answer × Session} (h : s.feed? c = some done) :
    s.called? c = none := by
  cases c with
  | hash | sign | verify | verifyOrFail => exact absurd h (by simp [feed?])
  | _ => rfl

/-- **A call without a context to be had fails, and no more than its pool's factory was called.** -/
theorem called_step {source : Source} {f : Failure} {st' : State}
    (hcalled : s.called? c = some source)
    (hb : borrow source s.provider.state = (.error f, st')) :
    (∀ v, (s.step c).1.outcome ≠ .value v)
      ∧ ((s.step c).2 = s ∨ (s.step c).2.provider.state = st') := by
  rcases step_cases s c with ⟨hsame, hno⟩ | ⟨prepared, hp, hstep⟩ | ⟨prepared, hp, hstep⟩
    | ⟨prepared, hp, hstep⟩ | hfeed
  · exact ⟨hno, Or.inl hsame⟩
  · have hnone : s.called? c = none := by
      rcases hp with hp | hp | hp <;> cases hp <;> rfl
    exact absurd (hnone.symm.trans hcalled) (by simp)
  · rcases calling_cases hp with hcalling | ⟨hnone, _⟩
    · obtain ⟨⟨f', hf'⟩, hstate⟩ := hcalling.fails hcalled hb
      rw [hstep]
      refine ⟨fun v hv => ?_, Or.inr hstate⟩
      rw [hf'] at hv
      exact absurd hv (by simp)
    · exact absurd (hnone.symm.trans hcalled) (by simp)
  · have hnone : s.called? c = none := by cases hp <;> rfl
    exact absurd (hnone.symm.trans hcalled) (by simp)
  · exact absurd ((called?_feed hfeed).symm.trans hcalled) (by simp)

/-- **A command that fails leaves the directory as it was, or has tried in vain to start a
function.** Calls with something to borrow are left out, and runs, which give something back. -/
theorem failed_step (hs : s.Sound) (hcalled : s.called? c = none)
    (hrun : ∀ on chunks last, c ≠ .run on chunks last) {f : Failure}
    (hf : (s.step c).1.outcome = .failure f) :
    Has s.provider.state.pools (s.step c).2
      ∨ ∃ source, s.opened? c = some source
          ∧ borrow source s.provider.state = (.error f, (s.step c).2.provider.state) := by
  rcases step_cases s c with ⟨hsame, _⟩ | ⟨prepared, hp, hstep⟩ | ⟨prepared, hp, hstep⟩
    | ⟨prepared, hp, hstep⟩ | hfeed
  · exact Or.inl (congrArg (fun t : Session => t.provider.state.pools) hsame)
  · rw [hstep] at hf ⊢
    rcases hp with hp | hp | hp
    · exact Or.inl (careful_look hp f hf)
    · exact Or.inl (careful_key hp f hf)
    · exact Or.inl (careful_make hp f hf)
  · rw [hstep] at hf ⊢
    rcases calling_cases hp with hcalling | ⟨_, hcareful⟩
    · exact Or.inl (hcalling.careful hcalled f hf)
    · exact Or.inl (hcareful f hf)
  · rw [hstep] at hf ⊢
    exact starting_fails hp hf
  · exact Or.inl (careful_feed hs hfeed hrun hf)

/-! ## Digests that are not supported -/

/-- The digest is looked at before anything else. -/
theorem openSha2_of_error {κ : Type} {algorithm digest : String} {e : Error} {st : State}
    (h : requireSha2 algorithm digest = .error e) (core : Digest.Kind → κ) :
    (do
      let kind ← Action.ofExcept (requireSha2 algorithm digest)
      openDigestPool kind
      Operation.make (core kind)) st = (.error (.error e), st) := by
  refine Action.bind_of_error ?_
  rw [h]
  rfl

theorem AsksUnsupported.fails (h : AsksUnsupported s c) :
    ∃ f, (s.step c).1.outcome = .failure f := by
  cases h with
  | @hasher dest name route f missing =>
      -- no digest of this name, so the lookup is as far as it gets
      have hget : get .digest name s.provider
          = (.error f, (locate .digest name s.provider).2) :=
        Action.bind_of_error (Prod.ext missing rfl)
      have hlook : onProvider (get .digest name) s
          = (.error f, { s with provider := (locate .digest name s.provider).2 }) := by
        unfold onProvider
        rw [hget]
      have hstep : s.step (.hasher dest name route) = plainly (makeHasher dest name route) s := rfl
      rw [hstep, makeHasher, plainly_of_error (Action.bind_of_error hlook)]
      exact ⟨f, rfl⟩
  | @signer on k drawn found dest route heeds digest e other form =>
      have hstep : s.step (.signer on dest route (some digest) form)
          = plainly (keepSigner dest drawn ((Signer.ofPrivateKey k).make route
              (signatureChanges (some digest) form))) s := by
        refine step_of_fits rfl ?_
        simp [carryOut?, prepareLook, prepareKey, prepareMake, found]
      have hmake : (Signer.ofPrivateKey k).make route (signatureChanges (some digest) form)
          s.provider.state = (.error (.error e), s.provider.state) := by
        rw [Factory.make_of_changed heeds rfl]
        exact openSha2_of_error other _
      rw [hstep, keepSigner, plainly_onState_of_error hmake]
      exact ⟨.error e, rfl⟩
  | @verifier on k drawn found dest route heeds digest e other form =>
      have hstep : s.step (.verifier on dest route (some digest) form)
          = plainly (keepVerifier dest ((Verifier.ofPublicKey k).make route
              (signatureChanges (some digest) form))) s := by
        refine step_of_fits rfl ?_
        simp [carryOut?, prepareLook, prepareKey, prepareMake, found]
      have hmake : (Verifier.ofPublicKey k).make route (signatureChanges (some digest) form)
          s.provider.state = (.error (.error e), s.provider.state) := by
        rw [Factory.make_of_changed heeds rfl]
        exact openSha2_of_error other _
      rw [hstep, keepVerifier, plainly_onState_of_error hmake]
      exact ⟨.error e, rfl⟩

/-! ## Every run -/

/-- Only a seeding is on record as one. -/
theorem not_seeded (h : ∀ name type, c ≠ .seedPool name type) (answer : Answer) (name : String) :
    .seeded name ∉ s.events c answer := by
  have hcalls : .seeded name ∉ s.calls c := by simp [calls]
  have hbegins : .seeded name ∉ s.begins c := by
    unfold begins
    split
    · split <;> simp
    · simp
  have hends : ∀ names : List String, .seeded name ∉ names.flatMap s.ends := by
    simp [ends]
  unfold events
  split
  · exact absurd rfl (h _ _)
  · split
    · simp only [List.mem_append, not_or]
      exact ⟨⟨hcalls, hbegins⟩, hends _⟩
    · split
      · simp only [List.mem_append, not_or]
        exact ⟨hcalls, hends _⟩
      · simp
    · simp

/-- What no move disturbs: every item is in order, and a name has one pool. -/
structure Orderly (s : Session) : Prop where
  sound : s.Sound
  once : s.provider.state.pools.names.Nodup

theorem Orderly.withPools {pools : Pools} (h : s.Orderly)
    (hc : s.provider.state.Continues { s.provider.state with pools }) (honce : pools.names.Nodup) :
    (s.withPools pools).Orderly :=
  ⟨sound_of_slots (t := s.withPools pools) h.sound rfl hc, honce⟩

/-- Using a pool of another type leaves the digest pools alone. -/
theorem continues_use {st : State} {name : String} {type : HandleType}
    {pool : Pool type.carrier} (use : Pool.Use type.carrier)
    (hp : st.pools.pool? name type = some pool) :
    st.Continues { st with pools := st.pools.replace name type (use.after pool) } := by
  by_cases htype : type = .digest
  · subst htype
    exact .set_digest hp (use.made pool).2.2
  · refine ⟨rfl, fun n own hn => ⟨own, ?_, rfl⟩, fun _ own hn => ⟨own, hn, rfl⟩⟩
    exact (Pool.Directory.pool?_replace_type fun he => htype he.symm).trans hn

theorem Orderly.move (h : s.Orderly) (m : Move) : (s.move m).Orderly := by
  cases m with
  | command c =>
      have hparts := parts_step h.sound c
      exact ⟨hparts.sound h.sound, hparts.managed.nodup h.once⟩
  | ask name type handleBytes factory =>
      exact h.withPools (.getOrCreate _ _ _ _ _) (Pool.Directory.nodup_getOrCreate h.once)
  | use name type use =>
      unfold Session.move
      dsimp only
      split
      · exact h
      · rename_i pool hpool
        refine h.withPools (continues_use use hpool) ?_
        rw [Pool.Directory.names_replace]
        exact h.once

theorem Orderly.moves (h : s.Orderly) (ms : List Move) : (s.moves ms).Orderly := by
  induction ms generalizing s with
  | nil => exact h
  | cons m rest ih => exact ih (h.move m)

theorem orderly_start (algorithms : Algorithms) (executor : Executor) (entropy : Entropy)
    (capacity : Nat) : (start ⟨algorithms, State.start executor entropy capacity⟩).Orderly where
  sound name item hm := absurd hm (by simp [start])
  once := List.nodup_nil

theorem called?_of_opened? {source : Source} (h : s.opened? c = some source) :
    s.called? c = none := by
  cases c with
  | hash | sign | verify | verifyOrFail => exact absurd h (by simp [opened?])
  | _ => rfl

theorem run_of_opened? {source : Source} (h : s.opened? c = some source) (on : String)
    (chunks : List Recipe) (last : Option Recipe) : c ≠ .run on chunks last := by
  rintro rfl
  exact absurd h (by simp [opened?])

/-- A command that nobody supports borrows nothing, and it is no run. -/
theorem AsksUnsupported.asks_nothing (h : AsksUnsupported s c) :
    s.asked? c = none ∧ ∀ on chunks last, c ≠ .run on chunks last := by
  cases h <;> exact ⟨rfl, by simp⟩

theorem Orderly.leavesNoTrace (h : s.Orderly) : LeavesNoTrace s := by
  have hmade : ∀ c f, s.asked? c = none → (∀ on chunks last, c ≠ .run on chunks last) →
      (s.step c).1.outcome = .failure f → Has s.provider.state.pools (s.step c).2 := by
    intro c f hasked hrun hf
    obtain ⟨hcalled, hopened⟩ := Option.or_eq_none_iff.mp hasked
    -- a step that has asked no pool for anything has not failed for want of a context
    rcases failed_step h.sound hcalled hrun hf with hsame | ⟨source, hsource, _⟩
    · exact hsame
    · exact absurd (hopened.symm.trans hsource) (by simp)
  refine ⟨hmade, ?_, ?_, ?_, ?_, ?_⟩
  · intro c source f hopened hf
    rcases failed_step h.sound (called?_of_opened? hopened) (run_of_opened? hopened) hf with
      hsame | ⟨own, _, hb⟩
    · rw [hsame]
      exact Pool.Directory.undisturbed_refl _
    · exact undisturbed_borrow h.once hb
  · intro c source e hcalled he
    have hb : borrow source s.provider.state
        = (.error e, (borrow source s.provider.state).2) := Prod.ext he rfl
    obtain ⟨hno, hsame | hstate⟩ := called_step hcalled hb
    · rw [hsame]
      exact ⟨hno, Pool.Directory.undisturbed_refl _⟩
    · rw [hstate]
      exact ⟨hno, undisturbed_borrow h.once hb⟩
  · intro c hc
    obtain ⟨hasked, hrun⟩ := hc.asks_nothing
    obtain ⟨f, hf⟩ := hc.fails
    exact ⟨⟨f, hf⟩, hmade c f hasked hrun hf⟩
  · intro c name hseed hname
    rcases (parts_step h.sound c).names name hname with hold | hkind | hseeded
    · exact Or.inl hold
    · exact Or.inr hkind
    · exact absurd hseeded (not_seeded hseed _ _)
  · intro c name e hfound htype
    exact (parts_step h.sound c).managed.foreign hfound htype

/-- **Calls that fail leave the pools as they were**, in every session of a provider, after any
commands and whatever others have done to the directory in the meantime. -/
theorem failed_calls_leave_no_trace (algorithms : Algorithms) (executor : Executor)
    (entropy : Entropy) (capacity : Nat) (ms : List Move) :
    LeavesNoTrace
      ((start ⟨algorithms, State.start executor entropy capacity⟩).moves ms) :=
  ((orderly_start algorithms executor entropy capacity).moves ms).leavesNoTrace

/-- A pool of numbers stands where a hasher would have its contexts. -/
example :
    let ms : List Move := [.ask "SHA-256" .number 4 fun _ => .ok 7,
      .use "SHA-256" .number (.release ⟨1, 7⟩)]
    let s := (start (software (State.start .inPlace (.seeded []) 1))).moves ms
    let (answer, after) := s.step (.hasher none "SHA-256" .create)
    answer.outcome = .failure (.error (.invalidInput (.handleType "SHA-256")))
      ∧ after.provider.state.pools.entries.map (fun e => (e.name, e.type, e.pool.idle.length))
        = [("SHA-256", .number, 1)] := ⟨rfl, rfl⟩

/-- A factory that fails is called in vain. -/
example :
    let ms : List Move := [.ask "SHA-256" .digest 16 fun _ => .error (.execution (.other "no")),
      .command (.hasher (some "h") "SHA-256" .create)]
    let s := (start (software (State.start .inPlace (.seeded []) 1))).moves ms
    let (answer, after) := s.step (.hash "h" (.plain [1]) .direct none)
    answer.outcome = .failure (.error (.execution (.other "no")))
      ∧ after.provider.state.pools.entries.map (fun e => (e.pool.attempts, e.pool.idle.length))
        = [(1, 0)] := ⟨rfl, rfl⟩

end PooledCrypto.Session
