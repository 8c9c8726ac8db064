import PooledCrypto.Proofs.Steadiness

/-!
# Taking commands apart

The work of most commands looks alike. It looks an algorithm up, has an operation do something, and
keeps what comes of it. `Led` and `Fills` follow such work from its first step: as long as no slot
was touched the work is led somewhere by parts, and it ends by filling slots or by failing.

`parts_step` puts the commands together, and `parts_run` their runs.
-/

namespace PooledCrypto.Session

open Provider
open Streaming.Function (Held)

variable {s s' t u : Session} {es es' : List Event} {name : String} {item old : Item}

/-! ## Work before something is kept -/

variable {α : Type} {a : Action Session α} {next : α → Work} {dest : Option String} {v : Value}

/-- Some parts lead here, and no slot was touched. -/
def Led (s : Session) (es : List Event) (t : Session) : Prop := t.slots = s.slots ∧ Parts s es t

theorem led_refl (s : Session) : Led s [] s := ⟨rfl, .nil⟩

/-- Work that leaves the slots alone and only opens pools goes along without an event. -/
theorem Led.prepare (h : Led s es t) (hslots : u.slots = t.slots)
    (hstate : Opens t.provider.state u.provider.state) : Led s es u := by
  refine ⟨hslots.trans h.1, ?_⟩
  have hmore := h.2.snoc (.prepare hslots hstate)
  rwa [List.append_nil] at hmore

theorem Led.onState {work : Action State α} (h : Led s es t) (hw : Opening work) :
    Led s es (onState work t).2 :=
  h.prepare rfl (hw t.provider.state t.provider.state .refl)

theorem Led.onProvider {work : Action Provider α} (h : Led s es t)
    (hw : ∀ p, (work p).2.state = p.state) : Led s es (onProvider work t).2 := by
  refine h.prepare rfl ?_
  show Opens t.provider.state (work t.provider).2.state
  rw [hw]
  exact .refl

/-- Looking an algorithm up may build it, which the slots and the state do not show. -/
theorem Led.get (h : Led s es t) (f : Family) (name : String) :
    Led s es (Session.onProvider (Provider.get f name) t).2 :=
  h.onProvider (state_get f name)

theorem Led.ofExcept (h : Led s es t) (r : Except Error α) :
    Led s es ((Action.ofExcept r : Action Session α) t).2 := by
  rw [Action.ofExcept_apply]
  exact h

/-- Work that fills some slots in the end, if it does not fail before. -/
def Fills (s : Session) (es : List Event) (names : List String) (work : Work) (t : Session) :
    Prop :=
  match work t with
  | (.ok _, u) => Parts s (es ++ names.flatMap s.ends) u
  | (.error _, u) => Parts s es u

variable {names : List String} {work : Work}

/-- Work in two steps fills what its second step fills; the first has only to lead there. -/
theorem Fills.bind (ha : Led s es (a t).2)
    (hn : ∀ x u, a t = (.ok x, u) → Led s es u → Fills s es names (next x) u) :
    Fills s es names (a >>= next) t := by
  unfold Fills
  rcases hout : a t with ⟨f | x, u⟩
  · rw [hout] at ha
    rw [Action.bind_of_error hout]
    exact ha.2
  · rw [hout] at ha
    rw [Action.bind_of_ok hout]
    exact hn x u hout ha

/-- Work that is done once it is led somewhere. -/
theorem fills_of_led (h : Led s es (work t).2) : Fills s es [] work t := by
  unfold Fills
  rcases hout : work t with ⟨f | x, u⟩
  · rw [hout] at h
    exact h.2
  · rw [hout] at h
    show Parts s (es ++ []) u
    rw [List.append_nil]
    exact h.2

theorem fills_keep (h : Led s es t) (hfree : item.loan? = none)
    (hsound : item.Sound t.provider.state) :
    Fills s es dest.toList (do keep dest item; return v) t := by
  have hkept : (keep dest item >>= fun _ => pure v : Work) t = (.ok v, (keep dest item t).2) := by
    cases dest <;> rfl
  have hpart := Part.fill dest item hfree hsound
  rw [ends_congr h.1] at hpart
  unfold Fills
  rw [hkept]
  exact h.2.snoc hpart

/-- What is on record of a command that opens no function and empties no slot. -/
theorem events_plain {c : Command} (hfits : c.fits = true)
    (hseed : ∀ name type, c ≠ .seedPool name type) (hcalls : s.calls c = es)
    (hopens : s.opened? c = none) (hempties : c.empties = []) (hfills : s.fills c = names)
    (answer : Answer) :
    s.events c answer = match answer.outcome with
      | .value _ => es ++ names.flatMap s.ends
      | .failure _ => es
      | .refused => [] := by
  have hbegins : s.begins c = [] := by simp [begins, hopens]
  unfold events
  split
  · exact absurd rfl (hseed _ _)
  · rw [hcalls, hbegins, hempties, hfills, hfits]
    cases answer.outcome <;> simp

/-- A command whose work calls an operation at most, and then fills its slots. -/
theorem parts_plainly {c : Command} (hw : Fills s es names work s) (hfits : c.fits = true)
    (hseed : ∀ name type, c ≠ .seedPool name type) (hcalls : s.calls c = es)
    (hopens : s.opened? c = none) (hempties : c.empties = []) (hfills : s.fills c = names) :
    Parts s (s.events c (plainly work s).1) (plainly work s).2 := by
  rw [events_plain hfits hseed hcalls hopens hempties hfills]
  unfold Fills at hw
  unfold plainly
  rcases hout : work s with ⟨f | x, u⟩
  · rw [hout] at hw
    exact hw
  · rw [hout] at hw
    exact hw

theorem onState_eq_ok {β : Type} {work : Action State β} {x : β}
    (h : onState work t = (.ok x, u)) :
    work t.provider.state = (.ok x, u.provider.state) := by
  obtain ⟨hx, rfl⟩ := Prod.mk.inj h
  exact Prod.ext hx rfl

/-! ## Keys and operations -/

/-- A key that is imported fills the slot it is meant for, and nothing if it is refused. -/
theorem fills_importHmac (s : Session) (dest : Option String) (digest : String)
    (format : KeyFormat) (key : Datum) :
    Fills s [] dest.toList (importHmac dest digest format key) s := by
  refine Fills.bind ((led_refl s).get _ _) fun _ t _ ht => ?_
  refine Fills.bind (ht.onState (opening_decodeHmacKey digest format key.bytes)) fun k u hk hu => ?_
  exact fills_keep hu rfl (kept_decode (onState_eq_ok hk))

theorem fills_generateHmac (s : Session) (dest : Option String) (route : Factory.Route)
    (digest : Option String) (keySize : Option Nat) (shape : Shape) :
    Fills s [] dest.toList (generateHmac dest route digest keySize shape) s := by
  refine Fills.bind ((led_refl s).get _ _) fun _ t _ ht => ?_
  refine Fills.bind (ht.onState (opening_generateHmac route _ shape)) fun k u hk hu => ?_
  exact fills_keep hu rfl (kept_generate (onState_eq_ok hk))

theorem fills_importAead (s : Session) (dest : Option String) (name : String)
    (format : KeyFormat) (key : Datum) :
    Fills s [] dest.toList (importAead dest name format key) s := by
  refine Fills.bind ((led_refl s).get _ _) fun _ t _ ht => ?_
  refine Fills.bind (ht.ofExcept _) fun k u _ hu => ?_
  exact fills_keep hu rfl trivial

theorem fills_generateAead (s : Session) (dest : Option String) (name : String)
    (route : Factory.Route) (keySize : Option Nat) (shape : Shape) :
    Fills s [] dest.toList (generateAead dest name route keySize shape) s := by
  refine Fills.bind ((led_refl s).get _ _) fun kind t _ ht => ?_
  refine Fills.bind (ht.onState (opening_generateAead kind route _ shape)) fun k u _ hu => ?_
  exact fills_keep hu rfl trivial

theorem Led.lookUpUse (h : Led s es t) (use : CurveUse) :
    Led s es (Session.lookUpUse use t).2 := by
  cases use with
  | ecdsa => exact h.get _ _
  | ecdh => exact h.get _ _

theorem sound_publicKey (use : CurveUse) (k : Curve.P256.PublicKey) (drawn : Bool) (st : State) :
    (Item.key (use.publicKey k) drawn).Sound st := by
  cases use <;> trivial

theorem sound_privateKey (use : CurveUse) (k : Curve.P256.PrivateKey) (drawn : Bool)
    (st : State) : (Item.key (use.privateKey k) drawn).Sound st := by
  cases use <;> trivial

theorem fills_importPublic (s : Session) (use : CurveUse) (dest : Option String) (curve : Curve)
    (format : KeyFormat) (key : Datum) :
    Fills s [] dest.toList (importPublic use dest curve format key) s := by
  refine Fills.bind ((led_refl s).lookUpUse use) fun _ t _ ht => ?_
  refine Fills.bind (ht.ofExcept _) fun k u _ hu => ?_
  exact fills_keep hu rfl (sound_publicKey use k _ _)

theorem fills_importPrivate (s : Session) (use : CurveUse) (dest : Option String) (curve : Curve)
    (format : KeyFormat) (key : Datum) :
    Fills s [] dest.toList (importPrivate use dest curve format key) s := by
  refine Fills.bind ((led_refl s).lookUpUse use) fun _ t _ ht => ?_
  refine Fills.bind (ht.ofExcept _) fun k u _ hu => ?_
  exact fills_keep hu rfl (sound_privateKey use k _ _)

/-- Once something that is no function is kept in a slot, nothing is left to be released there. -/
theorem ends_keep (dest : Option String) (hfree : item.loan? = none) (other : String) :
    (keep dest item t).2.ends other = if dest = some other then [] else t.ends other := by
  cases dest with
  | none => simp [keep, ends, item?, Action.change]
  | some name =>
      by_cases ho : name = other
      · subst ho
        simp [keep, ends, item?, Action.change, store, Slots.get?_put_self, Item.bound?, hfree]
      · have hne : other ≠ name := fun he => ho he.symm
        simp [keep, ends, item?, Action.change, store, Slots.get?_put_ne hne, ho]

/-- The two keys of a pair go one after the other, possibly into one slot. -/
theorem fills_generatePair (s : Session) (use : CurveUse) (toPublic toPrivate : Option String)
    (curve : Option Curve) (route : Factory.Route) (shape : Shape) :
    Fills s [] (s.fills (.generatePair use toPublic toPrivate curve route shape))
      (generatePair use toPublic toPrivate curve route shape) s := by
  refine Fills.bind ((led_refl s).lookUpUse use) fun _ t _ ht => ?_
  refine Fills.bind (ht.onState (opening_generatePair route _ shape)) fun pair u _ hu => ?_
  let first : Item := .key (use.publicKey pair.publicKey) true
  let second : Item := .key (use.privateKey pair.privateKey) true
  have hwork : (keep toPublic first >>= fun _ => keep toPrivate second >>= fun _ =>
      pure .nothing : Work) u
        = (.ok .nothing, (keep toPrivate second (keep toPublic first u).2).2) := by
    cases toPublic <;> cases toPrivate <;> rfl
  have hparts := (hu.2.snoc (.fill toPublic first rfl (sound_publicKey use _ _ _))).snoc
    (.fill toPrivate second rfl (sound_privateKey use _ _ _))
  have hevents : [] ++ toPublic.toList.flatMap u.ends
      ++ toPrivate.toList.flatMap (keep toPublic first u).2.ends
        = [] ++ (s.fills (.generatePair use toPublic toPrivate curve route shape)).flatMap
            s.ends := by
    rw [ends_congr hu.1]
    cases toPrivate with
    | none => cases toPublic <;> simp [fills]
    | some name =>
        -- if both go to one slot, the first key is overwritten and ends nothing that was there
        have hsecond : (keep toPublic first u).2.ends name
            = if toPublic = some name then [] else s.ends name := by
          rw [ends_keep toPublic rfl name, ends_congr hu.1]
        by_cases hsame : toPublic = some name
        · subst hsame
          rw [if_pos rfl] at hsecond
          simp [fills, hsecond]
        · simp [fills, hsecond, hsame]
  unfold Fills
  rw [hevents] at hparts
  rw [hwork]
  exact hparts

/-- Who makes an operation with a digest pool has the pool afterwards. -/
theorem stands_openDigestPool {kind : Digest.Kind} {st st' : State}
    (h : openDigestPool kind st = (.ok (), st')) : (Source.digest kind).Stands st' := by
  obtain ⟨hout, rfl⟩ := Prod.mk.inj h
  exact Pool.Directory.pool?_getOrCreate hout

theorem fills_makeHasher (s : Session) (dest : Option String) (name : String)
    (route : Factory.Route) : Fills s [] dest.toList (makeHasher dest name route) s := by
  refine Fills.bind ((led_refl s).get _ _) fun kind t _ ht => ?_
  refine Fills.bind (ht.onState (opening_factory (fun p => ?_) route id)) fun o u ho hu => ?_
  · exact (opening_openDigestPool kind).bind fun _ => opening_make _
  · obtain ⟨p, hp⟩ := Factory.make_eq_ok (onState_eq_ok ho)
    obtain ⟨_, s₁, hopen, hmake⟩ := Action.bind_eq_ok hp
    obtain rfl := Except.ok.inj (congrArg Prod.fst hmake)
    have hstate : s₁ = u.provider.state := congrArg Prod.snd hmake
    exact fills_keep hu rfl (hstate ▸ stands_openDigestPool hopen)

theorem fills_makeCipher (s : Session) (key : Aead.Key) (drawn : Bool) (dest : Option String)
    (route : Factory.Route) (tagSize : Option Nat) :
    Fills s [] dest.toList (makeCipher key drawn dest route tagSize) s := by
  refine Fills.bind ((led_refl s).onState (opening_factory (fun p => ?_) route _))
    fun o u _ hu => ?_
  · exact (opening_ofExcept _).bind fun _ => opening_make _
  · exact fills_keep hu rfl trivial

theorem fills_makeAgreement (s : Session) (key : Curve.P256.PrivateKey) (drawn : Bool)
    (dest : Option String) (route : Factory.Route) :
    Fills s [] dest.toList (makeAgreement key drawn dest route) s := by
  refine Fills.bind ((led_refl s).onState (opening_factory (fun p => ?_) route _))
    fun o u _ hu => ?_
  · exact opening_make _
  · exact fills_keep hu rfl trivial

theorem fills_keepSigner (s : Session) (dest : Option String) (drawn : Bool)
    {made : Action State (Operation Signer)} (hm : Opening made)
    (hsound : ∀ o st, made s.provider.state = (.ok o, st) → o.core.Sound st) :
    Fills s [] dest.toList (keepSigner dest drawn made) s := by
  refine Fills.bind ((led_refl s).onState hm) fun o u ho hu => ?_
  exact fills_keep hu rfl (hsound o _ (onState_eq_ok ho))

theorem fills_keepVerifier (s : Session) (dest : Option String)
    {made : Action State (Operation Verifier)} (hm : Opening made)
    (hsound : ∀ o st, made s.provider.state = (.ok o, st) → o.core.Sound st) :
    Fills s [] dest.toList (keepVerifier dest made) s := by
  refine Fills.bind ((led_refl s).onState hm) fun o u ho hu => ?_
  exact fills_keep hu rfl (hsound o _ (onState_eq_ok ho))

/-- Parameters with a digest are accepted only when its pool is open. -/
theorem openSha2_ok {κ : Type} {algorithm digest : String} {core : Digest.Kind → κ}
    {o : Operation κ} {st st' : State}
    (h : (do
      let kind ← Action.ofExcept (requireSha2 algorithm digest)
      openDigestPool kind
      Operation.make (core kind)) st = (.ok o, st')) :
    ∃ kind, o.core = core kind ∧ (Source.digest kind).Stands st' := by
  obtain ⟨kind, s₁, _, h⟩ := Action.bind_eq_ok h
  obtain ⟨_, s₂, hopen, hmake⟩ := Action.bind_eq_ok h
  obtain rfl := Except.ok.inj (congrArg Prod.fst hmake)
  obtain rfl : s₂ = st' := congrArg Prod.snd hmake
  exact ⟨kind, rfl, stands_openDigestPool hopen⟩

/-- A key that is kept has its pool still. -/
theorem stands_of_kept {k : HmacKey} {st : State} (hk : k.Kept st) :
    (Source.mac k.pool).Stands st := by
  obtain ⟨pool, hpool, _⟩ := hk.pool
  exact Option.isSome_iff_exists.mpr ⟨pool, hpool⟩

/-- Signers of a kept key borrow from its pool. -/
theorem sound_ofHmacKey {k : HmacKey} {st st' : State} {o : Operation Signer}
    {route : Factory.Route} {changes : Parameters.Empty → Parameters.Empty} (hk : k.Kept st)
    (h : (Signer.ofHmacKey k).make route changes st = (.ok o, st')) : o.core.Sound st' := by
  obtain ⟨p, hp⟩ := Factory.make_eq_ok h
  obtain ⟨ho, rfl⟩ := Prod.mk.inj hp
  obtain rfl := Except.ok.inj ho
  exact ⟨stands_of_kept hk, fun _ _ => rfl⟩

theorem sound_verifierOfHmacKey {k : HmacKey} {st st' : State} {o : Operation Verifier}
    {route : Factory.Route} {changes : Parameters.Empty → Parameters.Empty} (hk : k.Kept st)
    (h : (Verifier.ofHmacKey k).make route changes st = (.ok o, st')) : o.core.Sound st' := by
  obtain ⟨p, hp⟩ := Factory.make_eq_ok h
  obtain ⟨ho, rfl⟩ := Prod.mk.inj hp
  obtain rfl := Except.ok.inj ho
  exact ⟨stands_of_kept hk, fun _ _ => rfl⟩

/-- Those of a private key borrow from the pool of their digest, which was opened for them. -/
theorem sound_ofPrivateKey {k : Curve.P256.PrivateKey} {st st' : State} {o : Operation Signer}
    {route : Factory.Route} {changes : Parameters.Ecdsa → Parameters.Ecdsa}
    (h : (Signer.ofPrivateKey k).make route changes st = (.ok o, st')) : o.core.Sound st' := by
  obtain ⟨p, hp⟩ := Factory.make_eq_ok h
  obtain ⟨kind, hcore, hstands⟩ := openSha2_ok hp
  rw [hcore]
  exact ⟨hstands, fun _ he => absurd he (by simp)⟩

theorem sound_ofPublicKey {k : Curve.P256.PublicKey} {st st' : State} {o : Operation Verifier}
    {route : Factory.Route} {changes : Parameters.Ecdsa → Parameters.Ecdsa}
    (h : (Verifier.ofPublicKey k).make route changes st = (.ok o, st')) : o.core.Sound st' := by
  obtain ⟨p, hp⟩ := Factory.make_eq_ok h
  obtain ⟨kind, hcore, hstands⟩ := openSha2_ok hp
  rw [hcore]
  exact ⟨hstands, fun _ he => absurd he (by simp)⟩

/-! ## Calls -/

/-- A call of an operation borrows one context, or none if the executor does not run it. -/
theorem led_call {κ : Type} (s : Session) (o : Operation κ) (shape : Shape) {source : Source}
    {data : Bytes} {work : Action State α}
    (hwork : ∀ st, (work st).2 = (compute source data st).2)
    (hstands : source.Stands s.provider.state) :
    Led s (((if o.works shape then some source else none).bind Source.pool?).toList.map .called)
      (Session.onState (o.call shape work) s).2 := by
  have hcall : Led s (source.pool?.toList.map .called)
      { s with provider.state := (work s.provider.state).2 } := by
    have hpart : Part s (source.pool?.toList.map .called)
        { s with provider.state := (work s.provider.state).2 } :=
      .call source data hstands rfl (hwork _)
    exact ⟨rfl, hpart.parts⟩
  cases shape with
  | direct => exact hcall
  | offloaded =>
      cases hruns : o.executor.adaptor.runs with
      | true =>
          have hsame : (Session.onState (o.call .offloaded work) s).2
              = { s with provider.state := (work s.provider.state).2 } := by
            simp [Session.onState, Operation.call, offload_apply, hruns]
          rw [hsame]
          simpa [Operation.works, hruns] using hcall
      | false =>
          -- an executor that drops its tasks leaves the state alone, and nothing is borrowed
          have hsame : (Session.onState (o.call .offloaded work) s).2 = s := by
            simp [Session.onState, Operation.call, offload_apply, hruns]
          rw [hsame]
          simpa [Operation.works, hruns] using led_refl s

/-- Signing does to the state what computing the digest does; the rest is arithmetic. -/
theorem snd_sign (signer : Signer) (data : Bytes) (st : State) :
    (signer.sign data st).2 = (compute signer.source data st).2 := by
  unfold Signer.sign
  rcases hc : compute signer.source data st with ⟨f | digest, st'⟩
  · rw [Action.bind_of_error hc]
  · rw [Action.bind_of_ok hc, Action.ofExcept_apply]

theorem snd_verify (v : Verifier) (data signature : Bytes) (st : State) :
    (v.verify data signature st).2 = (compute v.source data st).2 := by
  unfold Verifier.verify
  rcases hc : compute v.source data st with ⟨f | digest, st'⟩
  · rw [Action.bind_of_error hc]
  · rw [Action.bind_of_ok hc]
    rfl

theorem snd_verifyOrFail (v : Verifier) (data signature : Bytes) (st : State) :
    (v.verifyOrFail data signature st).2 = (compute v.source data st).2 := by
  rw [← snd_verify v data signature st]
  unfold Verifier.verifyOrFail
  rcases hv : v.verify data signature st with ⟨f | verdict, st'⟩
  · rw [Action.bind_of_error hv]
  · rw [Action.bind_of_ok hv]
    cases verdict <;> rfl

/-- Work that only answers. -/
theorem fills_pure (h : Led s es t) (v : Value) : Fills s es [] (pure v) t := fills_of_led h

variable {c : Command} {prepared : Prepared}

theorem led_lookUp (s : Session) (name : String) (f : Family) (required : Bool) :
    Led s [] (lookUp name f required s).2 := by
  have hmid := (led_refl s).onProvider (state_locate f name)
  unfold lookUp
  rcases hout : onProvider (locate f name) s with ⟨e | found, t⟩
  · rw [hout] at hmid
    dsimp only
    split
    · exact hmid
    · exact hmid
  · rw [hout] at hmid
    have hnote : ((do return Value.found (some (← noteFound f name found.serial)) : Work) t).2
        = (noteFound f name found.serial t).2 := by
      rcases hn : noteFound f name found.serial t with ⟨e | b, u⟩
      · exact congrArg Prod.snd (Action.bind_of_error hn)
      · exact congrArg Prod.snd (Action.bind_of_ok hn)
    show Led s [] ((do return Value.found (some (← noteFound f name found.serial)) : Work) t).2
    rw [hnote]
    unfold noteFound
    split
    · exact hmid
    · exact hmid.prepare rfl .refl

theorem snd_plainly (work : Work) (s : Session) : (plainly work s).2 = (work s).2 := by
  unfold plainly
  rcases work s with ⟨f | v, t⟩ <;> rfl

/-- A pool that is there already is not made from outside. -/
theorem parts_seed (s : Session) (name : String) (type : HandleType) :
    let done := plainly (Session.onState (seed name type)) s
    Parts s (s.events (.seedPool name type) done.1) done.2 := by
  intro done
  have hdone : done.2 = (Session.onState (seed name type) s).2 := snd_plainly _ s
  rw [hdone]
  show Parts s (if (s.provider.state.pools.find? name).isNone then [.seeded name] else [])
    (Session.onState (seed name type) s).2
  cases hf : s.provider.state.pools.find? name with
  | none =>
      have hpart : Part s [.seeded name] (Session.onState (seed name type) s).2 :=
        .seed name type rfl hf rfl
      exact hpart.parts
  | some e =>
      have hsame : (seed name type s.provider.state).2 = s.provider.state := by
        unfold seed Pool.Directory.getOrCreate
        rw [hf]
      have hpart : Part s [] (Session.onState (seed name type) s).2 := by
        refine .prepare rfl ?_
        show Opens s.provider.state (seed name type s.provider.state).2
        rw [hsame]
        exact .refl
      exact hpart.parts

/-- Looking around changes nothing; seeding a pool, keeping, copying and dropping are a part each.
-/
theorem parts_look (hs : s.Sound) (hfits : c.fits = true) (h : LookPrepared s c prepared) :
    Parts s (s.events c (prepared s).1) (prepared s).2 := by
  cases h with
  | info => exact parts_plainly (fills_pure (led_refl s) _) hfits (by simp) rfl rfl rfl rfl
  | supports => exact parts_plainly (fills_pure (led_refl s) _) hfits (by simp) rfl rfl rfl rfl
  | lookup =>
      exact parts_plainly (fills_of_led (led_lookUp s _ _ _)) hfits (by simp) rfl rfl rfl rfl
  | pools => exact parts_plainly (fills_pure (led_refl s) _) hfits (by simp) rfl rfl rfl rfl
  | seedPool => exact parts_seed s _ _
  | debugProvider => exact parts_plainly (fills_pure (led_refl s) _) hfits (by simp) rfl rfl rfl rfl
  | debug => exact parts_plainly (fills_pure (led_refl s) _) hfits (by simp) rfl rfl rfl rfl
  | keep =>
      exact parts_plainly (fills_keep (led_refl s) rfl trivial) hfits (by simp) rfl rfl rfl rfl
  | equal => exact parts_plainly (fills_pure (led_refl s) _) hfits (by simp) rfl rfl rfl rfl
  | drop on =>
      have hevents : s.events (.drop on) ⟨.value (.flag (s.item? on).isSome), none⟩
          = s.ends on := by
        simp [events, calls, called?, begins, opened?, Command.empties, fills]
      rw [hevents]
      exact (Part.discard on).parts
  | @clone on dest item hitem executor hexecutor =>
      -- only operations have an executor, and they hold no context
      have hfree : item.loan? = none := by
        cases item <;> first | rfl | exact absurd hexecutor (by simp [Item.executor?])
      have hsound := hs _ item (Slots.mem_of_get? hitem)
      exact parts_plainly (fills_keep (led_refl s) hfree hsound) hfits (by simp) rfl rfl rfl rfl
  | executorName => exact parts_plainly (fills_pure (led_refl s) _) hfits (by simp) rfl rfl rfl rfl

/-- Keys are imported and generated in parts that open pools and fill slots. -/
theorem parts_key (hfits : c.fits = true) (h : KeyPrepared s c prepared) :
    Parts s (s.events c (prepared s).1) (prepared s).2 := by
  cases h with
  | importHmac =>
      exact parts_plainly (fills_importHmac s _ _ _ _) hfits (by simp) rfl rfl rfl rfl
  | generateHmac =>
      exact parts_plainly (fills_generateHmac s _ _ _ _ _) hfits (by simp) rfl rfl rfl rfl
  | importAead =>
      exact parts_plainly (fills_importAead s _ _ _ _) hfits (by simp) rfl rfl rfl rfl
  | generateAead =>
      exact parts_plainly (fills_generateAead s _ _ _ _ _) hfits (by simp) rfl rfl rfl rfl
  | importPublic =>
      exact parts_plainly (fills_importPublic s _ _ _ _ _) hfits (by simp) rfl rfl rfl rfl
  | importPrivate =>
      exact parts_plainly (fills_importPrivate s _ _ _ _ _) hfits (by simp) rfl rfl rfl rfl
  | generatePair =>
      exact parts_plainly (fills_generatePair s _ _ _ _ _ _) hfits (by simp) rfl rfl rfl rfl
  | encode =>
      refine parts_plainly (Fills.bind ((led_refl s).ofExcept _) fun bytes t _ ht => ?_) hfits
        (by simp) rfl rfl rfl rfl
      exact fills_keep ht rfl trivial

/-- So are operations made. -/
theorem parts_make (hs : s.Sound) (hfits : c.fits = true) (h : MakePrepared s c prepared) :
    Parts s (s.events c (prepared s).1) (prepared s).2 := by
  cases h with
  | hasher => exact parts_plainly (fills_makeHasher s _ _ _) hfits (by simp) rfl rfl rfl rfl
  | cipher => exact parts_plainly (fills_makeCipher s _ _ _ _ _) hfits (by simp) rfl rfl rfl rfl
  | hmacSigner hitem =>
      have hkept := hs _ _ (Slots.mem_of_get? hitem)
      refine parts_plainly (fills_keepSigner s _ _ ?_ fun o st ho => ?_) hfits (by simp) rfl rfl
        rfl rfl
      · exact opening_factory (fun p => opening_make _) _ _
      · exact sound_ofHmacKey hkept ho
  | ecdsaSigner =>
      refine parts_plainly (fills_keepSigner s _ _ ?_ fun o st ho => ?_) hfits (by simp) rfl rfl
        rfl rfl
      · exact opening_factory (fun p => opening_openSha2 _ _ _) _ _
      · exact sound_ofPrivateKey ho
  | hmacVerifier hitem =>
      have hkept := hs _ _ (Slots.mem_of_get? hitem)
      refine parts_plainly (fills_keepVerifier s _ ?_ fun o st ho => ?_) hfits (by simp) rfl rfl
        rfl rfl
      · exact opening_factory (fun p => opening_make _) _ _
      · exact sound_verifierOfHmacKey hkept ho
  | ecdsaVerifier =>
      refine parts_plainly (fills_keepVerifier s _ ?_ fun o st ho => ?_) hfits (by simp) rfl rfl
        rfl rfl
      · exact opening_factory (fun p => opening_openSha2 _ _ _) _ _
      · exact sound_ofPublicKey ho
  | agreement =>
      exact parts_plainly (fills_makeAgreement s _ _ _ _) hfits (by simp) rfl rfl rfl rfl

theorem calls_of {s : Session} {c : Command} {source? : Option Source}
    (h : s.called? c = source?) :
    s.calls c = (source?.bind Source.pool?).toList.map .called := by
  rw [calls, h]

theorem fills_encryptWith {o : Operation Aead.Cipher} {shape : Shape} {data : Datum}
    {nonce : Option Datum} {associated : Datum} {keepBox : Aead.Box → Work}
    (hk : ∀ box t, Led s [] t → Fills s [] names (keepBox box) t) :
    Fills s [] names (encryptWith o shape data nonce associated keepBox) s :=
  Fills.bind ((led_refl s).onState ((opening_encryptBox _ _ _ _).call _ shape))
    fun box t _ ht => hk box t ht

/-- A call borrows for as long as it takes, and its result fills a slot. -/
theorem parts_call (hs : s.Sound) (hfits : c.fits = true) (h : CallPrepared s c prepared) :
    Parts s (s.events c (prepared s).1) (prepared s).2 := by
  cases h with
  | @hash on o hitem =>
      have hstands : (Source.digest o.core.kind).Stands s.provider.state :=
        hs _ _ (Slots.mem_of_get? hitem)
      refine parts_plainly (Fills.bind (led_call s o _ (fun _ => rfl) hstands) fun digest t _ ht =>
        fills_keep ht rfl trivial) hfits (by simp) (calls_of ?_) rfl rfl rfl
      simp only [called?, hitem]
  | @sign on o drawn hitem =>
      have hsound : o.core.Sound s.provider.state := hs _ _ (Slots.mem_of_get? hitem)
      refine parts_plainly (Fills.bind (led_call s o _ (snd_sign _ _) hsound.stands)
        fun signature t _ ht => fills_keep ht rfl trivial) hfits (by simp) (calls_of ?_) rfl rfl rfl
      simp only [called?, hitem]
  | @verify on o hitem =>
      have hsound : o.core.Sound s.provider.state := hs _ _ (Slots.mem_of_get? hitem)
      refine parts_plainly (Fills.bind (led_call s o _ (snd_verify _ _ _) hsound.stands)
        fun verdict t _ ht => fills_pure ht _) hfits (by simp) (calls_of ?_) rfl rfl rfl
      simp only [called?, hitem]
  | @verifyOrFail on o hitem =>
      have hsound : o.core.Sound s.provider.state := hs _ _ (Slots.mem_of_get? hitem)
      refine parts_plainly (Fills.bind (led_call s o .direct (snd_verifyOrFail _ _ _) hsound.stands)
        fun _ t _ ht => fills_pure ht _) hfits (by simp) (calls_of ?_) rfl rfl rfl
      simp only [called?, hitem, Operation.works, if_true]
  | agree =>
      exact parts_plainly (Fills.bind ((led_refl s).onState (opening_exchange _ _ _))
        fun secret t _ ht => fills_keep ht rfl trivial) hfits (by simp) rfl rfl rfl rfl
  | sizes =>
      exact parts_plainly (fills_of_led ((led_refl s).ofExcept _)) hfits (by simp) rfl rfl rfl rfl
  | encrypt =>
      exact parts_plainly (fills_encryptWith fun box t ht => fills_keep ht rfl trivial) hfits
        (by simp) rfl rfl rfl rfl
  | encryptBox =>
      exact parts_plainly (fills_encryptWith fun box t ht => fills_keep ht rfl trivial) hfits
        (by simp) rfl rfl rfl rfl
  | decrypt =>
      exact parts_plainly (Fills.bind ((led_refl s).onState ((opening_ofExcept _).call _ _))
        fun plaintext t _ ht => fills_keep ht rfl trivial) hfits (by simp) rfl rfl rfl rfl
  | decryptBox =>
      exact parts_plainly (Fills.bind ((led_refl s).onState ((opening_ofExcept _).call _ _))
        fun plaintext t _ ht => fills_keep ht rfl trivial) hfits (by simp) rfl rfl rfl rfl

/-! ## Functions -/

/-- What is on record of a function that was started. -/
theorem events_begun {source : Source} {dest : Option String}
    (hseed : ∀ name type, c ≠ .seedPool name type) (hopens : s.opened? c = some source)
    (hcall : s.calls c = []) (hempties : c.empties = []) (hfills : s.fills c = dest.toList) :
    s.events c ⟨.value .nothing, none⟩ = source.pool?.toList.map .opened
      ++ match dest with
        | some name => s.ends name
        | none => source.pool?.toList.map .ended := by
  unfold events
  split
  · exact absurd rfl (hseed _ _)
  · simp only [hcall, begins, hopens, hempties, hfills, Option.bind_some, List.nil_append]
    cases source.pool? <;> cases dest <;> simp

/-- Starting is a borrowing that succeeds, or one that does not. -/
theorem parts_begin {β : Type} {source : Source} (make : Loan → β) (wrap : β → Item)
    (hloan : ∀ loan, (wrap (make loan)).loan? = some loan)
    (hsound : ∀ loan st, (wrap (make loan)).Sound st) (dest : Option String)
    (hseed : ∀ name type, c ≠ .seedPool name type)
    (hopens : s.opened? c = some source) (hcalls : s.called? c = none)
    (hempties : c.empties = []) (hfills : s.fills c = dest.toList) :
    let done := plainly (startWith source make wrap dest) s
    Parts s (s.events c done.1) done.2 := by
  intro done
  have hcall : s.calls c = [] := by simp [calls, hcalls]
  rcases startWith_cases source make wrap dest s with
    ⟨f, st, hb, hout⟩ | ⟨loan, st, hb, hout⟩
  · have hdone : done = _ := hout
    have hevents : s.events c ⟨.failure f, none⟩ = [] := by
      unfold events
      split
      · exact absurd rfl (hseed _ _)
      · simp [hcall, hempties]
    rw [hdone, hevents]
    have hpart : Part s [] { s with provider.state := st } := .miss source f rfl hb
    exact hpart.parts
  · have hdone : done = _ := hout
    have hpart := (Part.start (wrap (make loan)) dest hb (hloan loan) (hsound loan st)).parts
    rw [hdone, events_begun hseed hopens hcall hempties hfills]
    exact hpart

/-- Starting a function borrows a context that stays with the slot. -/
theorem parts_start (hfits : c.fits = true) (h : StartPrepared s c prepared) :
    Parts s (s.events c (prepared s).1) (prepared s).2 := by
  cases h with
  | hashing hitem =>
      refine parts_begin _ _ (fun _ => rfl) (fun loan _ => ?_) _ (by simp) ?_ rfl rfl rfl
      · exact Streaming.Function.held_start _
      · simp only [opened?, hitem]
  | signing hitem =>
      refine parts_begin _ _ (fun _ => rfl) (fun loan _ => ?_) _ (by simp) ?_ rfl rfl rfl
      · exact Streaming.Function.held_start _
      · simp only [opened?, hitem]
  | verifying hitem =>
      refine parts_begin _ _ (fun _ => rfl) (fun loan _ => ?_) _ (by simp) ?_ rfl rfl rfl
      · exact Streaming.Function.held_start _
      · simp only [opened?, hitem]
  | encrypting =>
      exact parts_plainly (Fills.bind ((led_refl s).onState (opening_startEncrypting _ _ _))
        fun f t _ ht => fills_keep ht rfl trivial) hfits (by simp) rfl rfl rfl rfl
  | decrypting =>
      exact parts_plainly (fills_keep (led_refl s) rfl trivial) hfits (by simp) rfl rfl rfl rfl

/-! ## Feeding -/

variable {item' : Item} {answer : Answer} {on : String} {st : State}

theorem fillsLast_of_bytes (hg : s.slots.get? on = some item) (hno : ∀ f, item ≠ .verifying f)
    (dest : Option String) : s.fillsLast on dest = dest.toList := by
  have hitem : s.item? on = some item := hg
  unfold fillsLast
  rw [hitem]
  cases item <;> first | rfl | exact absurd rfl (hno _)

theorem answerFed_ok (s : Session) (dest : Option String) (d : Datum) (said : Datum → Value)
    (stage : Streaming.Stage) : answerFed s dest (.ok d) said stage
      = (fed (.ok (said d)) stage, (keep dest (.data d) s).2) := by
  cases dest <;> rfl

/-- What comes of a last chunk fills a slot if it is bytes, and none if it is a verdict. -/
theorem parts_feedLast {last : Datum} (hs : s.Sound) (hg : s.slots.get? on = some item)
    (h : feedLast s on item last dest = some (answer, s')) :
    Parts s (match answer.outcome with
      | .value _ => (s.fillsLast on dest).flatMap s.ends
      | _ => []) s' := by
  obtain ⟨item', hfed, ⟨⟨f, rfl⟩, rfl⟩ | ⟨hno, r, said, stage, hanswer⟩⟩ :=
    refed_feedLast (hs on item (Slots.mem_of_get? hg)) h
  · have hpart := (hfed.part hg).parts
    have hfills : s.fillsLast on dest = [] := by
      have hitem : s.item? on = some (.verifying f) := hg
      simp only [fillsLast, hitem]
    rw [hfills]
    cases answer.outcome <;> exact hpart
  · have hpart := hfed.part hg
    rw [fillsLast_of_bytes hg hno]
    cases r with
    | error e =>
        obtain ⟨rfl, rfl⟩ := Prod.mk.inj hanswer
        exact hpart.parts
    | ok d =>
        rw [answerFed_ok] at hanswer
        obtain ⟨rfl, rfl⟩ := Prod.mk.inj hanswer
        -- the function has ended by now, so what the slot held before is released only once
        have hfill : Part (s.update on item') (dest.toList.flatMap (s.update on item').ends)
            (keep dest (.data d) (s.update on item')).2 := .fill dest (.data d) rfl trivial
        rw [ends_update hg hfed.held] at hfill
        exact hpart.parts.snoc hfill

/-- Completing is finishing with nothing, and stands for the same. -/
theorem events_last (s : Session) (on : String) (data : Recipe) (dest : Option String)
    (answer : Answer) :
    s.events (.finish on data dest) answer = (match answer.outcome with
      | .value _ => (s.fillsLast on dest).flatMap s.ends
      | _ => [])
    ∧ s.events (.complete on dest) answer = (match answer.outcome with
      | .value _ => (s.fillsLast on dest).flatMap s.ends
      | _ => []) := by
  unfold events
  cases answer.outcome <;> simp [calls, called?, begins, opened?, Command.empties, fills]

/-- Closing gives the context back and says so. -/
theorem parts_close (hg : s.slots.get? on = some item)
    (h : closeFunction s on item = some (answer, s')) :
    Parts s (s.ends on) s' ∧ answer = fed (.ok .nothing) .closed := by
  -- one part whatever is closed: the loan goes back and the slot holds a closed function
  have hclosed : ∀ item' : Item, item'.loan? = none → (∀ st, item'.Sound st) →
      Parts s (s.ends on)
        (Session.update { s with provider.state := item.release s.provider.state } on item') :=
    fun item' hfree hsound => (Part.close item' hg hfree hsound).parts
  cases item with
  | hashing f drawn =>
      obtain ⟨rfl, rfl⟩ := Prod.mk.inj (Option.some.inj h)
      exact ⟨hclosed _ rfl fun _ => Streaming.Function.held_close f, rfl⟩
  | signing f drawn =>
      obtain ⟨rfl, rfl⟩ := Prod.mk.inj (Option.some.inj h)
      exact ⟨hclosed _ rfl fun _ => Streaming.Function.held_close f, rfl⟩
  | verifying f =>
      obtain ⟨rfl, rfl⟩ := Prod.mk.inj (Option.some.inj h)
      exact ⟨hclosed _ rfl fun _ => Streaming.Function.held_close f, rfl⟩
  | encrypting f drawn =>
      obtain ⟨rfl, rfl⟩ := Prod.mk.inj (Option.some.inj h)
      exact ⟨hclosed _ rfl fun _ => trivial, rfl⟩
  | decrypting f =>
      obtain ⟨rfl, rfl⟩ := Prod.mk.inj (Option.some.inj h)
      exact ⟨hclosed _ rfl fun _ => trivial, rfl⟩
  | _ => exact absurd h (by simp [closeFunction])

/-- A run ends in a function that is gone, whatever came of its chunks. -/
theorem parts_runFunction {chunks : List Datum} {last : Datum} (hs : s.Sound)
    (hg : s.slots.get? on = some item)
    (h : runFunction s on item chunks last = some (answer, s')) :
    Parts s (s.ends on) s' ∧ answer.outcome ≠ .refused := by
  cases hfed : feedAll item chunks last with
  | none =>
      unfold runFunction at h
      rw [hfed] at h
      exact absurd h (by simp)
  | some out =>
      obtain ⟨r, item'⟩ := out
      obtain ⟨rfl, houtcome⟩ := runFunction_eq_discard hfed h
      have hrefed := refed_feedAll (hs on item (Slots.mem_of_get? hg)) hfed
      have hdiscard : Part (s.update on item') ((s.update on item').ends on)
          ((s.update on item').discard on) := .discard on
      rw [ends_update hg hrefed.held] at hdiscard
      refine ⟨(hrefed.part hg).parts.snoc hdiscard, ?_⟩
      rw [houtcome]
      cases r <;> simp [fed, failing]

/-- All that is done to a function that was started. -/
theorem parts_feed (hs : s.Sound) (hfits : c.fits = true) {done : Answer × Session}
    (h : s.feed? c = some done) : Parts s (s.events c done.1) done.2 := by
  obtain ⟨answer, s'⟩ := done
  unfold feed? at h
  split at h
  · -- a chunk
    rename_i on data
    obtain ⟨item, hitem, h⟩ := Option.bind_eq_some_iff.mp h
    obtain ⟨chunk, _, h⟩ := Option.bind_eq_some_iff.mp h
    obtain ⟨item', hfed, rfl⟩ := refed_feedChunk (hs on item (Slots.mem_of_get? hitem)) h
    have hevents : s.events (.update on data) answer = [] := by
      unfold events
      cases answer.outcome <;>
        simp [calls, called?, begins, opened?, Command.empties, fills]
    rw [hevents]
    exact (hfed.part hitem).parts
  · -- the last chunk
    rename_i on data dest
    obtain ⟨item, hitem, h⟩ := Option.bind_eq_some_iff.mp h
    obtain ⟨last, _, h⟩ := Option.bind_eq_some_iff.mp h
    rw [(events_last s on data dest answer).1]
    exact parts_feedLast hs hitem h
  · rename_i on dest
    obtain ⟨item, hitem, h⟩ := Option.bind_eq_some_iff.mp h
    rw [(events_last s on (.plain []) dest answer).2]
    exact parts_feedLast hs hitem h
  · -- closing
    rename_i on
    obtain ⟨item, hitem, h⟩ := Option.bind_eq_some_iff.mp h
    obtain ⟨hparts, rfl⟩ := parts_close hitem h
    have hevents : s.events (.close on) (fed (.ok .nothing) .closed) = s.ends on := by
      simp [events, fed, calls, called?, begins, opened?, Command.empties, fills]
    rw [hevents]
    exact hparts
  · -- looking at the stage
    rename_i on
    obtain ⟨item, _, h⟩ := Option.bind_eq_some_iff.mp h
    obtain ⟨stage, _, h⟩ := Option.bind_eq_some_iff.mp h
    obtain ⟨rfl, rfl⟩ := Prod.mk.inj (Option.some.inj h)
    have hevents : s.events (.stage on) ⟨.value .nothing, some stage⟩ = [] := by
      simp [events, calls, called?, begins, opened?, Command.empties, fills]
    rw [hevents]
    exact .nil
  · -- a run of chunks
    rename_i on chunks last
    obtain ⟨item, hitem, h⟩ := Option.bind_eq_some_iff.mp h
    obtain ⟨ds, _, h⟩ := Option.bind_eq_some_iff.mp h
    obtain ⟨d, _, h⟩ := Option.bind_eq_some_iff.mp h
    obtain ⟨hparts, hanswered⟩ := parts_runFunction hs hitem h
    have hevents : s.events (.run on chunks last) answer = s.ends on := by
      unfold events
      cases ho : answer.outcome with
      | refused => exact absurd ho hanswered
      | value v => simp [calls, called?, begins, opened?, Command.empties, fills]
      | failure f => simp [hfits, calls, called?, Command.empties]
    rw [hevents]
    exact hparts
  · exact absurd h (by simp)

/-! ## Any command -/

/-- **Every command is made of the parts that it stands for.** -/
theorem parts_step (hs : s.Sound) (c : Command) :
    Parts s (s.events c (s.step c).1) (s.step c).2 := by
  unfold step
  cases hfits : c.fits with
  | false =>
      have hevents : s.events c ⟨.failure .unwound, none⟩ = [] := by
        unfold events
        split
        · -- no bytes are asked for, so there is room for them
          exact absurd hfits (by simp [Command.fits, Command.recipes, Recipe.allFit])
        · simp [hfits]
      rw [if_neg (by simp), hevents]
      exact .nil
  | true =>
      rw [if_pos rfl]
      cases hdone : s.carryOut? c with
      | none =>
          have hevents : s.events c .refusal = [] := by
            unfold events
            split
            · exact absurd hdone (by simp [carryOut?, prepareLook])
            · rfl
          show Parts s (s.events c .refusal) s
          rw [hevents]
          exact .nil
      | some done =>
          rcases carryOut?_cases hdone with ⟨work, hw | hw | hw | hw, rfl⟩ | ⟨work, hw, rfl⟩ | hf
          · exact parts_look hs hfits (lookPrepared hw)
          · exact parts_key hfits (keyPrepared hw)
          · exact parts_make hs hfits (makePrepared hw)
          · exact parts_call hs hfits (callPrepared hw)
          · exact parts_start hfits (startPrepared hw)
          · exact parts_feed hs hfits hf

theorem sound_start (executor : Executor) (entropy : Entropy) (capacity : Nat) :
    (start (software (State.start executor entropy capacity))).Sound := by
  intro name item hm
  exact absurd hm (by simp [start])

/-- **So is every run.** -/
theorem parts_run (hs : s.Sound) (commands : List Command) :
    Parts s (history commands s) (run commands s).2 := by
  induction commands generalizing s with
  | nil => exact .nil
  | cons c rest ih =>
      have hone := parts_step hs c
      exact hone.append (ih (hone.sound hs))

end PooledCrypto.Session
