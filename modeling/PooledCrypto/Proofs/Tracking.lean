import PooledCrypto.Proofs.Continuity
import PooledCrypto.Proofs.Ledger
import PooledCrypto.Proofs.Preparation

/-!
# Commands that leave the functions alone

Most commands neither feed a function nor start one. They borrow for as long as they take, if at
all, and what they keep is no function. Such a command is `Quiet`: the session stays tracked by the
very same ledger. A function may still lose its slot to what is kept; it is released then.
-/

namespace PooledCrypto.Session

open Provider
open PooledCrypto.Action (Keeps)

variable {α : Type} {l : Ledger} {s : Session}

/-! ## The parts that commands are made of -/

/-- Work on the shared state keeps the track if it gives back what it borrows. -/
theorem keeps_onState {work : Action State α} (hw : Balanced work) :
    Keeps (Tracked · l) (onState work) := by
  intro s ht
  exact ⟨hw s.loans s.provider.state ht.accounts, ht.names, ht.tended⟩

/-- Work on the provider that leaves the shared state alone keeps it, too. -/
theorem keeps_onProvider {work : Action Provider α} (hw : ∀ p, (work p).2.state = p.state) :
    Keeps (Tracked · l) (onProvider work) := by
  intro s ht
  refine ⟨?_, ht.names, ht.tended⟩
  show Accounts (work s.provider).2.state s.loans
  rw [hw]
  exact ht.accounts

/-- Looking an algorithm up may build its instance; the state is not touched. -/
theorem state_locate (f : Family) (name : String) (p : Provider) :
    (locate f name p).2.state = p.state := by
  unfold locate
  rcases p.algorithms.lookup f name with ⟨e | found, algorithms⟩
  · rfl
  · rfl

/-- Nor is it by asking for the algorithm itself. -/
theorem state_get (f : Family) (name : String) (p : Provider) :
    (get f name p).2.state = p.state := by
  have hl := state_locate f name p
  unfold Provider.get
  rcases hout : locate f name p with ⟨e | found, after⟩
  · rw [Action.bind_of_error hout]
    rw [hout] at hl
    exact hl
  · rw [Action.bind_of_ok hout]
    rw [hout] at hl
    exact hl

/-- What is no function can be kept anywhere. -/
theorem keeps_keep {item : Item} (dest : Option String) (hloan : item.loan? = none)
    (hopen : item.isOpen = false) : Keeps (Tracked · l) (keep dest item) := by
  intro s ht
  refine tracked_keep ht.names ht.tended ?_ (fun _ _ => rfl) ?_
  · rw [hloan]
    exact ht.accounts
  · intro name _ hisOpen
    exact absurd hisOpen (by simp [hopen])

/-- Bytes are no function. -/
theorem keeps_keepData (dest : Option String) (d : Datum) :
    Keeps (Tracked · l) (keepData dest d) :=
  (keeps_keep dest rfl rfl).bind fun _ => Action.keeps_pure _

/-- Neither is a key. -/
theorem keeps_keepKey (dest : Option String) (key : Provider.Key) (drawn : Bool) (said : Value) :
    Keeps (Tracked · l) (keepKey dest key drawn said) :=
  (keeps_keep dest rfl rfl).bind fun _ => Action.keeps_pure _

theorem keeps_get (f : Family) (name : String) : Keeps (Tracked · l) (onProvider (get f name)) :=
  keeps_onProvider (state_get f name)

/-! ## Work -/

/-- What is looked up is noted in a list that no function is in. -/
theorem keeps_lookUp (name : String) (f : Family) (required : Bool) :
    Keeps (Tracked · l) (lookUp name f required) := by
  intro s ht
  have hmid := keeps_onProvider (state_locate f name) s ht
  unfold lookUp
  rcases hout : onProvider (locate f name) s with ⟨e | found, after⟩
  · rw [hout] at hmid
    dsimp only
    split
    · exact hmid
    · exact hmid
  · rw [hout] at hmid
    -- the instance is noted if it is a new one, and the answer does not touch the session
    refine Keeps.bind (P := (Tracked · l)) ?_ (fun _ => Action.keeps_pure _) after hmid
    intro s ht
    unfold noteFound
    split
    · exact ht
    · exact ⟨ht.accounts, ht.names, ht.tended⟩

/-- A pool that is seeded holds contexts only if digests made them; the other types of handle have
no contexts to account for. -/
theorem balanced_seed (name : String) (type : HandleType) : Balanced (seed name type) := by
  intro lent s ha
  refine ha.getOrCreate name type _ ?_
  cases type with
  | digest => exact Or.inr fun _ => ⟨_, rfl⟩
  | number => trivial
  | text => trivial
  | largeNumber => trivial

/-- A MAC key comes with a pool of its own, from which nothing is borrowed yet. -/
theorem keeps_importHmac (dest : Option String) (digest : String) (format : KeyFormat)
    (key : Datum) : Keeps (Tracked · l) (importHmac dest digest format key) := by
  refine (keeps_get _ _).bind fun _ => ?_
  refine (keeps_onState (opening_decodeHmacKey digest format key.bytes).balanced).bind fun k => ?_
  exact keeps_keepKey _ _ _ _

/-- So does one that is generated, whatever comes of the drawing. -/
theorem keeps_generateHmac (dest : Option String) (route : Factory.Route)
    (digest : Option String) (keySize : Option Nat) (shape : Shape) :
    Keeps (Tracked · l) (generateHmac dest route digest keySize shape) := by
  refine (keeps_get _ _).bind fun _ => ?_
  refine (keeps_onState (opening_generateHmac route _ shape).balanced).bind fun k => ?_
  exact keeps_keepKey _ _ _ _

/-- Keys of ciphers have no pool. -/
theorem keeps_importAead (dest : Option String) (name : String) (format : KeyFormat)
    (key : Datum) : Keeps (Tracked · l) (importAead dest name format key) :=
  (keeps_get _ _).bind fun _ => (Action.keeps_ofExcept _).bind fun _ => keeps_keepKey _ _ _ _

theorem keeps_generateAead (dest : Option String) (name : String) (route : Factory.Route)
    (keySize : Option Nat) (shape : Shape) :
    Keeps (Tracked · l) (generateAead dest name route keySize shape) := by
  refine (keeps_get _ _).bind fun kind => ?_
  refine (keeps_onState (opening_generateAead kind route _ shape).balanced).bind fun k => ?_
  exact keeps_keepKey _ _ _ _

/-- Which of the two families is asked makes no difference. -/
theorem keeps_lookUpUse (use : CurveUse) : Keeps (Tracked · l) (lookUpUse use) := by
  cases use with
  | ecdsa => exact keeps_get _ _
  | ecdh => exact keeps_get _ _

theorem keeps_importPublic (use : CurveUse) (dest : Option String) (curve : Curve)
    (format : KeyFormat) (key : Datum) :
    Keeps (Tracked · l) (importPublic use dest curve format key) :=
  (keeps_lookUpUse use).bind fun _ => (Action.keeps_ofExcept _).bind fun _ =>
    keeps_keepKey _ _ _ _

theorem keeps_importPrivate (use : CurveUse) (dest : Option String) (curve : Curve)
    (format : KeyFormat) (key : Datum) :
    Keeps (Tracked · l) (importPrivate use dest curve format key) :=
  (keeps_lookUpUse use).bind fun _ => (Action.keeps_ofExcept _).bind fun _ =>
    keeps_keepKey _ _ _ _

/-- Of a pair both halves are kept, one after the other. -/
theorem keeps_generatePair (use : CurveUse) (toPublic toPrivate : Option String)
    (curve : Option Curve) (route : Factory.Route) (shape : Shape) :
    Keeps (Tracked · l) (generatePair use toPublic toPrivate curve route shape) := by
  refine (keeps_lookUpUse use).bind fun _ => ?_
  refine (keeps_onState (opening_generatePair route _ shape).balanced).bind fun pair => ?_
  refine (keeps_keep _ rfl rfl).bind fun _ => (keeps_keep _ rfl rfl).bind fun _ => ?_
  exact Action.keeps_pure _

/-- A hasher opens the pool of its digest, which borrows nothing. -/
theorem keeps_makeHasher (dest : Option String) (name : String) (route : Factory.Route) :
    Keeps (Tracked · l) (makeHasher dest name route) := by
  refine (keeps_get _ _).bind fun kind => ?_
  refine (keeps_onState fun lent => Factory.keeps_make (fun p => ?_) route id).bind fun o => ?_
  · exact ((balanced_openDigestPool kind).bind fun _ => balanced_make _) lent
  · exact (keeps_keep _ rfl rfl).bind fun _ => Action.keeps_pure _

/-- A cipher opens nothing at all. -/
theorem keeps_makeCipher (key : Aead.Key) (drawn : Bool) (dest : Option String)
    (route : Factory.Route) (tagSize : Option Nat) :
    Keeps (Tracked · l) (makeCipher key drawn dest route tagSize) := by
  refine (keeps_onState fun lent => Factory.keeps_make (fun p => ?_) route _).bind fun o => ?_
  · exact ((balanced_ofExcept _).bind fun _ => balanced_make _) lent
  · exact (keeps_keep _ rfl rfl).bind fun _ => Action.keeps_pure _

/-- Signers of either kind are kept in one way, and so they need one lemma only. -/
theorem keeps_keepSigner (dest : Option String) (drawn : Bool)
    {made : Action State (Operation Signer)} (hm : Balanced made) :
    Keeps (Tracked · l) (keepSigner dest drawn made) :=
  (keeps_onState hm).bind fun _ => (keeps_keep _ rfl rfl).bind fun _ => Action.keeps_pure _

/-- The same for verifiers. -/
theorem keeps_keepVerifier (dest : Option String) {made : Action State (Operation Verifier)}
    (hm : Balanced made) : Keeps (Tracked · l) (keepVerifier dest made) :=
  (keeps_onState hm).bind fun _ => (keeps_keep _ rfl rfl).bind fun _ => Action.keeps_pure _

theorem keeps_makeAgreement (key : Curve.P256.PrivateKey) (drawn : Bool) (dest : Option String)
    (route : Factory.Route) : Keeps (Tracked · l) (makeAgreement key drawn dest route) := by
  refine (keeps_onState fun lent => Factory.keeps_make (fun p => ?_) route id).bind fun o => ?_
  · exact balanced_make _ lent
  · exact (keeps_keep _ rfl rfl).bind fun _ => Action.keeps_pure _

/-! ## Commands -/

/-- The ledger need not say anything about what the command does. -/
def Quiet (work : Prepared) : Prop := ∀ s l, Tracked s l → Tracked (work s).2 l

/-- A command that ends in an answer is quiet if its work keeps the track, also when it fails. -/
theorem quiet_plainly {work : Work} (hw : ∀ l, Keeps (Tracked · l) work) :
    Quiet (plainly work) := by
  intro s l ht
  have hmid := hw l s ht
  unfold plainly
  rcases hout : work s with ⟨e | v, after⟩
  · rw [hout] at hmid
    exact hmid
  · rw [hout] at hmid
    exact hmid

variable {c : Command} {work : Prepared}

/-- Looking, seeding, keeping and dropping. What is dropped gives its context back, and the ledger
was not waiting for it. -/
theorem quiet_look (h : LookPrepared s c work) : Quiet work := by
  cases h with
  | lookup name family required => exact quiet_plainly fun l => keeps_lookUp _ _ _
  | seedPool name type => exact quiet_plainly fun l => keeps_onState (balanced_seed _ _)
  | keep dest hd => exact quiet_plainly fun l => keeps_keepData _ _
  | drop on => exact fun s l ht => tracked_discard ht _
  | @clone _ _ item hitem executor hexecutor =>
      -- only operations have an executor, and they hold no context
      refine quiet_plainly fun l => (keeps_keep _ ?_ ?_).bind fun _ => Action.keeps_pure _
      · cases item <;> first | rfl | exact absurd hexecutor (by simp [Item.executor?])
      · cases item <;> first | rfl | exact absurd hexecutor (by simp [Item.executor?])
  | _ => exact quiet_plainly fun l s ht => ht

/-- Importing, generating and encoding. -/
theorem quiet_key (h : KeyPrepared s c work) : Quiet work := by
  cases h with
  | importHmac => exact quiet_plainly fun l => keeps_importHmac _ _ _ _
  | generateHmac => exact quiet_plainly fun l => keeps_generateHmac _ _ _ _ _
  | importAead => exact quiet_plainly fun l => keeps_importAead _ _ _ _
  | generateAead => exact quiet_plainly fun l => keeps_generateAead _ _ _ _ _
  | importPublic => exact quiet_plainly fun l => keeps_importPublic _ _ _ _ _
  | importPrivate => exact quiet_plainly fun l => keeps_importPrivate _ _ _ _ _
  | generatePair => exact quiet_plainly fun l => keeps_generatePair _ _ _ _ _ _
  | encode =>
      exact quiet_plainly fun l => (Action.keeps_ofExcept _).bind fun _ => keeps_keepData _ _

/-- Making an operation. -/
theorem quiet_make (h : MakePrepared s c work) : Quiet work := by
  cases h with
  | hasher => exact quiet_plainly fun l => keeps_makeHasher _ _ _
  | cipher => exact quiet_plainly fun l => keeps_makeCipher _ _ _ _ _
  | hmacSigner =>
      refine quiet_plainly fun l => keeps_keepSigner _ _ fun lent => ?_
      exact Factory.keeps_make (fun p => balanced_make _ lent) _ _
  | ecdsaSigner =>
      refine quiet_plainly fun l => keeps_keepSigner _ _ fun lent => ?_
      exact Factory.keeps_make (fun p => (opening_openSha2 _ _ _).balanced lent) _ _
  | hmacVerifier =>
      refine quiet_plainly fun l => keeps_keepVerifier _ fun lent => ?_
      exact Factory.keeps_make (fun p => balanced_make _ lent) _ _
  | ecdsaVerifier =>
      refine quiet_plainly fun l => keeps_keepVerifier _ fun lent => ?_
      exact Factory.keeps_make (fun p => (opening_openSha2 _ _ _).balanced lent) _ _
  | agreement => exact quiet_plainly fun l => keeps_makeAgreement _ _ _ _

/-- A call of an operation, of which bytes are kept. -/
theorem keeps_callData {κ α : Type} (o : Operation κ) (shape : Shape) {work : Action State α}
    (hw : Balanced work) (dest : Option String) (datum : α → Datum) :
    Keeps (Tracked · l) (do
      let out ← onState (o.call shape work)
      keepData dest (datum out)) :=
  (keeps_onState (hw.call o shape)).bind fun _ => keeps_keepData _ _

/-- A box is made first, and then kept in the form that was asked for. -/
theorem keeps_encryptWith (o : Operation Aead.Cipher) (shape : Shape) (data : Datum)
    (nonce : Option Datum) (associated : Datum) {keepBox : Aead.Box → Work}
    (hk : ∀ box, Keeps (Tracked · l) (keepBox box)) :
    Keeps (Tracked · l) (encryptWith o shape data nonce associated keepBox) :=
  (keeps_onState ((opening_encryptBox _ _ _ _).balanced.call _ shape)).bind hk

/-- Calls borrow a context for as long as they take. It is back before anything is kept. -/
theorem quiet_call (h : CallPrepared s c work) : Quiet work := by
  cases h with
  | hash => exact quiet_plainly fun l => keeps_callData _ _ (balanced_hash _ _) _ _
  | sign =>
      refine quiet_plainly fun l => ?_
      -- the shape of the call is of no account: an executor that does not run it borrows nothing
      refine (keeps_onState ((balanced_sign _ _).call _ _)).bind fun signature => ?_
      exact (keeps_keep _ rfl rfl).bind fun _ => Action.keeps_pure _
  | verify =>
      refine quiet_plainly fun l => ?_
      exact (keeps_onState ((balanced_verify _ _ _).call _ _)).bind fun _ => Action.keeps_pure _
  | verifyOrFail =>
      refine quiet_plainly fun l => ?_
      exact (keeps_onState (balanced_verifyOrFail _ _ _)).bind fun _ => Action.keeps_pure _
  | agree =>
      refine quiet_plainly fun l => ?_
      exact (keeps_onState (balanced_exchange _ _ _)).bind fun _ => keeps_keepData _ _
  | sizes => exact quiet_plainly fun l => Action.keeps_ofExcept _
  | encrypt => exact quiet_plainly fun l => keeps_encryptWith _ _ _ _ _ fun _ => keeps_keepData _ _
  | encryptBox =>
      refine quiet_plainly fun l => keeps_encryptWith _ _ _ _ _ fun box => ?_
      exact (keeps_keep _ rfl rfl).bind fun _ => Action.keeps_pure _
  | decrypt => exact quiet_plainly fun l => keeps_callData _ _ (balanced_ofExcept _) _ _
  | decryptBox => exact quiet_plainly fun l => keeps_callData _ _ (balanced_ofExcept _) _ _

end PooledCrypto.Session
