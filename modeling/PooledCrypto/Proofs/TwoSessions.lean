import PooledCrypto.Proofs.TwoRuns
import PooledCrypto.Proofs.Watching

/-!
# Two sessions side by side

Two sessions that were given the same commands hold the same in their slots, but for the numbers of
the handles that streaming functions have borrowed. These numbers are never looked at: feeding a
function without them is feeding it (`takeIn_unnumbered`), and a command that is prepared from the
one session is the one that is prepared from the other (`prepareKey_paired` and its like).
-/

namespace PooledCrypto.Streaming

variable {κ χ ω : Type} [Core κ χ ω] {g : κ → κ}

/-- A change of contexts that the backend does not notice. -/
structure Unnoticed (g : κ → κ) : Prop where
  update : ∀ (c : κ) (chunk : Bytes),
    Core.update (g c) chunk = ((Core.update c chunk).1, g (Core.update c chunk).2)
  finish : ∀ (c : κ) (chunk : Bytes),
    Core.finish (g c) chunk = ((Core.finish c chunk).1, g (Core.finish c chunk).2)

namespace Function

omit [Core κ χ ω] in
/-- The function with its context changed. -/
def mapCore (g : κ → κ) (f : Function κ) : Function κ := ⟨f.stage, f.core.map g⟩

omit [Core κ χ ω] in
/-- Whether a function may be called goes by its stage, which the change leaves alone. -/
theorem ready_mapCore (g : κ → κ) (f : Function κ) (call : String) :
    (f.mapCore g).ready call = (f.ready call).map g := by
  obtain ⟨stage, core⟩ := f
  cases stage <;> cases core <;> rfl

/-- A chunk is taken by the changed function as by the function itself, and what stands there
afterwards is changed in the same way. -/
theorem update_mapCore (hg : Unnoticed g) (f : Function κ) (chunk : Bytes) :
    (f.mapCore g).update chunk = ((f.update chunk).1, (f.update chunk).2.mapCore g) := by
  unfold update
  rw [ready_mapCore]
  cases f.ready "update" with
  | error e => rfl
  | ok core =>
      dsimp only [Except.map]
      rw [hg.update]
      -- whether the backend took the chunk or refused it, the context it leaves is changed
      rcases Core.update core chunk with ⟨e | out, after⟩ <;> rfl

theorem finish_mapCore (hg : Unnoticed g) (f : Function κ) (chunk : Bytes) :
    (f.mapCore g).finish chunk = ((f.finish chunk).1, (f.finish chunk).2.mapCore g) := by
  unfold finish
  rw [ready_mapCore]
  cases f.ready "finish" with
  | error e => rfl
  | ok core =>
      dsimp only [Except.map]
      rw [hg.finish]
      rfl

theorem updateAll_mapCore (hg : Unnoticed g) (chunks : List Bytes) (f : Function κ) :
    updateAll chunks (f.mapCore g)
      = ((updateAll chunks f).1, (updateAll chunks f).2.mapCore g) := by
  induction chunks generalizing f with
  | nil => rfl
  | cons chunk rest ih =>
      unfold updateAll
      -- one chunk, then the rest from wherever it left the function; an error ends both runs
      rw [update_mapCore hg]
      rcases f.update chunk with ⟨e | out, after⟩
      · rfl
      · dsimp only
        rw [ih after]
        rcases updateAll rest after with ⟨e | outs, last⟩ <;> rfl

/-- Nor is the change noticed over a whole run: the chunks, then the final one. -/
theorem feed_mapCore (hg : Unnoticed g) (chunks : List Bytes) (last : Bytes) (f : Function κ) :
    feed chunks last (f.mapCore g)
      = ((feed chunks last f).1, (feed chunks last f).2.mapCore g) := by
  unfold feed
  rw [updateAll_mapCore hg]
  rcases updateAll chunks f with ⟨e | outs, after⟩
  · rfl
  · dsimp only
    rw [finish_mapCore hg]

end Function
end PooledCrypto.Streaming

namespace PooledCrypto.Provider

open Streaming (Unnoticed)

/-- What is written over a lent handle goes by its contents; the number only rides along. -/
theorem unnoticed_loan : Unnoticed Loan.unnumbered where
  update c chunk := by cases c <;> rfl
  finish c chunk := by cases c <;> rfl

/-- The message to be signed, without the number of the handle. -/
def Signing.unnumbered (c : Signing) : Signing := { c with loan := c.loan.unnumbered }

theorem unnoticed_signing : Unnoticed Signing.unnumbered where
  update c chunk := by
    obtain ⟨loan, scheme⟩ := c
    cases loan <;> rfl
  finish c chunk := by
    obtain ⟨loan, scheme⟩ := c
    cases loan <;> rfl

/-- The message to be verified, without the number of the handle. -/
def Verifying.unnumbered (c : Verifying) : Verifying := { c with loan := c.loan.unnumbered }

theorem unnoticed_verifying : Unnoticed Verifying.unnumbered where
  update c chunk := by
    obtain ⟨loan, scheme, signature⟩ := c
    cases loan <;> rfl
  finish c chunk := by
    obtain ⟨loan, scheme, signature⟩ := c
    cases loan <;> rfl

end PooledCrypto.Provider

namespace PooledCrypto.Session

open Provider
open PooledCrypto.Action (Agree Blind blind_pure blind_fail blind_ofExcept)
open Streaming.Function (update_mapCore finish_mapCore feed_mapCore)

/-! ## Slots -/

/-- The item without the number of the handle that it has borrowed. -/
def Item.unnumbered : Item → Item
  | .hashing f drawn => .hashing (f.mapCore Loan.unnumbered) drawn
  | .signing f drawn => .signing (f.mapCore Signing.unnumbered) drawn
  | .verifying f => .verifying (f.mapCore Verifying.unnumbered)
  | item => item

/-- The items without the numbers of the handles that they have borrowed. -/
def Slots.unnumbered (slots : Slots) : Slots := slots.map fun e => (e.1, e.2.unnumbered)

/-- Taking the numbers away does not move anything from its slot. -/
theorem get?_unnumbered (slots : Slots) (name : String) :
    slots.unnumbered.get? name = (slots.get? name).map Item.unnumbered := by
  unfold Slots.get? Slots.unnumbered
  rw [List.find?_map, Option.map_map, Option.map_map]
  rfl

theorem erase_unnumbered (slots : Slots) (name : String) :
    (slots.erase name).unnumbered = slots.unnumbered.erase name := by
  unfold Slots.erase Slots.unnumbered
  rw [List.filter_map]
  rfl

theorem put_unnumbered (slots : Slots) (name : String) (item : Item) :
    (slots.put name item).unnumbered = slots.unnumbered.put name item.unnumbered := by
  unfold Slots.put
  rw [← erase_unnumbered]
  rfl

mutual

/-- No recipe asks for what a function has borrowed. -/
theorem eval_unnumbered (slots : Slots) : ∀ r : Recipe, r.eval slots.unnumbered = r.eval slots
  | .plain _ => rfl
  | .repeated _ _ => rfl
  | .counting _ => rfl
  -- of a slot only data and sealed boxes are used, and these have no number
  | .slot name => by
      unfold Recipe.eval
      rw [get?_unnumbered]
      cases slots.get? name with
      | none => rfl
      | some item => cases item <;> rfl
  | .concat parts => by
      unfold Recipe.eval
      exact evalAll_unnumbered slots parts
  | .cut whole _ _ => by
      unfold Recipe.eval
      rw [eval_unnumbered slots whole]
  | .flip whole _ _ => by
      unfold Recipe.eval
      rw [eval_unnumbered slots whole]

theorem evalAll_unnumbered (slots : Slots) :
    ∀ parts : List Recipe, Recipe.evalAll slots.unnumbered parts = Recipe.evalAll slots parts
  | [] => rfl
  | part :: rest => by
      unfold Recipe.evalAll
      rw [eval_unnumbered slots part, evalAll_unnumbered slots rest]

end

/-- Two sessions whose states differ in their capacities and handles, and which are the same
otherwise. -/
structure Paired (k k' : Nat) (s t : Session) : Prop where
  state : State.Paired k k' s.provider.state t.provider.state
  algorithms : s.provider.algorithms = t.provider.algorithms
  slots : s.slots.unnumbered = t.slots.unnumbered
  found : s.firstFound = t.firstFound

variable {α β κ : Type} {k k' : Nat} {s t : Session} {l l' : Ledger} {item item' : Item}
  {short short' : Prop}

/-- Before the first command two sessions differ in the capacity of their pools and in nothing else.
-/
theorem paired_open (entropy : Entropy) (k k' : Nat) :
    Paired k k' (start (software (State.start .inPlace entropy k)))
      (start (software (State.start .inPlace entropy k'))) where
  state := paired_start entropy k k'
  algorithms := rfl
  slots := rfl
  found := rfl

/-- The same is found in a slot of the two. -/
theorem Paired.get? (h : Paired k k' s t) (name : String) :
    (s.slots.get? name).map Item.unnumbered = (t.slots.get? name).map Item.unnumbered := by
  rw [← get?_unnumbered, h.slots, get?_unnumbered]

/-- What an item has borrowed can be told neither before nor after it goes back. -/
theorem paired_release {st st' : State} (h : State.Paired k k' st st') (item item' : Item) :
    State.Paired k k' (item.release st) (item'.release st') := by
  -- either release is an exchange with one pool at most, and of exchanges the two states may see
  -- different ones
  have hone : ∀ (item : Item) (st : State), ∃ name?, Exchanges name? st (item.release st) := by
    intro item st
    unfold Item.release
    cases item.loan? with
    | none => exact ⟨none, .refl⟩
    | some loan => exact ⟨_, exchanges_giveBack st loan⟩
  obtain ⟨_, hs⟩ := hone item st
  obtain ⟨_, ht⟩ := hone item' st'
  exact h.exchanges hs ht

/-- So it is of no account what is in a slot that is emptied. -/
theorem Paired.vacated (h : Paired k k' s t) (name : String) :
    State.Paired k k' (s.discard name).provider.state (t.discard name).provider.state := by
  have hsame := h.get? name
  unfold discard
  cases hs : s.slots.get? name with
  | none =>
      rw [hs] at hsame
      -- the slot is empty in both or in neither, and the items need not be compared further
      rw [Option.map_eq_none_iff.mp hsame.symm]
      exact h.state
  | some old =>
      rw [hs] at hsame
      obtain ⟨old', ht, _⟩ := Option.map_eq_some_iff.mp hsame.symm
      rw [ht]
      exact paired_release h.state old old'

/-- Emptying the slot of a name leaves the two paired. -/
theorem Paired.discard (h : Paired k k' s t) (name : String) :
    Paired k k' (s.discard name) (t.discard name) where
  state := h.vacated name
  algorithms := h.algorithms
  slots := by
    show (s.slots.erase name).unnumbered = (t.slots.erase name).unnumbered
    rw [erase_unnumbered, erase_unnumbered, h.slots]
  found := h.found

theorem put_paired (h : Paired k k' s t) (hi : item.unnumbered = item'.unnumbered)
    (name : String) : (s.slots.put name item).unnumbered = (t.slots.put name item').unnumbered := by
  rw [put_unnumbered, put_unnumbered, h.slots, hi]

/-- So does filling it; what was there before is released first, in each session on its own. -/
theorem Paired.store (h : Paired k k' s t) (hi : item.unnumbered = item'.unnumbered)
    (name : String) : Paired k k' (s.store name item) (t.store name item') where
  state := h.vacated name
  algorithms := h.algorithms
  slots := put_paired h hi name
  found := h.found

/-- Replacing the contents of a slot releases nothing, so the states are not touched at all. -/
theorem Paired.update (h : Paired k k' s t) (hi : item.unnumbered = item'.unnumbered)
    (name : String) : Paired k k' (s.update name item) (t.update name item') where
  state := h.state
  algorithms := h.algorithms
  slots := put_paired h hi name
  found := h.found

/-- Items that are the same but for their numbers are kept alike. -/
theorem Paired.keep (h : Paired k k' s t) (hi : item.unnumbered = item'.unnumbered)
    (dest : Option String) :
    Agree short short' (Paired k k') (keep dest item s) (keep dest item' t) := by
  cases dest with
  | none => exact .same rfl ⟨paired_release h.state item item', h.algorithms, h.slots, h.found⟩
  | some name => exact .same rfl (h.store hi name)

/-! ## The parts that commands are made of -/

/-- Work that ends in the same way in two paired sessions. -/
abbrev BlindWork (short short' : Prop) (k k' : Nat) (work : Action Session α) : Prop :=
  Blind short short' (Paired k k') work

/-- Work on the state alone leaves whatever pairs the sessions beyond it. -/
theorem Paired.onState (h : Paired k k' s t) {work work' : Action State α}
    (hw : Agree short short' (State.Paired k k') (work s.provider.state)
      (work' t.provider.state)) :
    Agree short short' (Paired k k') (onState work s) (onState work' t) := by
  rcases hw with hs | ht | ⟨hr, hR⟩
  · exact Or.inl hs
  · exact Or.inr (Or.inl ht)
  · exact .same hr ⟨hR, h.algorithms, h.slots, h.found⟩

theorem blind_onState {work : Action State α}
    (hw : Blind short short' (State.Paired k k') work) :
    BlindWork short short' k k' (onState work) :=
  fun _ _ h => h.onState (hw _ _ h.state)

/-- Looking an algorithm up goes by the algorithms alone. -/
theorem blind_locate (f : Family) (name : String) :
    BlindWork short short' k k' (onProvider (locate f name)) := by
  intro s t h
  -- the table of algorithms is the same, so the lookup is, and it leaves the same table behind
  unfold onProvider locate
  dsimp only
  rw [h.algorithms]
  rcases t.provider.algorithms.lookup f name with ⟨e | found, algorithms⟩
  · exact .same rfl ⟨h.state, rfl, h.slots, h.found⟩
  · exact .same rfl ⟨h.state, rfl, h.slots, h.found⟩

/-- Getting an implementation is locating it and dropping the serial number it was built under. -/
theorem onProvider_get (f : Family) (name : String) :
    onProvider (Provider.get f name)
      = (do return (← onProvider (locate f name)).value : Action Session (Implemented f)) := by
  funext s
  rcases hout : locate f name s.provider with ⟨e | found, after⟩
  · have hlocate : onProvider (locate f name) s = (.error e, { s with provider := after }) := by
      rw [onProvider, hout]
    rw [Action.bind_of_error hlocate, onProvider, Provider.get, Action.bind_of_error hout]
  · have hlocate : onProvider (locate f name) s = (.ok found, { s with provider := after }) := by
      rw [onProvider, hout]
    rw [Action.bind_of_ok hlocate, onProvider, Provider.get, Action.bind_of_ok hout]
    rfl

/-- Hence it goes by the algorithms alone as well. -/
theorem blind_get (f : Family) (name : String) :
    BlindWork short short' k k' (onProvider (Provider.get f name)) := by
  rw [onProvider_get]
  exact (blind_locate f name).bind fun _ => blind_pure _

theorem blind_keep (dest : Option String) (item : Item) :
    BlindWork short short' k k' (keep dest item) := fun _ _ h => h.keep rfl dest

theorem blind_keepData (dest : Option String) (d : Datum) :
    BlindWork short short' k k' (keepData dest d) := (blind_keep _ _).bind fun _ => blind_pure _

theorem blind_keepKey (dest : Option String) (key : Provider.Key) (drawn : Bool) (said : Value) :
    BlindWork short short' k k' (keepKey dest key drawn said) :=
  (blind_keep _ _).bind fun _ => blind_pure _

/-- The first serial number seen of a name is the same in both, as the one before it was. -/
theorem blind_noteFound (f : Family) (name : String) (serial : Nat) :
    BlindWork short short' k k' (noteFound f name serial) := by
  intro s t h
  unfold noteFound
  rw [h.found]
  cases t.firstFound.find? fun e => e.1 == (f, name) with
  | some e => exact .same rfl h
  | none => exact .same rfl ⟨h.state, h.algorithms, h.slots, rfl⟩

/-! ## Work -/

/-- Looking up answers alike, also where nothing was required and nothing was found. -/
theorem blind_lookUp (name : String) (f : Family) (required : Bool) :
    BlindWork short short' k k' (lookUp name f required) := by
  intro s t h
  have hblind : BlindWork False False k k' (onProvider (locate f name)) := blind_locate f name
  -- here the answer is looked into before the work goes on, so the two outcomes are first shown to
  -- be one
  have hmid := (hblind s t h).sure
  unfold lookUp
  rcases hs : onProvider (locate f name) s with ⟨r, s₁⟩
  rcases ht : onProvider (locate f name) t with ⟨r', t₁⟩
  rw [hs, ht] at hmid
  obtain ⟨hr, h₁⟩ := hmid
  obtain rfl : r = r' := hr
  cases r with
  | error e =>
      -- a name that is not found is an error or an answer, as the command wants it; the same in
      -- both
      cases required with
      | true => exact .same rfl h₁
      | false => exact .same rfl h₁
  | ok found =>
      exact ((blind_noteFound f name found.serial).bind fun _ => blind_pure _) s₁ t₁ h₁

/-- A decoded key for HMAC comes with a pool of its own: this is where the capacity can be too large
for the room there is, in either session. -/
theorem blind_importHmac (dest : Option String) (digest : String) (format : KeyFormat)
    (key : Datum) : BlindWork (¬Roomy k) (¬Roomy k') k k' (importHmac dest digest format key) := by
  refine (blind_get _ _).bind fun _ => ?_
  refine (blind_onState (blind_decodeHmacKey digest format key.bytes)).bind fun k => ?_
  exact blind_keepKey _ _ _ _

theorem blind_generateHmacKey (dest : Option String) (route : Factory.Route)
    (digest : Option String) (keySize : Option Nat) (shape : Shape) :
    BlindWork (¬Roomy k) (¬Roomy k') k k' (generateHmac dest route digest keySize shape) := by
  refine (blind_get _ _).bind fun _ => ?_
  refine (blind_onState (blind_generateHmac route _ shape)).bind fun k => ?_
  exact blind_keepKey _ _ _ _

/-- Keys of ciphers are decoded without a pool, so nothing has to be said about the room. -/
theorem blind_importAead (dest : Option String) (name : String) (format : KeyFormat)
    (key : Datum) : BlindWork short short' k k' (importAead dest name format key) :=
  (blind_get _ _).bind fun _ => (blind_ofExcept _).bind fun _ => blind_keepKey _ _ _ _

theorem blind_generateAeadKey (dest : Option String) (name : String) (route : Factory.Route)
    (keySize : Option Nat) (shape : Shape) :
    BlindWork short short' k k' (generateAead dest name route keySize shape) := by
  refine (blind_get _ _).bind fun kind => ?_
  refine (blind_onState (blind_generateAead kind route _ shape)).bind fun k => ?_
  exact blind_keepKey _ _ _ _

theorem blind_lookUpUse (use : CurveUse) : BlindWork short short' k k' (lookUpUse use) := by
  cases use with
  | ecdsa => exact blind_get _ _
  | ecdh => exact blind_get _ _

theorem blind_importPublic (use : CurveUse) (dest : Option String) (curve : Curve)
    (format : KeyFormat) (key : Datum) :
    BlindWork short short' k k' (importPublic use dest curve format key) :=
  (blind_lookUpUse use).bind fun _ => (blind_ofExcept _).bind fun _ => blind_keepKey _ _ _ _

theorem blind_importPrivate (use : CurveUse) (dest : Option String) (curve : Curve)
    (format : KeyFormat) (key : Datum) :
    BlindWork short short' k k' (importPrivate use dest curve format key) :=
  (blind_lookUpUse use).bind fun _ => (blind_ofExcept _).bind fun _ => blind_keepKey _ _ _ _

/-- Key pairs are drawn from the same source in both sessions, hence they are the same pairs. -/
theorem blind_generateKeys (use : CurveUse) (toPublic toPrivate : Option String)
    (curve : Option Curve) (route : Factory.Route) (shape : Shape) :
    BlindWork short short' k k' (generatePair use toPublic toPrivate curve route shape) := by
  refine (blind_lookUpUse use).bind fun _ => ?_
  refine (blind_onState (blind_generatePair route _ shape)).bind fun pair => ?_
  exact (blind_keep _ _).bind fun _ => (blind_keep _ _).bind fun _ => blind_pure _

/-- A hasher borrows nothing before it hashes; what can stop its making is the opening of the pool
it will borrow from. -/
theorem blind_makeHasher (dest : Option String) (name : String) (route : Factory.Route) :
    BlindWork (¬Roomy k) (¬Roomy k') k k' (makeHasher dest name route) := by
  refine (blind_get _ _).bind fun kind => ?_
  refine (blind_onState (Factory.blind_factory (fun p => ?_) route id)).bind fun o => ?_
  · exact (blind_openDigestPool kind).bind fun _ => blind_make _
  · exact (blind_keep _ _).bind fun _ => blind_pure _

/-- Ciphers are made from their key and two sizes, without a pool. -/
theorem blind_makeCipher (key : Aead.Key) (drawn : Bool) (dest : Option String)
    (route : Factory.Route) (tagSize : Option Nat) :
    BlindWork short short' k k' (makeCipher key drawn dest route tagSize) := by
  refine (blind_onState (Factory.blind_factory (fun p => ?_) route _)).bind fun o => ?_
  · exact (blind_ofExcept _).bind fun _ => blind_make _
  · exact (blind_keep _ _).bind fun _ => blind_pure _

/-- Signers are kept alike as soon as they are made alike, whatever scheme they belong to. -/
theorem blind_keepSigner (dest : Option String) (drawn : Bool)
    {made : Action State (Operation Signer)}
    (hm : Blind short short' (State.Paired k k') made) :
    BlindWork short short' k k' (keepSigner dest drawn made) :=
  (blind_onState hm).bind fun _ => (blind_keep _ _).bind fun _ => blind_pure _

theorem blind_keepVerifier (dest : Option String) {made : Action State (Operation Verifier)}
    (hm : Blind short short' (State.Paired k k') made) :
    BlindWork short short' k k' (keepVerifier dest made) :=
  (blind_onState hm).bind fun _ => (blind_keep _ _).bind fun _ => blind_pure _

theorem blind_makeAgreement (key : Curve.P256.PrivateKey) (drawn : Bool) (dest : Option String)
    (route : Factory.Route) :
    BlindWork short short' k k' (makeAgreement key drawn dest route) := by
  refine (blind_onState (Factory.blind_factory (fun p => blind_make _) route id)).bind fun o => ?_
  exact (blind_keep _ _).bind fun _ => blind_pure _

/-! ## Feeding -/

/-- A chunk fed to an item: the answer, and the item afterwards. -/
def Item.takeIn (item : Item) (chunk : Datum) : Option (Answer × Item) :=
  match item with
  | .hashing f drawn =>
    let (result, f) := f.update chunk.bytes
    some (fed (failing (result.map fun _ => .nothing)) f.stage, .hashing f (drawn || chunk.drawn))
  | .signing f drawn =>
    let (result, f) := f.update chunk.bytes
    some (fed (failing (result.map fun _ => .nothing)) f.stage, .signing f (drawn || chunk.drawn))
  | .verifying f =>
    let (result, f) := f.update chunk.bytes
    some (fed (failing (result.map fun _ => .nothing)) f.stage, .verifying f)
  | .encrypting f drawn =>
    let drawn := drawn || chunk.drawn
    let (result, f) := f.update chunk.bytes
    some (fed (failing (result.map fun out => .data ⟨out, drawn⟩)) f.stage, .encrypting f drawn)
  | .decrypting f =>
    let (result, f) := f.update chunk.bytes
    some (fed (failing (result.map fun out => .data ⟨out, false⟩)) f.stage, .decrypting f)
  | _ => none

/-- What a function gave in the end: the answer, and the bytes to be kept. -/
def concluded (result : Except Error Datum) (said : Datum → Value) (stage : Streaming.Stage) :
    Answer × Option Datum :=
  match result with
  | .ok d => (fed (.ok (said d)) stage, some d)
  | .error e => (fed (.error (.error e)) stage, none)

/-- The final chunk fed to an item. -/
def Item.takeLast (item : Item) (last : Datum) : Option ((Answer × Option Datum) × Item) :=
  match item with
  | .hashing f drawn =>
    let (result, f) := f.finish last.bytes
    let drawn := drawn || last.drawn
    some (concluded (result.map fun out => ⟨out, drawn⟩) .data f.stage, .hashing f drawn)
  | .signing f drawn =>
    let scheme := schemeOf f
    let (result, f) := f.finish last.bytes
    let drawn := drawn || last.drawn
    some (concluded (result.map fun out => ⟨out, drawn⟩) (signatureValue scheme) f.stage,
      .signing f drawn)
  | .verifying f =>
    let (result, f) := f.finish last.bytes
    some ((fed (failing (result.map .flag)) f.stage, none), .verifying f)
  | .encrypting f drawn =>
    let (result, f) := f.finish last.bytes
    let drawn := drawn || last.drawn
    some (concluded (result.map fun out => ⟨out, drawn⟩) .data f.stage, .encrypting f drawn)
  | .decrypting f =>
    let (result, f) := f.finish last.bytes
    some (concluded (result.map fun out => ⟨out, false⟩) .data f.stage, .decrypting f)
  | _ => none

/-- Keeps the bytes that a function gave, if any. -/
def keepGiven (dest : Option String) (given : Option Datum) (s : Session) : Session :=
  match dest, given with
  | some name, some d => s.store name (.data d)
  | _, _ => s

/-- The item as a closed function. -/
def Item.shut? : Item → Option Item
  | .hashing f drawn => some (.hashing f.close.2 drawn)
  | .signing f drawn => some (.signing f.close.2 drawn)
  | .verifying f => some (.verifying f.close.2)
  | .encrypting f drawn => some (.encrypting f.close.2 drawn)
  | .decrypting f => some (.decrypting f.close.2)
  | _ => none

/-- A chunk that a command feeds goes to the item, and the item back to its slot. -/
theorem feedChunk_eq (s : Session) (on : String) (item : Item) (chunk : Datum) :
    feedChunk s on item chunk
      = (item.takeIn chunk).map fun out => (out.1, s.update on out.2) := by
  cases item <;> rfl

/-- The answer to a final chunk does not depend on the session; only the bytes are put there. -/
theorem answerFed_eq (s : Session) (dest : Option String) (result : Except Error Datum)
    (said : Datum → Value) (stage : Streaming.Stage) :
    answerFed s dest result said stage
      = ((concluded result said stage).1, keepGiven dest (concluded result said stage).2 s) := by
  cases result <;> cases dest <;> rfl

/-- The final chunk likewise, with the bytes put where the command asked for them. -/
theorem feedLast_eq (s : Session) (on : String) (item : Item) (last : Datum)
    (dest : Option String) :
    feedLast s on item last dest
      = (item.takeLast last).map fun out =>
          (out.1.1, keepGiven dest out.1.2 (s.update on out.2)) := by
  cases item with
  | hashing f drawn => exact congrArg some (answerFed_eq ..)
  | signing f drawn => exact congrArg some (answerFed_eq ..)
  -- a verdict is no bytes to keep, so it matters not where they were to go
  | verifying f => cases dest <;> rfl
  | encrypting f drawn => exact congrArg some (answerFed_eq ..)
  | decrypting f => exact congrArg some (answerFed_eq ..)
  | _ => rfl

/-- Closing gives back what the item had borrowed and leaves the closed function in the slot. -/
theorem closeFunction_eq (s : Session) (on : String) (item : Item) :
    closeFunction s on item
      = item.shut?.map fun shut => (fed (.ok .nothing) .closed,
          update { s with provider.state := item.release s.provider.state } on shut) := by
  cases item <;> rfl

/-- Nobody looks at the numbers of handles. -/
theorem takeIn_unnumbered (item : Item) (chunk : Datum) :
    item.unnumbered.takeIn chunk
      = (item.takeIn chunk).map (Prod.map id Item.unnumbered) := by
  cases item with
  | hashing f drawn =>
      simp only [Item.unnumbered, Item.takeIn, update_mapCore unnoticed_loan]
      rfl
  | signing f drawn =>
      simp only [Item.unnumbered, Item.takeIn, update_mapCore unnoticed_signing]
      rfl
  | verifying f =>
      simp only [Item.unnumbered, Item.takeIn, update_mapCore unnoticed_verifying]
      rfl
  | _ => rfl

/-- The scheme of a signature is not read from what is borrowed to make it. -/
theorem schemeOf_unnumbered (f : SignFunction) :
    schemeOf (f.mapCore Signing.unnumbered) = schemeOf f := by
  obtain ⟨stage, core⟩ := f
  cases core <;> rfl

/-- Nor does the final chunk, whose answer may show a signature in the form of its scheme. -/
theorem takeLast_unnumbered (item : Item) (last : Datum) :
    item.unnumbered.takeLast last
      = (item.takeLast last).map (Prod.map id Item.unnumbered) := by
  cases item with
  | hashing f drawn =>
      simp only [Item.unnumbered, Item.takeLast, finish_mapCore unnoticed_loan]
      rfl
  | signing f drawn =>
      simp only [Item.unnumbered, Item.takeLast, finish_mapCore unnoticed_signing,
        schemeOf_unnumbered]
      rfl
  | verifying f =>
      simp only [Item.unnumbered, Item.takeLast, finish_mapCore unnoticed_verifying]
      rfl
  | _ => rfl

theorem shut?_unnumbered (item : Item) :
    item.unnumbered.shut? = item.shut?.map Item.unnumbered := by
  cases item <;> rfl

theorem stage?_unnumbered (item : Item) : item.unnumbered.stage? = item.stage? := by
  cases item <;> rfl

/-- Nor does a run in one command. -/
theorem feedAll_unnumbered (item : Item) (chunks : List Datum) (last : Datum) :
    feedAll item.unnumbered chunks last
      = (feedAll item chunks last).map (Prod.map id Item.unnumbered) := by
  cases item with
  | hashing f drawn =>
      simp only [Item.unnumbered, feedAll, feed_mapCore unnoticed_loan]
      rfl
  | signing f drawn =>
      simp only [Item.unnumbered, feedAll, feed_mapCore unnoticed_signing, schemeOf_unnumbered]
      rfl
  | verifying f =>
      simp only [Item.unnumbered, feedAll, feed_mapCore unnoticed_verifying]
      rfl
  | _ => rfl

end PooledCrypto.Session
