import PooledCrypto.Proofs.KeyPools
import PooledCrypto.Proofs.Watching

/-!
# What a command does, part by part

Every command is carried out in few parts of few kinds: pools are made, a context is borrowed for
one call, a function is started, a slot is filled or emptied, the function in a slot is fed or
released. `Part` has one constructor for each kind. `parts_step` takes any command apart into them,
and it is the only place that goes through all commands: a property of sessions is looked at part by
part from then on.

A part also says what it means for the contexts of digest pools, as a list of `Event`s. Which events
a command stands for is told without the parts by `Session.events`, from the command, its answer and
the slots that it names.
-/

namespace PooledCrypto.Provider

/-- Whether a call of this shape gets as far as the operation. -/
def Operation.works {κ : Type} (o : Operation κ) : Shape → Bool
  | .direct => true
  | .offloaded => o.executor.adaptor.runs

/-- The signer has a pool, and codes under a MAC key are its signatures if the pool is a key's. -/
structure Signer.Sound (signer : Signer) (s : State) : Prop where
  stands : signer.source.Stands s
  scheme : ∀ number, signer.source = .mac number → signer.scheme = .mac

/-- The same for a verifier. -/
structure Verifier.Sound (v : Verifier) (s : State) : Prop where
  stands : v.source.Stands s
  scheme : ∀ number, v.source = .mac number → v.scheme = .mac

variable {signer : Signer} {v : Verifier} {s s' : State}

/-- What a signer borrows from stays, so the signer stays sound. -/
theorem Signer.Sound.continues (hs : signer.Sound s) (h : s.Continues s') : signer.Sound s' :=
  ⟨hs.stands.continues h, hs.scheme⟩

theorem Verifier.Sound.continues (hv : v.Sound s) (h : s.Continues s') : v.Sound s' :=
  ⟨hv.stands.continues h, hv.scheme⟩

end PooledCrypto.Provider

namespace PooledCrypto.Session

open Provider
open Streaming.Function (Held)

/-! ## Events -/

/-- What happens to the contexts of digest pools. -/
inductive Event
  /-- A context of the pool is borrowed for one call. -/
  | called (pool : String)
  /-- A function takes a context of the pool. -/
  | opened (pool : String)
  /-- A function gives its context back to the pool. -/
  | ended (pool : String)
  /-- The pool is made from outside. -/
  | seeded (pool : String)
  deriving DecidableEq, Repr

/-- The digest pool that the item holds a context of. -/
def Item.bound? (item : Item) : Option String := item.loan?.bind Loan.pool?

/-- What it means that the item in a slot is released. -/
def ends (s : Session) (name : String) : List Event :=
  ((s.item? name).bind Item.bound?).toList.map .ended

/-- The slots that a command empties, or whose function it releases. -/
def Command.empties : Command → List String
  | .drop on => [on]
  | .close on => [on]
  | .run on _ _ => [on]
  | _ => []

/-- The slots for what comes of a function in the end: none for a verdict, which is not kept. -/
def fillsLast (s : Session) (on : String) (dest : Option String) : List String :=
  match s.item? on with
  | some (.verifying _) => []
  | _ => dest.toList

/-- The slots that a command fills if it succeeds. -/
def fills (s : Session) : Command → List String
  | .keep dest _ | .clone _ dest | .importHmac dest _ _ _ | .generateHmac dest _ _ _ _
  | .importAead dest _ _ _ | .generateAead dest _ _ _ _ | .importPublic _ dest _ _ _
  | .importPrivate _ dest _ _ _ | .encode _ _ dest | .hasher dest _ _ | .cipher _ dest _ _
  | .signer _ dest _ _ _ | .verifier _ dest _ _ _ | .agreement _ dest _ | .hash _ _ _ dest
  | .sign _ _ _ dest | .agree _ _ _ dest | .encrypt _ _ _ _ _ dest
  | .encryptBox _ _ _ _ _ dest | .decrypt _ _ _ _ dest | .decryptBox _ _ _ _ dest
  | .startHashing _ dest | .startSigning _ dest | .startVerifying _ _ dest
  | .startEncrypting _ _ _ dest | .startDecrypting _ _ dest => dest.toList
  | .generatePair _ toPublic toPrivate _ _ _ =>
    if toPublic = toPrivate then toPublic.toList else toPublic.toList ++ toPrivate.toList
  | .finish on _ dest | .complete on dest => s.fillsLast on dest
  | _ => []

/-- Where the context of a call is borrowed, if the call gets as far as that. -/
def called? (s : Session) : Command → Option Source
  | .hash on _ shape _ =>
    match s.item? on with
    | some (.hasher o) => if o.works shape then some (.digest o.core.kind) else none
    | _ => none
  | .sign on _ shape _ =>
    match s.item? on with
    | some (.signer o _) => if o.works shape then some o.core.source else none
    | _ => none
  | .verify on _ _ shape =>
    match s.item? on with
    | some (.verifier o) => if o.works shape then some o.core.source else none
    | _ => none
  | .verifyOrFail on _ _ =>
    match s.item? on with
    | some (.verifier o) => some o.core.source
    | _ => none
  | _ => none

/-- Where a function that is started takes its context. -/
def opened? (s : Session) : Command → Option Source
  | .startHashing on _ =>
    match s.item? on with
    | some (.hasher o) => some (.digest o.core.kind)
    | _ => none
  | .startSigning on _ =>
    match s.item? on with
    | some (.signer o _) => some o.core.source
    | _ => none
  | .startVerifying on _ _ =>
    match s.item? on with
    | some (.verifier o) => some o.core.source
    | _ => none
  | _ => none

/-- What it means that a command makes a call. -/
def calls (s : Session) (c : Command) : List Event :=
  ((s.called? c).bind Source.pool?).toList.map .called

/-- What it means that a command has started a function. One that nobody keeps ends at once. -/
def begins (s : Session) (c : Command) : List Event :=
  match (s.opened? c).bind Source.pool? with
  | some pool => .opened pool :: if (s.fills c).isEmpty then [.ended pool] else []
  | none => []

/-- What a command that was answered so has done to the contexts of digest pools. -/
def events (s : Session) (c : Command) (answer : Answer) : List Event :=
  match c with
  | .seedPool name _ => if (s.provider.state.pools.find? name).isNone then [.seeded name] else []
  | c =>
    match answer.outcome with
    | .value _ => s.calls c ++ s.begins c ++ (c.empties ++ s.fills c).flatMap s.ends
    | .failure _ => if c.fits then s.calls c ++ c.empties.flatMap s.ends else []
    | .refused => []

/-- The events of commands that are carried out in order. -/
def history : List Command → Session → List Event
  | [], _ => []
  | c :: rest, s => s.events c (s.step c).1 ++ history rest (s.step c).2

/-! ## Parts -/

/-- What the state owes the item, and the item itself. -/
def Item.Sound (st : State) : Item → Prop
  | .key (.hmac k) _ => k.Kept st
  | .hasher o => (Source.digest o.core.kind).Stands st
  | .signer o _ => o.core.Sound st
  | .verifier o => o.core.Sound st
  | .hashing f _ => Held f
  | .signing f _ => Held f
  | .verifying f => Held f
  | _ => True

/-- Every item is in order. -/
def Sound (s : Session) : Prop :=
  ∀ name item, (name, item) ∈ s.slots → item.Sound s.provider.state

/-- One part of what a command does. -/
inductive Part (s : Session) : List Event → Session → Prop
  /-- Nothing is done to contexts or slots. Pools may be made. -/
  | prepare {s' : Session} (slots : s'.slots = s.slots)
      (state : Opens s.provider.state s'.provider.state) : Part s [] s'
  | seed {s' : Session} (name : String) (type : HandleType) (slots : s'.slots = s.slots)
      (none : s.provider.state.pools.find? name = none)
      (state : s'.provider.state = (seed name type s.provider.state).2) : Part s [.seeded name] s'
  /-- Something is computed in one call. -/
  | call {s' : Session} (source : Source) (data : Bytes) (stands : source.Stands s.provider.state)
      (slots : s'.slots = s.slots)
      (state : s'.provider.state = (compute source data s.provider.state).2) :
      Part s (source.pool?.toList.map .called) s'
  /-- A function cannot be started, for want of a context. -/
  | miss {s' : Session} (source : Source) (f : Failure) (slots : s'.slots = s.slots)
      (borrowed : borrow source s.provider.state = (.error f, s'.provider.state)) : Part s [] s'
  /-- A function is started, and kept or released at once. -/
  | start {source : Source} {loan : Loan} {st : State} (item : Item) (dest : Option String)
      (borrowed : borrow source s.provider.state = (.ok loan, st))
      (held : item.loan? = some loan) (sound : item.Sound st) :
      Part s (source.pool?.toList.map .opened
          ++ match dest with
            | some name => s.ends name
            | none => source.pool?.toList.map .ended)
        (keep dest item { s with provider.state := st }).2
  /-- Something that is no function is kept. -/
  | fill (dest : Option String) (item : Item) (free : item.loan? = none)
      (sound : item.Sound s.provider.state) :
      Part s (dest.toList.flatMap s.ends) (keep dest item s).2
  | discard (name : String) : Part s (s.ends name) (s.discard name)
  /-- A function takes in a chunk, or comes to its end, and keeps its context. -/
  | feed {name : String} {old : Item} (item : Item) (found : s.slots.get? name = some old)
      (held : item.loan?.map Loan.reset = old.loan?.map Loan.reset)
      (sound : item.Sound s.provider.state) : Part s [] (s.update name item)
  /-- A function gives its context back and stays in its slot. -/
  | close {name : String} {old : Item} (item : Item) (found : s.slots.get? name = some old)
      (free : item.loan? = none) (sound : ∀ st, item.Sound st) :
      Part s (s.ends name)
        (update { s with provider.state := old.release s.provider.state } name item)

/-- Parts one after the other. -/
inductive Parts (s : Session) : List Event → Session → Prop
  | nil : Parts s [] s
  | snoc {es es' : List Event} {t u : Session} : Parts s es t → Part t es' u →
      Parts s (es ++ es') u

variable {s s' t u : Session} {es es' : List Event} {name : String} {item old : Item}

theorem Part.parts (h : Part s es t) : Parts s es t := Parts.snoc .nil h

theorem Parts.append (h : Parts s es t) (h' : Parts t es' u) : Parts s (es ++ es') u := by
  induction h' with
  | nil =>
      rw [List.append_nil]
      exact h
  | snoc _ hpart ih =>
      rw [← List.append_assoc]
      exact ih.snoc hpart

/-! ## What every part preserves -/

/-- Releasing gives back at most one context. -/
theorem continues_release (item : Item) (st : State) : st.Continues (item.release st) := by
  unfold Item.release
  cases item.loan? with
  | none => exact .refl st
  | some loan => exact (exchanges_giveBack st loan).continues

theorem continues_discard (s : Session) (name : String) :
    s.provider.state.Continues (s.discard name).provider.state := by
  unfold Session.discard
  dsimp only
  cases s.slots.get? name with
  | none => exact .refl _
  | some old => exact continues_release old _

theorem continues_keep (s : Session) (dest : Option String) (item : Item) :
    s.provider.state.Continues (keep dest item s).2.provider.state := by
  cases dest with
  | none => exact continues_release item _
  | some name => exact continues_discard s name

/-- The pools of the provider go on through every part. -/
theorem Part.continues (h : Part s es t) :
    s.provider.state.Continues t.provider.state := by
  cases h with
  | prepare _ state => exact state.continues
  | seed name type _ _ state =>
      rw [state]
      exact .getOrCreate _ _ _ _ _
  | call source data _ _ state =>
      rw [state]
      exact (exchanges_compute source data _).continues
  | miss source f _ borrowed =>
      have h := continues_borrow source s.provider.state
      rw [borrowed] at h
      exact h
  | @start source loan st item dest borrowed _ _ =>
      have h := continues_borrow source s.provider.state
      rw [borrowed] at h
      exact h.trans (continues_keep { s with provider.state := st } dest item)
  | fill dest item _ _ => exact continues_keep s dest item
  | discard name => exact continues_discard s name
  | feed item _ _ _ => exact .refl _
  | close item found _ _ => exact continues_release _ _

/-- And so through a whole course of parts. -/
theorem Parts.continues (h : Parts s es t) : s.provider.state.Continues t.provider.state := by
  induction h with
  | nil => exact .refl _
  | snoc _ hpart ih => exact ih.trans hpart.continues

/-- Whatever is in a slot, nothing that happens elsewhere unmakes what it was sound for. -/
theorem Item.Sound.continues {st st' : State} (hi : item.Sound st) (h : st.Continues st') :
    item.Sound st' := by
  cases item with
  | key k drawn =>
      cases k with
      | hmac k => exact HmacKey.Kept.continues hi h
      | _ => trivial
  | hasher o =>
      have hstands : (Source.digest o.core.kind).Stands st := hi
      exact hstands.continues h
  | signer o drawn => exact Signer.Sound.continues hi h
  | verifier o => exact Verifier.Sound.continues hi h
  -- a function holds its context itself
  | hashing f drawn => exact hi
  | signing f drawn => exact hi
  | verifying f => exact hi
  | _ => trivial

theorem sound_of_slots (hs : s.Sound) (hslots : t.slots = s.slots)
    (h : s.provider.state.Continues t.provider.state) : t.Sound := by
  intro name item hm
  rw [hslots] at hm
  exact (hs name item hm).continues h

/-- A slot may be filled with anything that is sound in the state that there is then. -/
theorem sound_put {slots : Slots} {st st' : State} (hs : ∀ n i, (n, i) ∈ slots → i.Sound st)
    (h : st.Continues st') (hi : item.Sound st') :
    ∀ n i, (n, i) ∈ slots.put name item → i.Sound st' := by
  intro n i hm
  rcases List.mem_cons.mp hm with heq | hm
  · obtain ⟨rfl, rfl⟩ := Prod.mk.inj heq
    exact hi
  · exact (hs n i (Slots.mem_of_mem_erase hm).1).continues h

theorem sound_keep (hs : s.Sound) (dest : Option String)
    (hi : item.Sound s.provider.state) : (keep dest item s).2.Sound := by
  have h := continues_keep s dest item
  cases dest with
  | none => exact sound_of_slots (t := (keep none item s).2) hs rfl h
  | some name => exact sound_put hs h (hi.continues h)

/-- **Every part leaves every item in order.** -/
theorem Part.sound (h : Part s es t) (hs : s.Sound) : t.Sound := by
  have hc := h.continues
  cases h with
  | prepare slots _ => exact sound_of_slots hs slots hc
  | seed _ _ slots _ _ => exact sound_of_slots hs slots hc
  | call _ _ _ slots _ => exact sound_of_slots hs slots hc
  | miss _ _ slots _ => exact sound_of_slots hs slots hc
  | @start source loan st item dest borrowed _ sound =>
      have h := continues_borrow source s.provider.state
      rw [borrowed] at h
      have hmid : Session.Sound { s with provider.state := st } := sound_of_slots hs rfl h
      exact sound_keep hmid dest sound
  | fill dest item _ sound => exact sound_keep hs dest sound
  | discard name =>
      intro n i hm
      exact (hs n i (Slots.mem_of_mem_erase hm).1).continues hc
  | feed item _ _ sound => exact sound_put hs hc sound
  | close item _ _ sound => exact sound_put hs hc (sound _)

/-- A course of parts leads from sound sessions to sound sessions. -/
theorem Parts.sound (h : Parts s es t) (hs : s.Sound) : t.Sound := by
  induction h with
  | nil => exact hs
  | snoc _ hpart ih => exact hpart.sound ih

/-! ## Slots before and after -/

/-- What it means to release the item in a slot depends on the slots alone. -/
theorem ends_congr (h : t.slots = s.slots) : t.ends = s.ends := by
  funext name
  unfold ends item?
  rw [h]

theorem Slots.get?_put_ne {slots : Slots} {other : String} (hne : other ≠ name) :
    (slots.put name item).get? other = slots.get? other := by
  unfold Slots.get? Slots.put Slots.erase
  have hfirst : (name == other) = false := by simpa using hne.symm
  rw [List.find?_cons, hfirst, List.find?_filter]
  dsimp only
  congr 2
  funext e
  by_cases he : e.1 = other
  · simp [he, hne]
  · simp [he]

/-- An item that is fed keeps the pool that its context is from. -/
theorem bound?_of_held (h : item.loan?.map Loan.reset = old.loan?.map Loan.reset) :
    item.bound? = old.bound? := by
  have hreset : ∀ loan : Loan, loan.reset.pool? = loan.pool? := by
    intro loan
    cases loan <;> rfl
  have hbound : ∀ i : Item, i.bound? = (i.loan?.map Loan.reset).bind Loan.pool? := by
    intro i
    unfold Item.bound?
    cases i.loan? with
    | none => rfl
    | some loan => exact (hreset loan).symm
  rw [hbound, hbound, h]

/-- To replace an item by one with the same loan does not change what emptying its slot ends. -/
theorem ends_update (hg : s.slots.get? name = some old)
    (h : item.loan?.map Loan.reset = old.loan?.map Loan.reset) :
    (s.update name item).ends = s.ends := by
  funext other
  unfold ends item? Session.update
  dsimp only
  by_cases ho : other = name
  · subst ho
    rw [Slots.get?_put_self, hg]
    simp only [Option.bind_some, bound?_of_held h]
  · rw [Slots.get?_put_ne ho]

end PooledCrypto.Session
