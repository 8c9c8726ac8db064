import Mathlib.Data.List.Forall2
import Mathlib.Data.List.Nodup
import Mathlib.Data.List.Perm.Basic
import PooledCrypto.Proofs.PoolOrder
import PooledCrypto.Provider.State

/-!
# Every name has one pool

Many callers ask a directory for pools at the same time. A request looks whether the name has a pool,
and if it has none it comes back to make one; in between any others may do the same. An `Office` is a
directory with those who are in between, and `Move` lets them act in any order, while others use the
pools that are there already. A request that nobody comes in between is one move too, which is the
directory's own `getOrCreate`.

A pool is known by its place in the directory. Beside it the office keeps the request it was made for,
its maker, and the invariant `Office.Sound` says that every answer is the one that the maker of the
name settles (`Request.outcome`). Makers are only ever added, and only for names that have none. So
once a name has a maker all its requests are settled for ever, whoever comes in between
(`one_pool_each`).

There is one way to be left without an answer: a pool that there is no room for is not made, and its
request unwinds. The name is then as free as it was before.
-/

namespace PooledCrypto.Pool

variable {τ : Type} {carrier : τ → Type}

/-! ## Requests and what they come to -/

/-- A request for a pool. -/
structure Request (τ : Type) (carrier : τ → Type) where
  caller : Nat
  name : String
  type : τ
  /-- The bytes that room for a handle takes. -/
  handleBytes : Nat
  factory : Nat → Except Error (carrier type)

/-- What a borrower does with a pool. -/
inductive Use (α : Type)
  | checkout
  | release (h : Handle α)

/-- The pool after it was used. -/
def Use.after {α : Type} (use : Use α) (p : Pool α) : Pool α :=
  match use with
  | .checkout => p.checkout.2
  | .release h => p.release h

/-- Where the pool of a name is. -/
def Directory.place (d : Directory τ carrier) (name : String) : Nat := d.names.idxOf name

/-- A directory and those who ask for pools. -/
structure Office (τ : Type) (carrier : τ → Type) where
  directory : Directory τ carrier
  /-- Those who found no pool and have not come back yet. -/
  waiting : List (Request τ carrier)
  /-- Who was told what: the place of a pool, or what went wrong. -/
  answered : List (Request τ carrier × Except Failure Nat)
  /-- The requests for which the pools were made, in order. -/
  makers : List (Request τ carrier)

/-- What can happen at an office. -/
inductive Move (τ : Type) (carrier : τ → Type)
  /-- A request from beginning to end. -/
  | call (r : Request τ carrier)
  /-- A caller looks whether there is a pool. -/
  | look (r : Request τ carrier)
  /-- One of those who wait comes back. -/
  | settle (place : Nat)
  /-- Somebody borrows from a pool or gives back. -/
  | use (name : String) (type : τ) (use : Use (carrier type))

/-- Who asks by the move. -/
def Move.request? : Move τ carrier → Option (Request τ carrier)
  | .call r | .look r => some r
  | .settle _ | .use _ _ _ => none

/-- All who asked by the moves. -/
def requests (moves : List (Move τ carrier)) : List (Request τ carrier) :=
  moves.filterMap Move.request?

namespace Office

/-- An office with an empty directory. -/
def start (capacity : Nat) : Office τ carrier := ⟨.empty capacity, [], [], []⟩

/-- Answers a request with the directory as it is afterwards, and notes whether a pool was made. -/
def conclude (o : Office τ carrier) (r : Request τ carrier) (after : Directory τ carrier)
    (result : Except Failure Unit) : Office τ carrier :=
  { o with
    directory := after
    answered := o.answered ++ [(r, result.map fun _ => after.place r.name)]
    makers := o.makers ++ if o.directory.entries.length < after.entries.length then [r] else [] }

/-- The one who waits at a place goes. -/
def leave (o : Office τ carrier) (place : Nat) : Office τ carrier :=
  { o with waiting := o.waiting.eraseIdx place }

variable [DecidableEq τ]

/-- The caller is given the pool that is there. Else it has to come back. -/
def look (o : Office τ carrier) (r : Request τ carrier) : Office τ carrier :=
  match o.directory.find? r.name with
  | some _ => o.conclude r o.directory (o.directory.check r.name r.type)
  | none => { o with waiting := o.waiting ++ [r] }

/-- The caller makes the pool that is still missing and is given the one that is there then. -/
def enter (o : Office τ carrier) (r : Request τ carrier) : Office τ carrier :=
  match o.directory.insert r.name r.type r.handleBytes r.factory with
  | .ok after => o.conclude r after (after.check r.name r.type)
  | .error f => o.conclude r o.directory (.error f)

/-- One of those who wait comes back. -/
def settle (o : Office τ carrier) (place : Nat) : Office τ carrier :=
  match o.waiting[place]? with
  | none => o
  | some r => (o.leave place).enter r

/-- The request as the directory itself takes it. -/
def call (o : Office τ carrier) (r : Request τ carrier) : Office τ carrier :=
  let (result, after) := o.directory.getOrCreate r.name r.type r.handleBytes r.factory
  o.conclude r after result

/-- Somebody uses a pool, if there is such a pool. -/
def use (o : Office τ carrier) (name : String) (t : τ) (u : Use (carrier t)) : Office τ carrier :=
  match o.directory.pool? name t with
  | none => o
  | some p => { o with directory := o.directory.replace name t (u.after p) }

/-- Makes a move. -/
def step (o : Office τ carrier) : Move τ carrier → Office τ carrier
  | .call r => o.call r
  | .look r => o.look r
  | .settle place => o.settle place
  | .use name t u => o.use name t u

/-- Makes moves one after the other. -/
def perform (o : Office τ carrier) (moves : List (Move τ carrier)) : Office τ carrier :=
  moves.foldl step o

/-- Whose request the move goes on with. -/
def asking? (o : Office τ carrier) : Move τ carrier → Option (Request τ carrier)
  | .call r | .look r => some r
  | .settle place => o.waiting[place]?
  | .use _ _ _ => none

end Office

/-- What a request comes to when the pool of its name is at a place and was made for another
request, or for itself. -/
def Request.outcome [DecidableEq τ] (r maker : Request τ carrier) (place : Nat) :
    Except Failure Nat :=
  if maker.type = r.type then .ok place
  else .error (.error (.invalidInput (.handleType r.name)))

/-- The pool was made for the request: it has its name, its type and its factory. -/
def Made (capacity : Nat) (maker : Request τ carrier) (e : Entry τ carrier) : Prop :=
  ∃ p : Pool (carrier maker.type), e = ⟨maker.name, maker.type, p⟩
    ∧ p.name = maker.name ∧ p.capacity = capacity ∧ p.factory = maker.factory

/-- What the caller was told is settled by the maker of the pool, or there was no room for one. -/
def Told [DecidableEq τ] (capacity : Nat) (makers : List (Request τ carrier))
    (r : Request τ carrier) (a : Except Failure Nat) : Prop :=
  (∃ place maker, makers[place]? = some maker ∧ maker.name = r.name ∧ a = r.outcome maker place)
    ∨ (a = .error .unwound ∧ ¬capacity * r.handleBytes ≤ Room.most)

/-- What holds at an office after any moves. -/
structure OnePoolEach [DecidableEq τ] (capacity : Nat) (moves : List (Move τ carrier))
    (o : Office τ carrier) : Prop where
  /-- No name has two pools. -/
  once : o.directory.names.Nodup
  /-- Every pool has the directory's capacity, and the name, the type and the factory of the one
  request it was made for. -/
  made : List.Forall₂ (Made capacity) o.makers o.directory.entries
  /-- A pool was made for somebody who asked and who was given it. -/
  makers : ∀ (place : Nat) maker, o.makers[place]? = some maker → (maker, .ok place) ∈ o.answered
  /-- What a caller is told goes by the request that made the pool and by nothing else. -/
  told : ∀ r a, (r, a) ∈ o.answered → Told capacity o.makers r a
  /-- A caller that succeeds is given the pool of the name it asked for. -/
  given : ∀ r place, (r, .ok place) ∈ o.answered → ∃ p : Pool (carrier r.type),
    o.directory.entries[place]? = some ⟨r.name, r.type, p⟩ ∧ p.name = r.name
      ∧ p.capacity = capacity ∧ o.directory.pool? r.name r.type = some p
  /-- All who are given a pool of one name are given the same one. -/
  same : ∀ r r' place place', (r, .ok place) ∈ o.answered → (r', .ok place') ∈ o.answered →
    r.name = r'.name → place = place' ∧ r.type = r'.type
  /-- A pool stays, and whatever happens from now on, its maker settles all requests for the
  name. -/
  forever : ∀ (more : List (Move τ carrier)) place maker, o.makers[place]? = some maker →
    (o.perform more).makers[place]? = some maker
      ∧ ∃ answers, (o.perform more).answered = o.answered ++ answers
        ∧ ∀ r a, (r, a) ∈ answers → r.name = maker.name → a = r.outcome maker place
  /-- A request for a name that has a pool changes neither the directory nor anything in it, whether
  it succeeds or fails. -/
  unchanged : ∀ move r, o.asking? move = some r → r.name ∈ o.directory.names →
    (o.step move).directory = o.directory ∧ (o.step move).makers = o.makers
  /-- No request that fails changes anything. -/
  failed : ∀ move r f, (o.step move).answered = o.answered ++ [(r, .error f)] →
    (o.step move).directory = o.directory ∧ (o.step move).makers = o.makers
  /-- A request unwinds exactly if its name has no pool and there is no room for one. -/
  unwinds : ∀ r : Request τ carrier,
    (o.directory.getOrCreate r.name r.type r.handleBytes r.factory).1 = .error .unwound
      ↔ r.name ∉ o.directory.names ∧ ¬capacity * r.handleBytes ≤ Room.most
  /-- The names are those of the requests that were answered without unwinding. -/
  names : ∀ name, name ∈ o.directory.names
    ↔ ∃ r a, (r, a) ∈ o.answered ∧ r.name = name ∧ a ≠ .error .unwound
  /-- Where there is room for all that is asked for, and nobody waits, they are the names that were
  asked for. -/
  requested : (∀ r ∈ requests moves, capacity * r.handleBytes ≤ Room.most) → o.waiting = [] →
    ∀ name, name ∈ o.directory.names ↔ ∃ r ∈ requests moves, r.name = name
  /-- Everybody was answered once, or waits. -/
  everybody : (o.answered.map Prod.fst ++ o.waiting).Perm (requests moves)
  /-- Those who wait can all be answered, in any order. -/
  settles : ∀ (place : Nat) r, o.waiting[place]? = some r → ∃ a,
    (o.settle place).answered = o.answered ++ [(r, a)]
      ∧ (o.settle place).waiting = o.waiting.eraseIdx place

variable {d : Directory τ carrier} {o : Office τ carrier} {r maker : Request τ carrier}
  {e : Entry τ carrier} {makers : List (Request τ carrier)} {asked : List (Request τ carrier)}
  {moves : List (Move τ carrier)} {a : Except Failure Nat} {name : String} {capacity place : Nat}

/-! ## Names and places -/

theorem Made.name_eq (h : Made capacity maker e) : e.name = maker.name := by
  obtain ⟨p, rfl, _⟩ := h
  rfl

theorem Made.type_eq (h : Made capacity maker e) : e.type = maker.type := by
  obtain ⟨p, rfl, _⟩ := h
  rfl

namespace Directory

theorem find?_eq_none_iff : d.find? name = none ↔ name ∉ d.names := by
  simp [find?, names]

/-- A name is found at its place. -/
theorem getElem?_place (h : d.find? name = some e) : d.entries[d.place name]? = some e := by
  unfold place names
  unfold find? at h
  generalize d.entries = entries at h ⊢
  induction entries with
  | nil => exact absurd h (by simp)
  | cons first rest ih =>
      by_cases hname : first.name = name
      · rw [List.find?_cons_of_pos (by simpa using hname)] at h
        simpa [hname] using h
      · rw [List.find?_cons_of_neg (by simpa using hname)] at h
        have hne : (first.name == name) = false := by simpa using hname
        simpa [List.idxOf_cons, hne] using ih h

theorem place_added [DecidableEq τ] {t : τ} {factory : Nat → Except Error (carrier t)}
    (h : name ∉ d.names) : (d.added name t factory).place name = d.entries.length := by
  have hnames : (d.added name t factory).names = d.names ++ [name] := by
    simp [names, added]
  unfold place
  rw [hnames, List.idxOf_append, if_neg h]
  simp [names]

end Directory

/-- The makers have the names of the pools, in their order. -/
theorem names_of_made (h : List.Forall₂ (Made capacity) makers d.entries) :
    makers.map (·.name) = d.names := by
  have hsame : List.Forall₂ Eq (makers.map (·.name)) (d.entries.map (·.name)) := by
    rw [List.forall₂_map_left_iff, List.forall₂_map_right_iff]
    exact h.imp fun _ _ hm => hm.name_eq.symm
  rwa [List.forall₂_eq_eq_eq] at hsame

/-- What is at a place in the directory was made for the maker at the same place. -/
theorem made_of_getElem? (h : List.Forall₂ (Made capacity) makers d.entries)
    (hm : makers[place]? = some maker) :
    ∃ e, d.entries[place]? = some e ∧ Made capacity maker e := by
  obtain ⟨hlt, rfl⟩ := List.getElem?_eq_some_iff.mp hm
  have hlt' : place < d.entries.length := h.length_eq ▸ hlt
  exact ⟨d.entries[place], List.getElem?_eq_getElem hlt', h.get hlt hlt'⟩

theorem maker_of_getElem? (h : List.Forall₂ (Made capacity) makers d.entries)
    (he : d.entries[place]? = some e) :
    ∃ maker, makers[place]? = some maker ∧ Made capacity maker e := by
  obtain ⟨hlt, rfl⟩ := List.getElem?_eq_some_iff.mp he
  have hlt' : place < makers.length := h.length_eq ▸ hlt
  exact ⟨makers[place], List.getElem?_eq_getElem hlt', h.get hlt' hlt⟩

/-- A name has one maker. -/
theorem maker_unique (hmade : List.Forall₂ (Made capacity) makers d.entries)
    (honce : d.names.Nodup) {place' : Nat} {maker' : Request τ carrier}
    (h : makers[place]? = some maker) (h' : makers[place']? = some maker')
    (hname : maker.name = maker'.name) : place = place' ∧ maker = maker' := by
  rw [← names_of_made hmade] at honce
  have hat : (makers.map (·.name))[place]? = (makers.map (·.name))[place']? := by
    rw [List.getElem?_map, List.getElem?_map, h, h']
    exact congrArg some hname
  have hlt : place < (makers.map (·.name)).length := by
    rw [List.length_map]
    exact (List.getElem?_eq_some_iff.mp h).1
  obtain rfl := (List.getElem?_inj hlt honce).mp hat
  exact ⟨rfl, Option.some.inj (h.symm.trans h')⟩

/-- A name has one entry. -/
theorem entry_unique (honce : d.names.Nodup) {e' : Entry τ carrier} (h : e ∈ d.entries)
    (h' : e' ∈ d.entries) (hname : e.name = e'.name) : e = e' :=
  List.inj_on_of_nodup_map honce h h' hname

theorem Use.made {α : Type} (use : Use α) (p : Pool α) : (use.after p).name = p.name
    ∧ (use.after p).capacity = p.capacity ∧ (use.after p).factory = p.factory := by
  cases use with
  | checkout => exact ⟨name_checkout p, capacity_checkout p, factory_checkout p⟩
  | release h => exact ⟨name_release p h, capacity_release p h, factory_release p h⟩

/-- Using a pool changes nothing that it was made with. -/
theorem made_use [DecidableEq τ] {t : τ} {p : Pool (carrier t)} {u : Use (carrier t)}
    (h : List.Forall₂ (Made capacity) makers d.entries) (honce : d.names.Nodup)
    (hp : d.pool? name t = some p) :
    List.Forall₂ (Made capacity) makers (d.replace name t (u.after p)).entries := by
  unfold Directory.pool? at hp
  obtain ⟨own, hown, hp⟩ := Option.bind_eq_some_iff.mp hp
  rw [Directory.replace, List.forall₂_map_right_iff]
  rw [List.forall₂_iff_zip] at h ⊢
  refine ⟨h.1, fun {maker e} hmem => ?_⟩
  have hmade := h.2 hmem
  split
  · rename_i hsame
    obtain rfl : e = own := entry_unique honce (List.of_mem_zip hmem).2
      (List.mem_of_find?_eq_some hown) (hsame.1.trans (Directory.name_of_find? hown).symm)
    obtain ⟨old, rfl, hname, hcapacity, hfactory⟩ := hmade
    obtain ⟨_, rfl⟩ := hsame
    obtain rfl : old = p := by simpa [Entry.pool?] using hp
    obtain ⟨hn, hc, hf⟩ := u.made old
    exact ⟨u.after old, rfl, hn.trans hname, hc.trans hcapacity, hf.trans hfactory⟩
  · exact hmade

/-! ## Looking and coming back -/

variable [DecidableEq τ]

/-- The office after a request that left the directory as it is. -/
def Office.answer (o : Office τ carrier) (r : Request τ carrier) (a : Except Failure Nat) :
    Office τ carrier :=
  { o with answered := o.answered ++ [(r, a)] }

omit [DecidableEq τ] in
theorem conclude_same (o : Office τ carrier) (r : Request τ carrier) (result : Except Failure Unit) :
    o.conclude r o.directory result
      = o.answer r (result.map fun _ => o.directory.place r.name) := by
  simp [Office.conclude, Office.answer]

theorem enter_found (hf : o.directory.find? r.name = some e) : o.enter r
    = o.answer r ((o.directory.check r.name r.type).map fun _ => o.directory.place r.name) := by
  unfold Office.enter
  rw [Directory.insert_found hf]
  exact conclude_same o r _

/-- Whoever comes first has the pool made. -/
theorem enter_new (hf : o.directory.find? r.name = none)
    (room : o.directory.capacity * r.handleBytes ≤ Room.most) :
    o.enter r = { o.answer r (.ok o.directory.entries.length) with
      directory := o.directory.added r.name r.type r.factory
      makers := o.makers ++ [r] } := by
  unfold Office.enter
  rw [Directory.insert_new hf room]
  dsimp only
  rw [Directory.check_added hf, Office.conclude, Except.map,
    Directory.place_added (Directory.find?_eq_none_iff.mp hf), if_pos (by simp [Directory.added])]
  rfl

theorem enter_short (hf : o.directory.find? r.name = none)
    (room : ¬o.directory.capacity * r.handleBytes ≤ Room.most) :
    o.enter r = o.answer r (.error .unwound) := by
  unfold Office.enter
  rw [Directory.insert_short hf room]
  exact conclude_same o r _

/-- A caller that finds a pool is answered as if it had come to make one. -/
theorem look_found (hf : o.directory.find? r.name = some e) : o.look r = o.enter r := by
  rw [enter_found hf, ← conclude_same]
  unfold Office.look
  rw [hf]

theorem look_waits (hf : o.directory.find? r.name = none) :
    o.look r = { o with waiting := o.waiting ++ [r] } := by
  unfold Office.look
  rw [hf]

theorem settle_none (h : o.waiting[place]? = none) : o.settle place = o := by
  unfold Office.settle
  rw [h]

theorem settle_some (h : o.waiting[place]? = some r) :
    o.settle place = (o.leave place).enter r := by
  unfold Office.settle
  rw [h]

theorem call_eq_enter (o : Office τ carrier) (r : Request τ carrier) : o.call r = o.enter r := by
  unfold Office.call
  cases hf : o.directory.find? r.name with
  | some e =>
      rw [Directory.getOrCreate_found hf, enter_found hf]
      exact conclude_same o r _
  | none =>
      unfold Office.enter Directory.getOrCreate
      rw [hf]
      cases o.directory.insert r.name r.type r.handleBytes r.factory <;> rfl

/-- A request that nobody comes in between is both phases after each other. -/
theorem call_eq (o : Office τ carrier) (r : Request τ carrier) :
    o.call r = (o.look r).settle o.waiting.length := by
  rw [call_eq_enter]
  cases hf : o.directory.find? r.name with
  | some e =>
      rw [look_found hf, enter_found hf]
      exact (settle_none (List.getElem?_eq_none (Nat.le_refl _))).symm
  | none =>
      have hlast : (o.waiting ++ [r])[o.waiting.length]? = some r := by simp
      have hleft : ({ o with waiting := o.waiting ++ [r] } : Office τ carrier).leave
          o.waiting.length = o := by
        unfold Office.leave
        rw [List.eraseIdx_append_of_length_le (Nat.le_refl _)]
        simp
      rw [look_waits hf, settle_some hlast, hleft]

/-! ## What every move keeps -/

/-- Every pool has its maker, and every answer is the one that the maker of the name settles. -/
structure Office.Sound (capacity : Nat) (asked : List (Request τ carrier)) (o : Office τ carrier) :
    Prop where
  bound : o.directory.capacity = capacity
  made : List.Forall₂ (Made capacity) o.makers o.directory.entries
  once : o.directory.names.Nodup
  makers : ∀ (place : Nat) maker, o.makers[place]? = some maker → (maker, .ok place) ∈ o.answered
  told : ∀ r a, (r, a) ∈ o.answered → Told capacity o.makers r a
  everybody : (o.answered.map Prod.fst ++ o.waiting).Perm asked

theorem sound_open (capacity : Nat) :
    (Office.start capacity : Office τ carrier).Sound capacity [] where
  bound := rfl
  made := List.Forall₂.nil
  once := List.nodup_nil
  makers place maker h := absurd h (by simp [Office.start])
  told r a h := absurd h (by simp [Office.start])
  everybody := List.Perm.nil

omit [DecidableEq τ] in
/-- Who was the maker at a place stays the maker when another is added. -/
theorem maker_append (h : makers[place]? = some maker) (more : List (Request τ carrier)) :
    (makers ++ more)[place]? = some maker := by
  rw [List.getElem?_append_left (List.getElem?_eq_some_iff.mp h).1]
  exact h

theorem Told.append (h : Told capacity makers r a) (more : List (Request τ carrier)) :
    Told capacity (makers ++ more) r a := by
  rcases h with ⟨place, maker, hm, houtcome⟩ | hshort
  · exact Or.inl ⟨place, maker, maker_append hm more, houtcome⟩
  · exact Or.inr hshort

namespace Office.Sound

/-- A name that has a pool has a maker, and the maker settles what the check comes to. -/
theorem outcome (h : o.Sound capacity asked) (hf : o.directory.find? r.name = some e) :
    ∃ maker, o.makers[o.directory.place r.name]? = some maker ∧ maker.name = r.name
      ∧ ((o.directory.check r.name r.type).map fun _ => o.directory.place r.name)
        = r.outcome maker (o.directory.place r.name) := by
  obtain ⟨maker, hm, hmade⟩ := maker_of_getElem? h.made (Directory.getElem?_place hf)
  refine ⟨maker, hm, hmade.name_eq.symm.trans (Directory.name_of_find? hf), ?_⟩
  rw [Directory.check_found hf, hmade.type_eq, Request.outcome]
  split <;> rfl

theorem find?_eq_none_iff (h : o.Sound capacity asked) :
    o.directory.find? name = none ↔ ∀ maker ∈ o.makers, maker.name ≠ name := by
  rw [Directory.find?_eq_none_iff, ← names_of_made h.made]
  simp

omit [DecidableEq τ] in
theorem everybody_answered {answered : List (Request τ carrier × Except Failure Nat)}
    {waiting : List (Request τ carrier)} (h : (answered.map Prod.fst ++ waiting).Perm asked) :
    ((answered ++ [(r, a)]).map Prod.fst ++ waiting).Perm (asked ++ [r]) := by
  rw [List.map_append, List.append_assoc]
  refine List.Perm.trans ?_ (h.append_right [r])
  rw [List.append_assoc]
  exact List.perm_append_comm.append_left _

theorem told_answered (h : o.Sound capacity asked) (ht : Told capacity o.makers r a)
    (q : Request τ carrier) (b : Except Failure Nat) (hb : (q, b) ∈ o.answered ++ [(r, a)]) :
    Told capacity o.makers q b := by
  rcases List.mem_append.mp hb with hold | hnew
  · exact h.told q b hold
  · obtain ⟨rfl, rfl⟩ := Prod.mk.inj (List.mem_singleton.mp hnew)
    exact ht

/-- An answer that leaves the directory as it is. -/
theorem answer (h : o.Sound capacity asked) (ht : Told capacity o.makers r a) :
    (o.answer r a).Sound capacity (asked ++ [r]) where
  bound := h.bound
  made := h.made
  once := h.once
  makers place maker hm := List.mem_append_left _ (h.makers place maker hm)
  told := h.told_answered ht
  everybody := everybody_answered h.everybody

/-- The request makes the pool of a name that had none, and is its maker. -/
theorem make (h : o.Sound capacity asked) (hf : o.directory.find? r.name = none)
    (room : o.directory.capacity * r.handleBytes ≤ Room.most) :
    (o.enter r).Sound capacity (asked ++ [r]) := by
  have hlength : o.makers.length = o.directory.entries.length := h.made.length_eq
  have hself : (o.makers ++ [r])[o.directory.entries.length]? = some r := by
    rw [← hlength]
    simp
  rw [enter_new hf room]
  refine ⟨h.bound, ?_, ?_, fun place maker hm => ?_, fun q b hb => ?_,
    everybody_answered h.everybody⟩
  · refine List.rel_append h.made (List.Forall₂.cons ?_ List.Forall₂.nil)
    exact ⟨Pool.empty r.name o.directory.capacity r.factory, rfl, rfl, h.bound, rfl⟩
  · have hnames : (o.directory.added r.name r.type r.factory).names
        = o.directory.names ++ [r.name] := by
      simp [Directory.names, Directory.added]
    rw [hnames]
    exact List.nodup_append_comm.mp
      (List.nodup_cons.mpr ⟨Directory.find?_eq_none_iff.mp hf, h.once⟩)
  · -- the makers so far were answered before, and the new one is answered now
    by_cases hlt : place < o.makers.length
    · rw [List.getElem?_append_left hlt] at hm
      exact List.mem_append_left _ (h.makers place maker hm)
    · obtain ⟨hle, rfl⟩ := List.getElem?_eq_some_iff.mp hm
      obtain rfl : place = o.directory.entries.length := by
        rw [List.length_append, List.length_singleton] at hle
        omega
      exact List.mem_append_right _ (by simp [← hlength])
  · rcases List.mem_append.mp hb with hold | hnew
    · exact (h.told q b hold).append _
    · obtain ⟨rfl, rfl⟩ := Prod.mk.inj (List.mem_singleton.mp hnew)
      exact Or.inl ⟨_, q, hself, rfl, by simp [Request.outcome]⟩

theorem enter (h : o.Sound capacity asked) (r : Request τ carrier) :
    (o.enter r).Sound capacity (asked ++ [r]) := by
  cases hf : o.directory.find? r.name with
  | some e =>
      obtain ⟨maker, hm, hname, houtcome⟩ := h.outcome hf
      rw [enter_found hf]
      exact h.answer (Or.inl ⟨_, maker, hm, hname, houtcome⟩)
  | none =>
      by_cases room : o.directory.capacity * r.handleBytes ≤ Room.most
      · exact h.make hf room
      · rw [enter_short hf room]
        exact h.answer (Or.inr ⟨rfl, h.bound ▸ room⟩)

theorem look (h : o.Sound capacity asked) (r : Request τ carrier) :
    (o.look r).Sound capacity (asked ++ [r]) := by
  cases hf : o.directory.find? r.name with
  | some e =>
      rw [look_found hf]
      exact h.enter r
  | none =>
      rw [look_waits hf]
      refine ⟨h.bound, h.made, h.once, h.makers, h.told, ?_⟩
      show (o.answered.map Prod.fst ++ (o.waiting ++ [r])).Perm (asked ++ [r])
      rw [← List.append_assoc]
      exact h.everybody.append_right [r]

/-- Without one of those who wait, the office is sound for the others. -/
theorem leave (h : o.Sound capacity asked) (place : Nat) : (o.leave place).Sound capacity
    (o.answered.map Prod.fst ++ o.waiting.eraseIdx place) :=
  ⟨h.bound, h.made, h.once, h.makers, h.told, List.Perm.refl _⟩

/-- Coming back makes what is missing and answers the caller. -/
theorem settle (h : o.Sound capacity asked) (place : Nat) :
    (o.settle place).Sound capacity asked := by
  cases hp : o.waiting[place]? with
  | none =>
      rw [settle_none hp]
      exact h
  | some r =>
      have hperm : (r :: o.waiting.eraseIdx place).Perm o.waiting := by
        obtain ⟨hlt, rfl⟩ := List.getElem?_eq_some_iff.mp hp
        exact List.getElem_cons_eraseIdx_perm hlt
      have hall : (o.answered.map Prod.fst ++ o.waiting.eraseIdx place ++ [r]).Perm asked := by
        rw [List.append_assoc]
        exact ((List.perm_append_singleton r _).trans hperm).append_left _ |>.trans h.everybody
      have hback := (h.leave place).enter r
      rw [settle_some hp]
      exact ⟨hback.bound, hback.made, hback.once, hback.makers, hback.told,
        hback.everybody.trans hall⟩

theorem use (h : o.Sound capacity asked) (name : String) (t : τ) (u : Use (carrier t)) :
    (o.use name t u).Sound capacity asked := by
  unfold Office.use
  cases hp : o.directory.pool? name t with
  | none => exact h
  | some p =>
      refine ⟨h.bound, made_use h.made h.once hp, ?_, h.makers, h.told, h.everybody⟩
      rw [Directory.names_replace]
      exact h.once

/-- Whatever happens at the office, it stays in order. -/
theorem step (h : o.Sound capacity asked) (move : Move τ carrier) :
    (o.step move).Sound capacity (asked ++ move.request?.toList) := by
  cases move with
  | call r =>
      -- a whole call is its two phases with nobody in between
      show (o.call r).Sound _ _
      rw [call_eq]
      exact (h.look r).settle _
  | look r => exact h.look r
  | settle place =>
      have hsettled := h.settle place
      rwa [← List.append_nil asked] at hsettled
  | use name t u =>
      have hused := h.use name t u
      rwa [← List.append_nil asked] at hused

theorem perform (h : o.Sound capacity asked) (moves : List (Move τ carrier)) :
    (o.perform moves).Sound capacity (asked ++ requests moves) := by
  induction moves generalizing o asked with
  | nil =>
      rw [requests, List.filterMap_nil, List.append_nil]
      exact h
  | cons move rest ih =>
      have hall := ih (h.step move)
      have hrequests : requests (move :: rest) = move.request?.toList ++ requests rest := by
        cases move <;> rfl
      rw [hrequests, ← List.append_assoc]
      exact hall

end Office.Sound

/-! ## What a name is settled by -/

/-- What happened between two moments: answers and makers were added, and the requests for names
that had a maker were settled by it. -/
structure Office.Grows (o o' : Office τ carrier) : Prop where
  makers : ∃ more, o'.makers = o.makers ++ more
  answers : ∃ answers, o'.answered = o.answered ++ answers
    ∧ ∀ (place : Nat) maker, o.makers[place]? = some maker →
      ∀ r a, (r, a) ∈ answers → r.name = maker.name → a = r.outcome maker place

namespace Office.Grows

theorem of_same (hm : o'.makers = o.makers) (ha : o'.answered = o.answered) : o.Grows o' :=
  ⟨⟨[], by rw [hm, List.append_nil]⟩, [], by rw [ha, List.append_nil], fun _ _ _ _ _ h =>
    absurd h (by simp)⟩

theorem stays (h : o.Grows o') (hm : o.makers[place]? = some maker) :
    o'.makers[place]? = some maker := by
  obtain ⟨more, hmore⟩ := h.makers
  rw [hmore]
  exact maker_append hm more

theorem trans (h : o.Grows o') (h' : o'.Grows o'') : o.Grows o'' := by
  obtain ⟨more, hmore⟩ := h.makers
  obtain ⟨more', hmore'⟩ := h'.makers
  obtain ⟨answers, hanswers, hsettled⟩ := h.answers
  obtain ⟨answers', hanswers', hsettled'⟩ := h'.answers
  refine ⟨⟨more ++ more', ?_⟩, answers ++ answers', ?_, fun place maker hm r a hr hname => ?_⟩
  · rw [hmore', hmore, List.append_assoc]
  · rw [hanswers', hanswers, List.append_assoc]
  · rcases List.mem_append.mp hr with hr | hr
    · exact hsettled place maker hm r a hr hname
    · exact hsettled' place maker (h.stays hm) r a hr hname

end Office.Grows

namespace Office.Sound

/-- One answer more. -/
theorem enter_grows (h : o.Sound capacity asked) (r : Request τ carrier) :
    o.Grows (o.enter r) := by
  cases hf : o.directory.find? r.name with
  | some e =>
      obtain ⟨own, hown, hname, houtcome⟩ := h.outcome hf
      rw [enter_found hf]
      refine ⟨⟨[], (List.append_nil _).symm⟩, _, rfl, fun place maker hm q b hq hq' => ?_⟩
      obtain ⟨rfl, rfl⟩ := Prod.mk.inj (List.mem_singleton.mp hq)
      obtain ⟨rfl, rfl⟩ := maker_unique h.made h.once hm hown (hq'.symm.trans hname.symm)
      exact houtcome
  | none =>
      -- the name has no maker, so there is nothing that would settle it
      have hfree : ∀ a, o.Grows { o.answer r a with makers := o.makers ++ [] } := fun a => by
        refine ⟨⟨[], rfl⟩, _, rfl, fun place maker hm q b hq hq' => ?_⟩
        obtain ⟨rfl, rfl⟩ := Prod.mk.inj (List.mem_singleton.mp hq)
        exact absurd hq'.symm (h.find?_eq_none_iff.mp hf maker (List.mem_of_getElem? hm))
      by_cases room : o.directory.capacity * r.handleBytes ≤ Room.most
      · rw [enter_new hf room]
        exact ⟨⟨[r], rfl⟩, (hfree _).answers⟩
      · rw [enter_short hf room]
        exact ⟨⟨[], (List.append_nil _).symm⟩, (hfree _).answers⟩

theorem look_grows (h : o.Sound capacity asked) (r : Request τ carrier) : o.Grows (o.look r) := by
  cases hf : o.directory.find? r.name with
  | some e =>
      rw [look_found hf]
      exact h.enter_grows r
  | none =>
      rw [look_waits hf]
      exact .of_same rfl rfl

theorem settle_grows (h : o.Sound capacity asked) (place : Nat) : o.Grows (o.settle place) := by
  cases hp : o.waiting[place]? with
  | none =>
      rw [settle_none hp]
      exact .of_same rfl rfl
  | some r =>
      rw [settle_some hp]
      have hgrows := (h.leave place).enter_grows r
      exact ⟨hgrows.makers, hgrows.answers⟩

theorem step_grows (h : o.Sound capacity asked) (move : Move τ carrier) :
    o.Grows (o.step move) := by
  cases move with
  | call r =>
      show o.Grows (o.call r)
      rw [call_eq]
      exact (h.look_grows r).trans ((h.look r).settle_grows _)
  | look r => exact h.look_grows r
  | settle place => exact h.settle_grows place
  | use name t u =>
      show o.Grows (o.use name t u)
      unfold Office.use
      cases o.directory.pool? name t with
      | none => exact .of_same rfl rfl
      | some p => exact .of_same rfl rfl

/-- Whatever happens, what has a maker is settled. -/
theorem perform_grows (h : o.Sound capacity asked) (moves : List (Move τ carrier)) :
    o.Grows (o.perform moves) := by
  induction moves generalizing o asked with
  | nil => exact .of_same rfl rfl
  | cons move rest ih => exact (h.step_grows move).trans (ih (h.step move))

end Office.Sound

/-! ## What the callers see -/

theorem outcome_ne_unwound (r maker : Request τ carrier) (place : Nat) :
    r.outcome maker place ≠ .error .unwound := by
  unfold Request.outcome
  split <;> simp

theorem outcome_eq_ok {place' : Nat} (h : r.outcome maker place' = .ok place) :
    place' = place ∧ maker.type = r.type := by
  unfold Request.outcome at h
  split at h
  · rename_i htype
    exact ⟨Except.ok.inj h, htype⟩
  · exact absurd h (by simp)

/-- A request that comes in leaves the directory as it is, or makes a pool and succeeds. -/
theorem enter_cases (o : Office τ carrier) (r : Request τ carrier) :
    (∃ a, o.enter r = o.answer r a)
      ∨ (o.directory.find? r.name = none
        ∧ o.enter r = { o.answer r (.ok o.directory.entries.length) with
          directory := o.directory.added r.name r.type r.factory
          makers := o.makers ++ [r] }) := by
  cases hf : o.directory.find? r.name with
  | some e => exact Or.inl ⟨_, enter_found hf⟩
  | none =>
      by_cases room : o.directory.capacity * r.handleBytes ≤ Room.most
      · exact Or.inr ⟨rfl, enter_new hf room⟩
      · exact Or.inl ⟨_, enter_short hf room⟩

/-- What a move does for the one whose request it goes on with: the caller comes in, or waits. -/
theorem step_of_asking {move : Move τ carrier} (h : o.asking? move = some r) :
    (∃ before : Office τ carrier, o.step move = before.enter r
        ∧ before.directory = o.directory ∧ before.makers = o.makers
        ∧ before.answered = o.answered)
      ∨ (o.directory.find? r.name = none
        ∧ o.step move = { o with waiting := o.waiting ++ [r] }) := by
  cases move with
  | call q =>
      obtain rfl := Option.some.inj h
      exact Or.inl ⟨o, call_eq_enter o _, rfl, rfl, rfl⟩
  | look q =>
      obtain rfl := Option.some.inj h
      cases hf : o.directory.find? q.name with
      | some e => exact Or.inl ⟨o, look_found hf, rfl, rfl, rfl⟩
      | none => exact Or.inr ⟨rfl, look_waits hf⟩
  | settle place => exact Or.inl ⟨o.leave place, settle_some h, rfl, rfl, rfl⟩
  | use name t u => exact absurd h (by simp [Office.asking?])

/-- A move that goes on with nobody's request tells nobody anything. -/
theorem answered_of_not_asking {move : Move τ carrier} (h : o.asking? move = none) :
    (o.step move).answered = o.answered := by
  cases move with
  | call q => exact absurd h (by simp [Office.asking?])
  | look q => exact absurd h (by simp [Office.asking?])
  | settle place =>
      show (o.settle place).answered = o.answered
      rw [settle_none h]
  | use name t u =>
      show (o.use name t u).answered = o.answered
      unfold Office.use
      cases o.directory.pool? name t <;> rfl

namespace Office.Sound

theorem mem_names_iff (h : o.Sound capacity asked) :
    name ∈ o.directory.names ↔ ∃ (place : Nat) (maker : Request τ carrier),
      o.makers[place]? = some maker ∧ maker.name = name := by
  rw [← names_of_made h.made, List.mem_map]
  constructor
  · rintro ⟨maker, hm, hname⟩
    obtain ⟨place, hplace⟩ := List.getElem?_of_mem hm
    exact ⟨place, maker, hplace, hname⟩
  · rintro ⟨place, maker, hm, hname⟩
    exact ⟨maker, List.mem_of_getElem? hm, hname⟩

/-- A pool is found by the name and the type that it was made with. -/
theorem given (h : o.Sound capacity asked) (hr : (r, .ok place) ∈ o.answered) :
    ∃ p : Pool (carrier r.type), o.directory.entries[place]? = some ⟨r.name, r.type, p⟩
      ∧ p.name = r.name ∧ p.capacity = capacity
      ∧ o.directory.pool? r.name r.type = some p := by
  rcases h.told r _ hr with ⟨place', maker, hm, hname, houtcome⟩ | ⟨hunwound, _⟩
  · obtain ⟨rfl, htype⟩ := outcome_eq_ok houtcome.symm
    obtain ⟨e, he, p, rfl, hpname, hpcapacity, _⟩ := made_of_getElem? h.made hm
    obtain ⟨caller, name, type, bytes, factory⟩ := maker
    obtain rfl : name = r.name := hname
    obtain rfl : type = r.type := htype
    refine ⟨p, he, hpname, hpcapacity, ?_⟩
    have hmem := List.mem_of_getElem? he
    have hfound : (o.directory.find? r.name).isSome := by
      rw [Option.isSome_iff_ne_none, Ne, Directory.find?_eq_none_iff, not_not]
      exact List.mem_map.mpr ⟨_, hmem, rfl⟩
    obtain ⟨found, hfound⟩ := Option.isSome_iff_exists.mp hfound
    obtain rfl := entry_unique h.once (List.mem_of_find?_eq_some hfound) hmem
      (Directory.name_of_find? hfound)
    simp [Directory.pool?, hfound, Entry.pool?]
  · exact absurd hunwound (by simp)

theorem same (h : o.Sound capacity asked) {r' : Request τ carrier} {place' : Nat}
    (hr : (r, .ok place) ∈ o.answered) (hr' : (r', .ok place') ∈ o.answered)
    (hname : r.name = r'.name) : place = place' ∧ r.type = r'.type := by
  rcases h.told r _ hr with ⟨_, maker, hm, hmaker, houtcome⟩ | ⟨hunwound, _⟩
  · rcases h.told r' _ hr' with ⟨_, maker', hm', hmaker', houtcome'⟩ | ⟨hunwound, _⟩
    · obtain ⟨rfl, htype⟩ := outcome_eq_ok houtcome.symm
      obtain ⟨rfl, htype'⟩ := outcome_eq_ok houtcome'.symm
      obtain ⟨rfl, rfl⟩ := maker_unique h.made h.once hm hm'
        (hmaker.trans (hname.trans hmaker'.symm))
      exact ⟨rfl, htype.symm.trans htype'⟩
    · exact absurd hunwound (by simp)
  · exact absurd hunwound (by simp)

theorem unwinds_iff (h : o.Sound capacity asked) (r : Request τ carrier) :
    (o.directory.getOrCreate r.name r.type r.handleBytes r.factory).1 = .error .unwound
      ↔ r.name ∉ o.directory.names ∧ ¬capacity * r.handleBytes ≤ Room.most := by
  rw [← h.bound, ← Directory.find?_eq_none_iff]
  cases hf : o.directory.find? r.name with
  | some e =>
      rw [Directory.getOrCreate_found hf, Directory.check_found hf]
      split <;> simp
  | none =>
      by_cases room : o.directory.capacity * r.handleBytes ≤ Room.most
      · rw [Directory.getOrCreate_new hf room]
        simp [room]
      · rw [Directory.getOrCreate_short hf room]
        simp [room]

theorem names_iff (h : o.Sound capacity asked) (name : String) : name ∈ o.directory.names
    ↔ ∃ r a, (r, a) ∈ o.answered ∧ r.name = name ∧ a ≠ .error .unwound := by
  rw [h.mem_names_iff]
  constructor
  · rintro ⟨place, maker, hm, hname⟩
    exact ⟨maker, _, h.makers place maker hm, hname, by simp⟩
  · rintro ⟨r, a, hr, hname, hne⟩
    rcases h.told r a hr with ⟨place, maker, hm, hmaker, _⟩ | ⟨hunwound, _⟩
    · exact ⟨place, maker, hm, hmaker.trans hname⟩
    · exact absurd hunwound hne

/-- Where there is room, all that was asked for is there. -/
theorem requested_iff (h : o.Sound capacity asked)
    (room : ∀ r ∈ asked, capacity * r.handleBytes ≤ Room.most) (hwaiting : o.waiting = [])
    (name : String) : name ∈ o.directory.names ↔ ∃ r ∈ asked, r.name = name := by
  have hall := h.everybody
  rw [hwaiting, List.append_nil] at hall
  rw [h.names_iff]
  constructor
  · rintro ⟨r, a, hr, hname, _⟩
    exact ⟨r, hall.mem_iff.mp (List.mem_map_of_mem hr), hname⟩
  · rintro ⟨r, hr, hname⟩
    obtain ⟨⟨_, a⟩, hmem, rfl⟩ := List.mem_map.mp (hall.mem_iff.mpr hr)
    refine ⟨_, a, hmem, hname, ?_⟩
    rcases h.told _ a hmem with ⟨place, maker, _, _, rfl⟩ | ⟨_, hshort⟩
    · exact outcome_ne_unwound _ maker place
    · exact absurd (room _ hr) hshort

theorem onePoolEach (h : o.Sound capacity (requests moves)) : OnePoolEach capacity moves o where
  once := h.once
  made := h.made
  makers := h.makers
  told := h.told
  given _ _ hr := h.given hr
  same _ _ _ _ hr hr' hname := h.same hr hr' hname
  forever more place maker hm := by
    have hgrows := h.perform_grows more
    obtain ⟨answers, hanswers, hsettled⟩ := hgrows.answers
    exact ⟨hgrows.stays hm, answers, hanswers, hsettled place maker hm⟩
  unchanged move r hasking hname := by
    -- whoever asks for a name that is there gets an answer and changes nothing
    have hfound : o.directory.find? r.name ≠ none :=
      fun hnone => Directory.find?_eq_none_iff.mp hnone hname
    rcases step_of_asking hasking with ⟨before, hstep, hdirectory, hmakers, _⟩ | ⟨hnone, _⟩
    · rw [hstep, ← hdirectory, ← hmakers]
      rcases enter_cases before r with ⟨a, hsame⟩ | ⟨hnone, _⟩
      · rw [hsame]
        exact ⟨rfl, rfl⟩
      · exact absurd (hdirectory ▸ hnone) hfound
    · exact absurd hnone hfound
  failed move r f hlast := by
    cases hasking : o.asking? move with
    | none =>
        rw [answered_of_not_asking hasking] at hlast
        exact absurd hlast (by simp)
    | some q =>
        -- a request that made a pool has a pool for an answer, so one that failed made none
        rcases step_of_asking hasking with ⟨before, hstep, hdirectory, hmakers, hsame⟩ | ⟨_, hstep⟩
        · rw [hstep, ← hdirectory, ← hmakers]
          rw [hstep, ← hsame] at hlast
          rcases enter_cases before q with ⟨a, hanswer⟩ | ⟨_, hmade⟩
          · rw [hanswer]
            exact ⟨rfl, rfl⟩
          · rw [hmade] at hlast
            exact absurd hlast (by simp [Office.answer])
        · rw [hstep]
          exact ⟨rfl, rfl⟩
  unwinds := h.unwinds_iff
  names := h.names_iff
  requested := h.requested_iff
  everybody := h.everybody
  settles place r hp := by
    rw [settle_some hp]
    rcases enter_cases (o.leave place) r with ⟨a, hanswer⟩ | ⟨_, hmade⟩
    · rw [hanswer]
      exact ⟨a, rfl, rfl⟩
    · rw [hmade]
      exact ⟨_, rfl, rfl⟩

end Office.Sound

/-- **Every name has one pool, and its first request settles what the others come to.**

Let any callers ask a directory for pools, of whatever names, handle types and factories, in any
order, also with others between looking and making, and let them use the pools. -/
theorem one_pool_each (capacity : Nat) (moves : List (Move τ carrier)) :
    OnePoolEach capacity moves ((Office.start capacity).perform moves) := by
  have hend := (sound_open capacity : (Office.start capacity : Office τ carrier).Sound _ _).perform
    moves
  rw [List.nil_append] at hend
  exact hend.onePoolEach

/-- Two callers look before either comes back; the one that comes back first makes the pool, and
the other is refused for its type. -/
example :
    let number : Request Provider.HandleType Provider.HandleType.carrier :=
      ⟨0, "A", .number, 4, fun _ => .ok (7 : Nat)⟩
    let text : Request Provider.HandleType Provider.HandleType.carrier :=
      ⟨1, "A", .text, 24, fun _ => .ok "B"⟩
    let o := (Office.start 2).perform [.look number, .look text, .settle 1, .settle 0]
    o.directory.names = ["A"] ∧ o.answered.map Prod.snd
      = [.ok 0, .error (.error (.invalidInput (.handleType "A")))] := ⟨rfl, rfl⟩

/-- With the largest capacity a name that was asked for has no pool: there is no room for one. -/
theorem largest_directory_unwinds :
    let number : Request Provider.HandleType Provider.HandleType.carrier :=
      ⟨0, "A", .number, Provider.HandleType.number.size, fun _ => .ok (1 : Nat)⟩
    let o := (Office.start 18446744073709551615).perform [.call number]
    o.answered.map Prod.snd = [.error .unwound] ∧ o.directory.names = []
      ∧ (requests [Move.call number]).map (·.name) = ["A"] := ⟨rfl, rfl, rfl⟩

end PooledCrypto.Pool
