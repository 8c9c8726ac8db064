import Mathlib.Data.List.Nodup
import Mathlib.Data.List.Perm.Basic
import PooledCrypto.Proofs.Registration
import PooledCrypto.Provider.Catalogue

/-!
# Every instance is built once

Many callers ask a catalogue at the same time. A lookup looks at what is kept, and if nothing is kept
yet it comes back to build; in between any others may do the same. A `Desk` is a catalogue with
those who are in between, and `Move` lets them act in any order. A call that nobody comes in between
is one move too, which is the catalogue's own lookup.

The invariant is `Desk.Sound`. Only building changes the catalogue, and it changes nothing for a name
that has an instance. So what a caller was told stays what every later caller of the name is told,
and it depends on nothing but the offers the table was filled with (`lookups_build_once`).
-/

namespace PooledCrypto.Provider

variable {φ : Type} {ι : φ → Type}

/-! ## Callers and what they are told -/

/-- The ways to ask for an algorithm. -/
inductive Wish
  /-- An error if there is none. -/
  | get
  /-- Nothing if there is none. -/
  | getOrNull
  /-- Only whether there is one. -/
  | supports

/-- What a caller asks for. -/
structure Ask (φ : Type) where
  caller : Nat
  wish : Wish
  family : φ
  name : String

/-- What a caller is told. -/
inductive Reply (φ : Type) (ι : φ → Type)
  | found (family : φ) (it : Found (ι family))
  | nothing
  | failed (e : Error)
  | flag (b : Bool)

/-- What a lookup comes to for the caller. -/
def Ask.tell (a : Ask φ) (provider : String) : Option (Found (ι a.family)) → Reply φ ι
  | some it => .found a.family it
  | none =>
    match a.wish with
    | .get => .failed (.algorithmNotFound a.name provider)
    | _ => .nothing

/-- What the caller is told, by the first algorithm that was offered under the name. -/
def Ask.Proper (a : Ask φ) (provider : String) (first : Option (TableEntry φ ι))
    (r : Reply φ ι) : Prop :=
  match a.wish with
  | .supports => r = .flag first.isSome
  | _ =>
    match first with
    | none => r = a.tell provider none
    | some entry =>
      (entry.family = a.family ∧ ∃ serial, r = .found entry.family ⟨serial, entry.build serial⟩)
        ∨ (entry.family ≠ a.family ∧ r = a.tell provider none)

/-- The replies are the same, but for how many builders had run before that of the instance. -/
inductive Reply.Alike : Reply φ ι → Reply φ ι → Prop
  | same (r : Reply φ ι) : Alike r r
  | built (family : φ) (build : Nat → ι family) (m n : Nat) :
      Alike (.found family ⟨m, build m⟩) (.found family ⟨n, build n⟩)

/-! ## A catalogue in use -/

/-- The builder that building the instance of a name runs, if it runs one. -/
def Catalogue.runs? (c : Catalogue φ ι) (name : String) : Option (TableEntry φ ι) :=
  match c.kept? name with
  | some _ => none
  | none => c.table.find? name

/-- A catalogue and those who ask at it. -/
structure Desk (φ : Type) (ι : φ → Type) where
  catalogue : Catalogue φ ι
  /-- Those who found nothing kept and have not come back yet. -/
  waiting : List (Ask φ)
  answered : List (Ask φ × Reply φ ι)
  /-- The names whose builders ran, in order. -/
  ran : List String

/-- What can happen at a desk. -/
inductive Move (φ : Type)
  /-- A call from beginning to end. -/
  | call (a : Ask φ)
  /-- A caller looks at what is kept. -/
  | look (a : Ask φ)
  /-- One of those who wait comes back. -/
  | settle (place : Nat)

namespace Desk

/-- A desk with a table that was filled by offers. -/
def start (provider : String) (offers : List (TableEntry φ ι)) : Desk φ ι :=
  ⟨.ofTable provider (.ofOffers offers), [], [], []⟩

/-- Gives a reply without a change to the catalogue. -/
def answer (d : Desk φ ι) (a : Ask φ) (r : Reply φ ι) : Desk φ ι :=
  { d with answered := d.answered ++ [(a, r)] }

/-- Gives a reply with the catalogue as it is after building, and notes the builder that ran. -/
def conclude (d : Desk φ ι) (a : Ask φ) (after : Catalogue φ ι) (r : Reply φ ι) : Desk φ ι :=
  { d with
    catalogue := after
    answered := d.answered ++ [(a, r)]
    ran := d.ran ++ (d.catalogue.runs? a.name).toList.map fun _ => a.name }

variable [DecidableEq φ]

/-- The caller is told what is kept, or that there is no such algorithm. Else it has to come back. -/
def look (d : Desk φ ι) (a : Ask φ) : Desk φ ι :=
  match a.wish with
  | .supports => d.answer a (.flag (d.catalogue.supports a.name))
  | _ =>
    match d.catalogue.kept? a.name with
    | some i => d.answer a (a.tell d.catalogue.provider (i.found? a.family))
    | none =>
      if d.catalogue.table.contains a.name then { d with waiting := d.waiting ++ [a] }
      else d.answer a (a.tell d.catalogue.provider none)

/-- The caller builds what is still missing and is told what is kept then. -/
def settle (d : Desk φ ι) (place : Nat) : Desk φ ι :=
  match d.waiting[place]? with
  | none => d
  | some a =>
    let after := d.catalogue.build a.name
    let found := (after.kept? a.name).bind fun i => i.found? a.family
    { d with waiting := d.waiting.eraseIdx place }.conclude a after
      (a.tell d.catalogue.provider found)

/-- The call of the catalogue itself. -/
def call (d : Desk φ ι) (a : Ask φ) : Desk φ ι :=
  match a.wish with
  | .supports => d.answer a (.flag (d.catalogue.supports a.name))
  | .getOrNull =>
    let (found, after) := d.catalogue.lookup? a.family a.name
    d.conclude a after (a.tell d.catalogue.provider found)
  | .get =>
    match d.catalogue.lookup a.family a.name with
    | (.ok it, after) => d.conclude a after (.found a.family it)
    | (.error e, after) => d.conclude a after (.failed e)

/-- Makes a move. -/
def step (d : Desk φ ι) : Move φ → Desk φ ι
  | .call a => d.call a
  | .look a => d.look a
  | .settle place => d.settle place

/-- Makes moves one after the other. -/
def perform (d : Desk φ ι) (moves : List (Move φ)) : Desk φ ι := moves.foldl step d

end Desk

/-- Who asks by the move. -/
def Move.ask? : Move φ → Option (Ask φ)
  | .call a | .look a => some a
  | .settle _ => none

/-- All who asked by the moves. -/
def asks (moves : List (Move φ)) : List (Ask φ) := moves.filterMap Move.ask?

/-- What holds at a desk after any moves. -/
structure BuildsOnce [DecidableEq φ] (provider : String) (offers : List (TableEntry φ ι))
    (moves : List (Move φ)) (d : Desk φ ι) : Prop where
  /-- The table is the one that the offers made. -/
  table : d.catalogue.table = .ofOffers offers
  /-- No builder ran twice. -/
  once : d.ran.Nodup
  /-- A builder that ran was registered, and somebody had looked its name up. -/
  wanted : ∀ name ∈ d.ran, (firstOf offers name).isSome
    ∧ ∃ a ∈ asks moves, a.wish ≠ .supports ∧ a.name = name
  /-- Nothing that was built is lost. -/
  kept : d.catalogue.built.map (·.name) = d.ran
  /-- Who only asks whether there is an algorithm, lets no builder run. -/
  supports : ∀ a : Ask φ, a.wish = .supports → ∀ move, move = .call a ∨ move = .look a →
    (d.step move).catalogue = d.catalogue ∧ (d.step move).ran = d.ran
  /-- What a caller was told is told by the first offer under the name alone. -/
  proper : ∀ a r, (a, r) ∈ d.answered → a.Proper provider (firstOf offers a.name) r
  /-- All who found a name found one and the same instance. -/
  same : ∀ a a' f f' it it', (a, .found f it) ∈ d.answered → (a', .found f' it') ∈ d.answered →
    a.name = a'.name → (Reply.found f it : Reply φ ι) = .found f' it'
  /-- Whoever else asks, before or after and for whatever family, the caller is told the same. -/
  independent : ∀ (others : List (Move φ)) (a : Ask φ) (r r' : Reply φ ι), (a, r) ∈ d.answered →
    (a, r') ∈ ((Desk.start provider offers).perform others).answered → r.Alike r'
  /-- Everybody was answered once, or waits. -/
  everybody : (d.answered.map Prod.fst ++ d.waiting).Perm (asks moves)
  /-- Those who wait can all be answered, in any order. -/
  settles : ∀ place a, d.waiting[place]? = some a → ∃ r,
    (d.settle place).answered = d.answered ++ [(a, r)]
      ∧ (d.settle place).waiting = d.waiting.eraseIdx place

variable {c : Catalogue φ ι} {i : Instance φ ι} {name other provider : String} {a : Ask φ}

/-! ## Replies -/

theorem tell_none_ne (a : Ask φ) (provider : String) (f : φ) (it : Found (ι f)) :
    a.tell provider none ≠ .found f it := by
  unfold Ask.tell
  cases a.wish <;> simp

/-- Two proper replies to one caller are alike. -/
theorem Ask.Proper.alike {first : Option (TableEntry φ ι)} {r r' : Reply φ ι}
    (h : a.Proper provider first r) (h' : a.Proper provider first r') : r.Alike r' := by
  unfold Ask.Proper at h h'
  cases hw : a.wish with
  | supports =>
      rw [hw] at h h'
      dsimp only at h h'
      rw [h, h']
      exact .same _
  | _ =>
      rw [hw] at h h'
      cases first with
      | none =>
          dsimp only at h h'
          rw [h, h']
          exact .same _
      | some entry =>
          -- a builder of the right family gives an instance in both; only their places may differ
          rcases h with ⟨hf, m, rfl⟩ | ⟨hf, rfl⟩
          · rcases h' with ⟨_, n, rfl⟩ | ⟨hf', _⟩
            · exact .built entry.family entry.build m n
            · exact absurd hf hf'
          · rcases h' with ⟨hf', _⟩ | ⟨_, rfl⟩
            · exact absurd hf' hf
            · exact .same _

/-! ## Building -/

theorem build_of_kept (h : c.kept? name = some i) : c.build name = c := by
  rw [Catalogue.build, h]

theorem build_of_none (h : c.table.find? name = none) : c.build name = c := by
  unfold Catalogue.build
  cases c.kept? name with
  | some i => rfl
  | none => rw [h]

theorem build_of_runs {entry : TableEntry φ ι} (hk : c.kept? name = none)
    (ht : c.table.find? name = some entry) :
    c.build name = { c with built := c.built
      ++ [⟨name, entry.family, c.built.length + 1, entry.build (c.built.length + 1)⟩] } := by
  rw [Catalogue.build, hk, ht]

/-- Building runs the one builder that `runs?` names, or leaves everything as it is. -/
theorem build_cases (c : Catalogue φ ι) (name : String) :
    (c.runs? name = none ∧ c.build name = c)
      ∨ ∃ entry, c.kept? name = none ∧ c.table.find? name = some entry
          ∧ c.runs? name = some entry ∧ c.build name = { c with built := c.built
            ++ [⟨name, entry.family, c.built.length + 1, entry.build (c.built.length + 1)⟩] } := by
  cases hk : c.kept? name with
  | some i =>
      left
      refine ⟨?_, build_of_kept hk⟩
      rw [Catalogue.runs?, hk]
  | none =>
      cases ht : c.table.find? name with
      | none =>
          left
          refine ⟨?_, build_of_none ht⟩
          rw [Catalogue.runs?, hk]
          exact ht
      | some entry =>
          right
          refine ⟨entry, rfl, rfl, ?_, build_of_runs hk ht⟩
          rw [Catalogue.runs?, hk]
          exact ht

theorem table_build (c : Catalogue φ ι) (name : String) : (c.build name).table = c.table := by
  rcases build_cases c name with ⟨_, hsame⟩ | ⟨entry, _, _, _, hmore⟩
  · rw [hsame]
  · rw [hmore]

theorem provider_build (c : Catalogue φ ι) (name : String) :
    (c.build name).provider = c.provider := by
  rcases build_cases c name with ⟨_, hsame⟩ | ⟨entry, _, _, _, hmore⟩
  · rw [hsame]
  · rw [hmore]

/-- What is kept stays kept. -/
theorem kept?_build_of_kept (h : c.kept? name = some i) : (c.build other).kept? name = some i := by
  rcases build_cases c other with ⟨_, hsame⟩ | ⟨entry, _, _, _, hmore⟩
  · rw [hsame]
    exact h
  · rw [hmore]
    show (c.built ++ _).find? _ = _
    rw [List.find?_append]
    show (c.kept? name).or _ = _
    rw [h]
    rfl

/-- Building keeps no other name. -/
theorem kept?_build_ne (hne : other ≠ name) : (c.build other).kept? name = c.kept? name := by
  rcases build_cases c other with ⟨_, hsame⟩ | ⟨entry, _, _, _, hmore⟩
  · rw [hsame]
  · rw [hmore]
    show (c.built ++ _).find? _ = _
    rw [List.find?_append, List.find?_singleton, if_neg (by simpa using hne), Option.or_none]
    rfl

/-- After building, a name is kept if there is such an algorithm. -/
theorem kept?_build_self (h : c.table.contains name = true) :
    ((c.build name).kept? name).isSome := by
  cases hk : c.kept? name with
  | some i =>
      rw [kept?_build_of_kept hk]
      rfl
  | none =>
      obtain ⟨entry, ht⟩ := Option.isSome_iff_exists.mp h
      rw [build_of_runs hk ht]
      show ((c.built ++ _).find? _).isSome = true
      rw [List.find?_append, List.find?_singleton, if_pos (by simp)]
      cases c.built.find? _ <;> rfl

theorem not_kept_iff : c.kept? name = none ↔ name ∉ c.built.map (·.name) := by
  simp [Catalogue.kept?]

theorem mem_of_kept (h : c.kept? name = some i) : i ∈ c.built ∧ i.name = name := by
  have hname := List.find?_some h
  exact ⟨List.mem_of_find?_eq_some h, by simpa using hname⟩

/-! ## A call is looking and coming back at once -/

variable [DecidableEq φ] {d : Desk φ ι} {r : Reply φ ι} {offers : List (TableEntry φ ι)}
  {asked : List (Ask φ)}

/-- The catalogue's own lookup builds, and then hands out what is kept. -/
theorem lookup?_eq (c : Catalogue φ ι) (f : φ) (name : String) :
    c.lookup? f name
      = (((c.build name).kept? name).bind fun i => i.found? f, c.build name) := by
  unfold Catalogue.lookup? Catalogue.fetch
  cases hk : c.kept? name with
  | some i =>
      rw [build_of_kept hk, hk]
  | none => rfl

theorem call_lookup (d : Desk φ ι) (hw : a.wish ≠ .supports) :
    d.call a = d.conclude a (d.catalogue.build a.name) (a.tell d.catalogue.provider
      (((d.catalogue.build a.name).kept? a.name).bind fun i => i.found? a.family)) := by
  unfold Desk.call
  split
  · rename_i h
    exact absurd h hw
  · rw [lookup?_eq]
  · rename_i h
    rw [Catalogue.lookup, lookup?_eq]
    cases ((d.catalogue.build a.name).kept? a.name).bind fun i => i.found? a.family with
    | some it => rfl
    | none =>
        dsimp only [Ask.tell]
        rw [h, provider_build]

theorem look_supports (d : Desk φ ι) (hw : a.wish = .supports) :
    d.look a = d.answer a (.flag (d.catalogue.supports a.name)) := by
  rw [Desk.look, hw]

theorem call_supports (d : Desk φ ι) (hw : a.wish = .supports) :
    d.call a = d.answer a (.flag (d.catalogue.supports a.name)) := by
  rw [Desk.call, hw]

theorem look_kept (hw : a.wish ≠ .supports) (hk : d.catalogue.kept? a.name = some i) :
    d.look a = d.answer a (a.tell d.catalogue.provider (i.found? a.family)) := by
  unfold Desk.look
  split
  · rename_i h
    exact absurd h hw
  · rw [hk]

theorem look_missing (hw : a.wish ≠ .supports) (hk : d.catalogue.kept? a.name = none)
    (ht : d.catalogue.table.contains a.name = false) :
    d.look a = d.answer a (a.tell d.catalogue.provider none) := by
  unfold Desk.look
  split
  · rename_i h
    exact absurd h hw
  · rw [hk]
    exact if_neg (by simp [ht])

theorem look_waits (hw : a.wish ≠ .supports) (hk : d.catalogue.kept? a.name = none)
    (ht : d.catalogue.table.contains a.name = true) :
    d.look a = { d with waiting := d.waiting ++ [a] } := by
  unfold Desk.look
  split
  · rename_i h
    exact absurd h hw
  · rw [hk]
    exact if_pos ht

theorem settle_none {place : Nat} (h : d.waiting[place]? = none) : d.settle place = d := by
  rw [Desk.settle, h]

theorem settle_some {place : Nat} (h : d.waiting[place]? = some a) :
    d.settle place = { d with waiting := d.waiting.eraseIdx place }.conclude a
      (d.catalogue.build a.name) (a.tell d.catalogue.provider
        (((d.catalogue.build a.name).kept? a.name).bind fun i => i.found? a.family)) := by
  rw [Desk.settle, h]

/-- A call that nobody comes in between is both phases after each other. -/
theorem call_eq (d : Desk φ ι) (a : Ask φ) : d.call a = (d.look a).settle d.waiting.length := by
  -- unless the caller has to come back, the place is empty
  have hempty : ∀ r, (d.answer a r).settle d.waiting.length = d.answer a r := fun r =>
    settle_none (List.getElem?_eq_none (Nat.le_refl _))
  have hnote : ∀ r, d.catalogue.runs? a.name = none →
      d.conclude a d.catalogue r = d.answer a r := by
    intro r hnone
    rw [Desk.conclude, hnone]
    simp [Desk.answer]
  cases hwish : a.wish with
  | supports => rw [call_supports d hwish, look_supports d hwish, hempty]
  | _ =>
      have hw : a.wish ≠ .supports := by simp [hwish]
      rw [call_lookup d hw]
      cases hk : d.catalogue.kept? a.name with
      | some i =>
          rw [look_kept hw hk, hempty, build_of_kept hk, hk]
          refine hnote _ ?_
          rw [Catalogue.runs?, hk]
      | none =>
          cases ht : d.catalogue.table.contains a.name with
          | false =>
              have hfind : d.catalogue.table.find? a.name = none := by
                simpa [Table.contains] using ht
              rw [look_missing hw hk ht, hempty, build_of_none hfind, hk]
              refine hnote _ ?_
              rw [Catalogue.runs?, hk]
              exact hfind
          | true =>
              have hback : ({ d with waiting := d.waiting ++ [a] } : Desk φ ι).waiting[
                  d.waiting.length]? = some a := by
                simp
              have hfront : (d.waiting ++ [a]).eraseIdx d.waiting.length = d.waiting := by
                rw [List.eraseIdx_append_of_length_le (Nat.le_refl _)]
                simp
              rw [look_waits hw hk ht, settle_some hback]
              dsimp only [Desk.conclude]
              rw [hfront]

/-! ## What every move keeps -/

/-- What the caller was told is what is kept for the name, and if there is such an algorithm then it
is kept. -/
def Told (c : Catalogue φ ι) (a : Ask φ) (r : Reply φ ι) : Prop :=
  (a.wish = .supports ∧ r = .flag (c.supports a.name))
    ∨ (a.wish ≠ .supports ∧ (c.table.contains a.name = true → (c.kept? a.name).isSome)
      ∧ r = a.tell c.provider ((c.kept? a.name).bind fun i => i.found? a.family))

/-- The instance was made by the first builder that was offered under its name. -/
def Made (offers : List (TableEntry φ ι)) (i : Instance φ ι) : Prop :=
  ∃ entry, firstOf offers i.name = some entry
    ∧ i = ⟨i.name, entry.family, i.serial, entry.build i.serial⟩

/-- The catalogue is what the builders that ran have made of the table. -/
structure Desk.Sound (provider : String) (offers : List (TableEntry φ ι)) (asked : List (Ask φ))
    (d : Desk φ ι) : Prop where
  table : d.catalogue.table = .ofOffers offers
  provider : d.catalogue.provider = provider
  kept : d.catalogue.built.map (·.name) = d.ran
  once : d.ran.Nodup
  wanted : ∀ name ∈ d.ran, ∃ a ∈ asked, a.wish ≠ .supports ∧ a.name = name
  made : ∀ i ∈ d.catalogue.built, Made offers i
  waiting : ∀ a ∈ d.waiting, a.wish ≠ .supports ∧ d.catalogue.table.contains a.name = true
  told : ∀ a r, (a, r) ∈ d.answered → Told d.catalogue a r
  everybody : (d.answered.map Prod.fst ++ d.waiting).Perm asked

/-- What was told before is right after something was built. -/
theorem Told.build (h : Told c a r) (other : String) : Told (c.build other) a r := by
  rcases h with ⟨hw, hr⟩ | ⟨hw, hkept, hr⟩
  · left
    refine ⟨hw, ?_⟩
    rw [hr, Catalogue.supports, Catalogue.supports, table_build]
  · right
    have hsame : (c.build other).kept? a.name = c.kept? a.name := by
      cases hk : c.kept? a.name with
      | some i => exact kept?_build_of_kept hk
      | none =>
          by_cases hname : other = a.name
          · -- a name that has no instance after its lookup is not in the table
            have hfind : c.table.find? other = none := by
              cases ht : c.table.find? other with
              | none => rfl
              | some entry =>
                  have hcontains : c.table.contains a.name = true := by
                    rw [← hname, Table.contains, ht]
                    rfl
                  rw [hk] at hkept
                  exact absurd (hkept hcontains) (by simp)
            rw [build_of_none hfind]
            exact hk
          · rw [kept?_build_ne hname]
            exact hk
    rw [table_build, provider_build, hsame]
    exact ⟨hw, hkept, hr⟩

theorem Desk.Sound.contains (h : d.Sound provider offers asked) (name : String) :
    d.catalogue.table.contains name = (firstOf offers name).isSome := by
  rw [h.table, Table.contains, find?_ofOffers]

theorem sound_open (provider : String) (offers : List (TableEntry φ ι)) :
    (Desk.start provider offers).Sound provider offers [] where
  table := rfl
  provider := rfl
  kept := rfl
  once := List.nodup_nil
  wanted name hn := absurd hn (by simp [Desk.start])
  made i hi := absurd hi (by simp [Desk.start, Catalogue.ofTable])
  waiting a ha := absurd ha (by simp [Desk.start])
  told a r hr := absurd hr (by simp [Desk.start])
  everybody := List.Perm.nil

/-- A reply that needs no building is noted. -/
theorem Desk.Sound.answer (h : d.Sound provider offers asked) (ht : Told d.catalogue a r) :
    (d.answer a r).Sound provider offers (asked ++ [a]) where
  table := h.table
  provider := h.provider
  kept := h.kept
  once := h.once
  wanted name hn := by
    obtain ⟨b, hb, hwish⟩ := h.wanted name hn
    exact ⟨b, List.mem_append_left _ hb, hwish⟩
  made := h.made
  waiting := h.waiting
  told b s hb := by
    rcases List.mem_append.mp hb with hold | hnew
    · exact h.told b s hold
    · obtain ⟨rfl, rfl⟩ := Prod.mk.inj (List.mem_singleton.mp hnew)
      exact ht
  everybody := by
    show ((d.answered ++ [(a, r)]).map Prod.fst ++ d.waiting).Perm (asked ++ [a])
    rw [List.map_append, List.append_assoc]
    refine List.Perm.trans ?_ (h.everybody.append_right [a])
    rw [List.append_assoc]
    exact List.perm_append_comm.append_left _

/-- A caller that has to come back waits. -/
theorem Desk.Sound.wait (h : d.Sound provider offers asked) (hw : a.wish ≠ .supports)
    (ht : d.catalogue.table.contains a.name = true) :
    ({ d with waiting := d.waiting ++ [a] } : Desk φ ι).Sound provider offers (asked ++ [a]) where
  table := h.table
  provider := h.provider
  kept := h.kept
  once := h.once
  wanted name hn := by
    obtain ⟨b, hb, hwish⟩ := h.wanted name hn
    exact ⟨b, List.mem_append_left _ hb, hwish⟩
  made := h.made
  waiting b hb := by
    rcases List.mem_append.mp hb with hold | hnew
    · exact h.waiting b hold
    · obtain rfl := List.mem_singleton.mp hnew
      exact ⟨hw, ht⟩
  told := h.told
  everybody := by
    show (d.answered.map Prod.fst ++ (d.waiting ++ [a])).Perm (asked ++ [a])
    rw [← List.append_assoc]
    exact h.everybody.append_right [a]

theorem Desk.Sound.look (h : d.Sound provider offers asked) (a : Ask φ) :
    (d.look a).Sound provider offers (asked ++ [a]) := by
  by_cases hw : a.wish = .supports
  · rw [look_supports d hw]
    exact h.answer (Or.inl ⟨hw, rfl⟩)
  · cases hk : d.catalogue.kept? a.name with
    | some i =>
        rw [look_kept hw hk]
        refine h.answer (Or.inr ⟨hw, fun _ => ?_, ?_⟩)
        · rw [hk]
          rfl
        · rw [hk]
          rfl
    | none =>
        cases ht : d.catalogue.table.contains a.name with
        | false =>
            rw [look_missing hw hk ht]
            refine h.answer (Or.inr ⟨hw, fun hc => ?_, ?_⟩)
            · exact absurd (ht.symm.trans hc) (by simp)
            · rw [hk]
              rfl
        | true =>
            -- in the table and not built: the answer has to wait until somebody has built it
            rw [look_waits hw hk ht]
            exact h.wait hw ht

/-- The desk after the instance of a name was built. -/
def Desk.grow (d : Desk φ ι) (name : String) : Desk φ ι :=
  { d with
    catalogue := d.catalogue.build name
    ran := d.ran ++ (d.catalogue.runs? name).toList.map fun _ => name }

/-- Building runs a builder only for a name that had no instance. -/
theorem Desk.Sound.grow (h : d.Sound provider offers asked) (ha : a ∈ asked)
    (hw : a.wish ≠ .supports) : (d.grow a.name).Sound provider offers asked := by
  have htold : ∀ b r, (b, r) ∈ d.answered → Told (d.catalogue.build a.name) b r :=
    fun b r hb => (h.told b r hb).build a.name
  rcases build_cases d.catalogue a.name with ⟨hnone, hsame⟩ | ⟨entry, hk, ht, hruns, hmore⟩
  · have hgrow : d.grow a.name = d := by
      rw [Desk.grow, hnone, hsame]
      simp
    rw [hgrow]
    exact h
  -- a builder that runs now has not run before, since what ran is what is kept
  · have hfresh : a.name ∉ d.ran := by
      rw [← h.kept]
      exact not_kept_iff.mp hk
    have hfirst : firstOf offers a.name = some entry := by
      rw [← find?_ofOffers, ← h.table]
      exact ht
    rw [Desk.grow, hruns]
    rw [hmore] at htold ⊢
    refine ⟨h.table, h.provider, ?_, ?_, fun name hn => ?_, fun i hi => ?_, h.waiting, htold,
      h.everybody⟩
    · rw [List.map_append, h.kept]
      rfl
    · exact List.nodup_append_comm.mp (List.nodup_cons.mpr ⟨hfresh, h.once⟩)
    · rcases List.mem_append.mp hn with hold | hnew
      · exact h.wanted name hold
      · obtain rfl : name = a.name := by simpa using hnew
        exact ⟨a, ha, hw, rfl⟩
    · rcases List.mem_append.mp hi with hold | hnew
      · exact h.made i hold
      · obtain rfl := List.mem_singleton.mp hnew
        exact ⟨entry, hfirst, rfl⟩

/-- One of those who wait is answered. -/
theorem Desk.Sound.leave {place : Nat} (h : d.Sound provider offers asked)
    (hp : d.waiting[place]? = some a) (ht : Told d.catalogue a r) :
    ({ d with waiting := d.waiting.eraseIdx place }.answer a r).Sound provider offers asked where
  table := h.table
  provider := h.provider
  kept := h.kept
  once := h.once
  wanted := h.wanted
  made := h.made
  waiting b hb := h.waiting b (List.mem_of_mem_eraseIdx hb)
  told b s hb := by
    rcases List.mem_append.mp hb with hold | hnew
    · exact h.told b s hold
    · obtain ⟨rfl, rfl⟩ := Prod.mk.inj (List.mem_singleton.mp hnew)
      exact ht
  everybody := by
    show ((d.answered ++ [(a, r)]).map Prod.fst ++ d.waiting.eraseIdx place).Perm asked
    have hperm : (a :: d.waiting.eraseIdx place).Perm d.waiting := by
      obtain ⟨hlt, rfl⟩ := List.getElem?_eq_some_iff.mp hp
      exact List.getElem_cons_eraseIdx_perm hlt
    rw [List.map_append, List.append_assoc]
    exact (hperm.append_left _).trans h.everybody

/-- Coming back builds what is missing and answers the caller. -/
theorem Desk.Sound.settle (h : d.Sound provider offers asked) (place : Nat) :
    (d.settle place).Sound provider offers asked := by
  cases hp : d.waiting[place]? with
  | none =>
      rw [settle_none hp]
      exact h
  | some a =>
      have hmem : a ∈ d.waiting := List.mem_of_getElem? hp
      have hasked : a ∈ asked := h.everybody.mem_iff.mp (List.mem_append_right _ hmem)
      obtain ⟨hw, hcontains⟩ := h.waiting a hmem
      have htold : Told (d.catalogue.build a.name) a (a.tell (d.catalogue.build a.name).provider
          (((d.catalogue.build a.name).kept? a.name).bind fun i => i.found? a.family)) :=
        Or.inr ⟨hw, fun _ => kept?_build_self hcontains, rfl⟩
      rw [provider_build] at htold
      rw [settle_some hp]
      exact (h.grow hasked hw).leave hp htold

/-- Whatever is done at the desk, it stays in order. -/
theorem Desk.Sound.step (h : d.Sound provider offers asked) (move : Move φ) :
    (d.step move).Sound provider offers (asked ++ move.ask?.toList) := by
  cases move with
  | call a =>
      show (d.call a).Sound _ _ _
      rw [call_eq]
      exact (h.look a).settle _
  | look a => exact h.look a
  | settle place =>
      have hsettled := h.settle place
      rwa [← List.append_nil asked] at hsettled

theorem Desk.Sound.perform (h : d.Sound provider offers asked) (moves : List (Move φ)) :
    (d.perform moves).Sound provider offers (asked ++ asks moves) := by
  induction moves generalizing d asked with
  | nil =>
      rw [asks, List.filterMap_nil, List.append_nil]
      exact h
  | cons move rest ih =>
      have hall := ih (h.step move)
      have hasks : asks (move :: rest) = move.ask?.toList ++ asks rest := by
        cases move <;> rfl
      rw [hasks, ← List.append_assoc]
      exact hall

/-! ## What the callers see -/

/-- An instance is handed out under its own family only. -/
theorem tell_instance (a : Ask φ) (provider : String) (i : Instance φ ι) :
    (i.family = a.family
        ∧ a.tell provider (i.found? a.family) = .found i.family ⟨i.serial, i.value⟩)
      ∨ (i.family ≠ a.family ∧ a.tell provider (i.found? a.family) = a.tell provider none) := by
  unfold Instance.found?
  by_cases hf : i.family = a.family
  · left
    refine ⟨hf, ?_⟩
    rw [dif_pos hf]
    obtain ⟨caller, wish, family, name⟩ := a
    obtain rfl : i.family = family := hf
    rfl
  · right
    refine ⟨hf, ?_⟩
    rw [dif_neg hf]

/-- Whoever found a name was given its instance. -/
theorem Told.of_found {f : φ} {it : Found (ι f)} (h : Told c a (.found f it)) :
    ∃ i, c.kept? a.name = some i
      ∧ (Reply.found f it : Reply φ ι) = .found i.family ⟨i.serial, i.value⟩ := by
  rcases h with ⟨_, hr⟩ | ⟨_, _, hr⟩
  · exact absurd hr (by simp)
  · cases hk : c.kept? a.name with
    | none =>
        rw [hk] at hr
        exact absurd hr.symm (tell_none_ne a c.provider f it)
    | some i =>
        rw [hk] at hr
        rcases tell_instance a c.provider i with ⟨_, htell⟩ | ⟨_, htell⟩
        · exact ⟨i, rfl, hr.trans htell⟩
        · exact absurd (hr.trans htell).symm (tell_none_ne a c.provider f it)

/-- What a caller was told follows from the first offer under the name. -/
theorem Desk.Sound.proper (h : d.Sound provider offers asked) (hr : (a, r) ∈ d.answered) :
    a.Proper provider (firstOf offers a.name) r := by
  have hcontains : d.catalogue.table.contains a.name = (firstOf offers a.name).isSome := by
    rw [h.table, Table.contains, find?_ofOffers]
  unfold Ask.Proper
  rcases h.told a r hr with ⟨hw, hflag⟩ | ⟨hw, hkept, htell⟩
  · rw [hw]
    rw [hflag, Catalogue.supports, hcontains]
  · split
    · rename_i hwish
      exact absurd hwish hw
    · rw [h.provider] at htell
      cases hfirst : firstOf offers a.name with
      | none =>
          -- an instance that is kept would have been offered
          have hnone : d.catalogue.kept? a.name = none := by
            cases hk : d.catalogue.kept? a.name with
            | none => rfl
            | some i =>
                obtain ⟨hi, hname⟩ := mem_of_kept hk
                obtain ⟨entry, hentry, _⟩ := h.made i hi
                rw [hname, hfirst] at hentry
                exact absurd hentry (by simp)
          rw [hnone] at htell
          exact htell
      | some entry =>
          rw [hcontains, hfirst] at hkept
          obtain ⟨i, hk⟩ := Option.isSome_iff_exists.mp (hkept rfl)
          obtain ⟨hi, hname⟩ := mem_of_kept hk
          obtain ⟨own, hown, hmade⟩ := h.made i hi
          obtain rfl : own = entry := by
            rw [hname, hfirst] at hown
            exact (Option.some.inj hown).symm
          rw [hk] at htell
          rw [hmade] at htell
          rcases tell_instance a provider ⟨i.name, own.family, i.serial, own.build i.serial⟩ with
            ⟨hf, hfound⟩ | ⟨hf, hmissing⟩
          · exact Or.inl ⟨hf, i.serial, htell.trans hfound⟩
          · exact Or.inr ⟨hf, htell.trans hmissing⟩

theorem Desk.Sound.buildsOnce {moves : List (Move φ)}
    (h : d.Sound provider offers (asks moves)) : BuildsOnce provider offers moves d where
  table := h.table
  once := h.once
  wanted name hn := by
    obtain ⟨i, hi, rfl⟩ := List.mem_map.mp (h.kept ▸ hn)
    obtain ⟨entry, hfirst, _⟩ := h.made i hi
    exact ⟨by rw [hfirst]; rfl, h.wanted _ hn⟩
  kept := h.kept
  supports a hw move hmove := by
    rcases hmove with rfl | rfl
    · rw [Desk.step, call_supports d hw]
      exact ⟨rfl, rfl⟩
    · rw [Desk.step, look_supports d hw]
      exact ⟨rfl, rfl⟩
  proper _ _ hr := h.proper hr
  same a a' f f' it it' hr hr' hname := by
    obtain ⟨i, hi, hfound⟩ := (h.told _ _ hr).of_found
    obtain ⟨i', hi', hfound'⟩ := (h.told _ _ hr').of_found
    -- both were found under one name, where one instance is kept
    rw [← hname, hi] at hi'
    obtain rfl := Option.some.inj hi'
    exact hfound.trans hfound'.symm
  independent others a r r' hr hr' := by
    -- a run of its own, with the same offers and any other moves
    have hother := (sound_open provider offers).perform others
    exact (h.proper hr).alike (hother.proper hr')
  everybody := h.everybody
  settles place a hp := by
    rw [settle_some hp]
    exact ⟨_, rfl, rfl⟩

/-- **Algorithms are found the same way by all, and built once.**

Offer any algorithms to a table, some of them under names that are taken. Then let any callers look
names up, known or unknown and for whatever families, in any order, also with others between looking
and building. -/
theorem lookups_build_once (provider : String) (offers : List (TableEntry φ ι))
    (moves : List (Move φ)) :
    Registered offers
      ∧ BuildsOnce provider offers moves ((Desk.start provider offers).perform moves) := by
  have hend := (sound_open provider offers).perform moves
  rw [List.nil_append] at hend
  exact ⟨registered offers, hend.buildsOnce⟩

/-- Two callers look before either comes back, the first one for a family that is not the
algorithm's. -/
example :
    let d : Desk Bool fun _ => Nat := (Desk.start "p" [⟨"A", true, id⟩]).perform
      [.look ⟨0, .get, false, "A"⟩, .look ⟨1, .get, true, "A"⟩, .settle 0, .settle 0]
    d.ran = ["A"] ∧ d.answered.map Prod.snd
      = [.failed (.algorithmNotFound "A" "p"), .found true ⟨1, 1⟩] := ⟨rfl, rfl⟩

end PooledCrypto.Provider
