import Mathlib.Data.List.Induction
import PooledCrypto.Provider.Table

/-!
# What registering leads to

Algorithms are offered to a table one after the other, and a name that is taken is refused. So the
table has for each name the algorithm that was offered first, and its names stand in the order in
which they first came up (`Registered`).

A table can be kept as two structures that change together: the algorithms by name, and the names in
order. `Shelf` is that way of keeping it, with registration in place. The two never get out of step,
whatever is accepted or refused, and it makes no difference to the table.
-/

namespace PooledCrypto.Provider

variable {φ : Type} {ι : φ → Type}

/-- The table after an algorithm was offered: one that refuses it stays as it is. -/
def Table.offer (t : Table φ ι) (entry : TableEntry φ ι) : Table φ ι :=
  match t.register entry with
  | .ok larger => larger
  | .error _ => t

/-- The table after algorithms were offered in this order. -/
def Table.ofOffers (offers : List (TableEntry φ ι)) : Table φ ι := offers.foldl Table.offer .empty

/-- The first algorithm that was offered under a name. -/
def firstOf (offers : List (TableEntry φ ι)) (name : String) : Option (TableEntry φ ι) :=
  offers.find? fun e => e.name == name

/-- A table as two structures side by side. -/
structure Shelf (φ : Type) (ι : φ → Type) where
  byName : String → Option (TableEntry φ ι)
  order : List String

namespace Shelf

/-- A shelf with nothing on it. -/
def empty : Shelf φ ι := ⟨fun _ => none, []⟩

/-- Registers an algorithm in place: both structures are changed, or none. -/
def register (s : Shelf φ ι) (entry : TableEntry φ ι) : Except Error Unit × Shelf φ ι :=
  if (s.byName entry.name).isSome then (.error (.alreadyExists (.algorithm entry.name)), s)
  else
    (.ok (), ⟨fun name => if entry.name == name then some entry else s.byName name,
      s.order ++ [entry.name]⟩)

/-- The shelf after algorithms were offered in this order. -/
def ofOffers (offers : List (TableEntry φ ι)) : Shelf φ ι :=
  offers.foldl (fun s entry => (s.register entry).2) empty

/-- Both structures say what the table says. -/
structure InStep (s : Shelf φ ι) (t : Table φ ι) : Prop where
  byName : ∀ name, s.byName name = t.find? name
  order : s.order = t.names

end Shelf

/-- What is known of a table that was filled by offers, accepted or refused. -/
structure Registered (offers : List (TableEntry φ ι)) : Prop where
  /-- The first offer under a name is the one that counts. -/
  first : ∀ name, (Table.ofOffers offers).find? name = firstOf offers name
  /-- The names stand in the order in which they were first offered. -/
  names : (Table.ofOffers offers).names = (offers.map (·.name)).eraseDups
  /-- A further offer is refused exactly if its name is taken. -/
  register : ∀ entry : TableEntry φ ι, (Table.ofOffers offers).register entry
    = if entry.name ∈ offers.map (·.name) then .error (.alreadyExists (.algorithm entry.name))
      else .ok (Table.ofOffers (offers ++ [entry]))
  /-- Kept as two structures the table is the same. -/
  inStep : (Shelf.ofOffers offers).InStep (Table.ofOffers offers)
  /-- Registering in place gives the same answer, and changes nothing if it is refused. -/
  inPlace : ∀ entry : TableEntry φ ι,
    ((Shelf.ofOffers offers).register entry).1
        = ((Table.ofOffers offers).register entry).map (fun _ => ())
      ∧ ∀ e, ((Shelf.ofOffers offers).register entry).1 = .error e →
          ((Shelf.ofOffers offers).register entry).2 = Shelf.ofOffers offers

variable {t : Table φ ι} {s : Shelf φ ι} {entry : TableEntry φ ι} {name : String}
  {offers : List (TableEntry φ ι)}

/-! ## One offer -/

/-- A name that is taken is refused, with an error that tells it. -/
theorem register_taken (h : (t.find? entry.name).isSome) :
    t.register entry = .error (.alreadyExists (.algorithm entry.name)) := if_pos h

/-- A free one is entered behind the others. -/
theorem register_free (h : t.find? entry.name = none) :
    t.register entry = .ok ⟨t.entries ++ [entry]⟩ := by
  refine if_neg ?_
  rw [Table.contains, h]
  simp

theorem offer_taken (h : (t.find? entry.name).isSome) : t.offer entry = t := by
  rw [Table.offer, register_taken h]

theorem offer_free (h : t.find? entry.name = none) :
    t.offer entry = ⟨t.entries ++ [entry]⟩ := by
  rw [Table.offer, register_free h]

/-- What is found stays found; what is offered is found under its own name only. -/
theorem find?_offer (t : Table φ ι) (entry : TableEntry φ ι) (name : String) :
    (t.offer entry).find? name
      = (t.find? name).or (if entry.name == name then some entry else none) := by
  cases hfound : t.find? entry.name with
  | none =>
      rw [offer_free hfound]
      show (t.entries ++ [entry]).find? _ = _
      rw [List.find?_append, List.find?_singleton]
      rfl
  | some old =>
      rw [offer_taken (by rw [hfound]; rfl)]
      by_cases hname : entry.name = name
      · -- the name is taken, so the offer does not show
        rw [← hname, hfound]
        rfl
      · rw [if_neg (by simpa using hname), Option.or_none]

theorem find?_isSome_iff (t : Table φ ι) (name : String) :
    (t.find? name).isSome ↔ name ∈ t.names := by
  simp [Table.find?, Table.names, List.find?_isSome]

theorem find?_eq_none_iff (t : Table φ ι) (name : String) :
    t.find? name = none ↔ name ∉ t.names := by
  rw [← find?_isSome_iff]
  simp

/-! ## All offers -/

theorem ofOffers_snoc (offers : List (TableEntry φ ι)) (entry : TableEntry φ ι) :
    Table.ofOffers (offers ++ [entry]) = (Table.ofOffers offers).offer entry := by
  simp [Table.ofOffers]

/-- What a table finds under a name is the first offer that was made under it. -/
theorem find?_ofOffers (offers : List (TableEntry φ ι)) (name : String) :
    (Table.ofOffers offers).find? name = firstOf offers name := by
  induction offers using List.reverseRecOn with
  | nil => rfl
  | append_singleton front entry ih =>
      rw [ofOffers_snoc, find?_offer, ih, firstOf, firstOf, List.find?_append,
        List.find?_singleton]

/-- The names come in the order in which they first came up. -/
theorem names_ofOffers (offers : List (TableEntry φ ι)) :
    (Table.ofOffers offers).names = (offers.map (·.name)).eraseDups := by
  induction offers using List.reverseRecOn with
  | nil => rfl
  | append_singleton front entry ih =>
      rw [ofOffers_snoc, List.map_append, List.eraseDups_append, ← ih]
      by_cases hname : entry.name ∈ front.map (·.name)
      · -- a name that came up before adds nothing
        have hmem : entry.name ∈ (Table.ofOffers front).names := by
          rw [ih]
          exact List.mem_eraseDups.mpr hname
        have hnew : [entry.name].removeAll (front.map (·.name)) = [] := by
          simpa [List.removeAll] using hname
        rw [offer_taken ((find?_isSome_iff _ _).mpr hmem)]
        show _ = _ ++ ([entry.name].removeAll (front.map (·.name))).eraseDups
        rw [hnew, List.eraseDups_nil, List.append_nil]
      · have hmem : entry.name ∉ (Table.ofOffers front).names := by
          rw [ih]
          exact fun h => hname (List.mem_eraseDups.mp h)
        have hnew : [entry.name].removeAll (front.map (·.name)) = [entry.name] := by
          simpa [List.removeAll] using hname
        rw [offer_free ((find?_eq_none_iff _ _).mpr hmem)]
        show ((Table.ofOffers front).entries ++ [entry]).map (·.name)
          = _ ++ ([entry.name].removeAll (front.map (·.name))).eraseDups
        rw [hnew, List.map_append]
        rfl

theorem mem_names_ofOffers :
    name ∈ (Table.ofOffers offers).names ↔ name ∈ offers.map (·.name) := by
  rw [names_ofOffers, List.mem_eraseDups]

/-! ## Two structures in step -/

theorem Shelf.register_taken (h : (s.byName entry.name).isSome) :
    s.register entry = (.error (.alreadyExists (.algorithm entry.name)), s) := if_pos h

theorem Shelf.register_free (h : s.byName entry.name = none) :
    s.register entry = (.ok (), ⟨fun name => if entry.name == name then some entry
      else s.byName name, s.order ++ [entry.name]⟩) := by
  refine if_neg ?_
  rw [h]
  simp

/-- One registration does the same to both ways of keeping a table. -/
theorem Shelf.InStep.register (h : s.InStep t) (entry : TableEntry φ ι) :
    (s.register entry).1 = (t.register entry).map (fun _ => ())
      ∧ (s.register entry).2.InStep (t.offer entry) := by
  cases hfound : t.find? entry.name with
  | none =>
      have hfree : s.byName entry.name = none := (h.byName _).trans hfound
      rw [Shelf.register_free hfree, Provider.register_free hfound]
      refine ⟨rfl, fun name => ?_, ?_⟩
      · rw [find?_offer]
        show (if entry.name == name then some entry else s.byName name) = _
        by_cases hname : entry.name = name
        · rw [← hname, hfound, if_pos (by simp)]
          simp
        · rw [if_neg (by simpa using hname), if_neg (by simpa using hname), Option.or_none]
          exact h.byName name
      · rw [offer_free hfound]
        show s.order ++ [entry.name] = (t.entries ++ [entry]).map (·.name)
        rw [h.order, List.map_append]
        rfl
  | some old =>
      have hold : (t.find? entry.name).isSome := by
        rw [hfound]
        rfl
      -- a name that is taken is taken in both, and neither keeps anything of the offer
      have htaken : (s.byName entry.name).isSome := by
        rw [h.byName]
        exact hold
      rw [Shelf.register_taken htaken, Provider.register_taken hold, offer_taken hold]
      exact ⟨rfl, h⟩

/-- So the two ways of keeping a table never part. -/
theorem inStep_ofOffers (offers : List (TableEntry φ ι)) :
    (Shelf.ofOffers offers).InStep (Table.ofOffers offers) := by
  induction offers using List.reverseRecOn with
  | nil => exact ⟨fun _ => rfl, rfl⟩
  | append_singleton front entry ih =>
      have hsnoc : Shelf.ofOffers (front ++ [entry])
          = ((Shelf.ofOffers front).register entry).2 := by
        simp [Shelf.ofOffers]
      rw [hsnoc, ofOffers_snoc]
      exact (ih.register entry).2

theorem registered (offers : List (TableEntry φ ι)) : Registered offers where
  first := find?_ofOffers offers
  names := names_ofOffers offers
  register entry := by
    by_cases hname : entry.name ∈ offers.map (·.name)
    · rw [if_pos hname]
      exact register_taken ((find?_isSome_iff _ _).mpr (mem_names_ofOffers.mpr hname))
    · have hfree : (Table.ofOffers offers).find? entry.name = none :=
        (find?_eq_none_iff _ _).mpr fun h => hname (mem_names_ofOffers.mp h)
      rw [if_neg hname, register_free hfree, ofOffers_snoc, offer_free hfree]
  inStep := inStep_ofOffers offers
  inPlace entry := by
    refine ⟨((inStep_ofOffers offers).register entry).1, fun e he => ?_⟩
    unfold Shelf.register at he ⊢
    split at he
    · rename_i htaken
      rw [if_pos htaken]
    · exact absurd he (by simp)

end PooledCrypto.Provider
