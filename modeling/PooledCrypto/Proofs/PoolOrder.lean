import PooledCrypto.Pool.Directory

/-!
# Every handle is in one place

A pool knows its idle handles but not those it has lent. `InOrder` puts the two together: each handle
is idle or lent, once, and each is one that the pool may give out. Lending, taking back, and changing
what is inside a lent handle keep it so, however long a handle was away and whatever its borrower
left in it.

Whether a pool can give out anything at all is settled by its factory: `InOrder` allows for a factory
that always fails, as long as nothing was ever made.
-/

namespace PooledCrypto.Pool

variable {α : Type} {good : α → Prop} {p p' : Pool α} {lent lent' : List (Handle α)}
  {h h' : Handle α}

/-- The idle and the lent handles of a pool, of which all are good ones. -/
structure InOrder (good : α → Prop) (p : Pool α) (lent : List (Handle α)) : Prop where
  sound : ∀ h ∈ p.idle ++ lent, good h.value
  /-- No handle is in two places. -/
  apart : ((p.idle ++ lent).map (·.serial)).Nodup
  numbered : ∀ h ∈ p.idle ++ lent, h.serial ≤ p.attempts
  supply : (∀ k, ∃ v, p.factory k = .ok v ∧ good v)
    ∨ ((∀ k, ∃ e, p.factory k = .error e) ∧ p.idle ++ lent = [])

@[simp] theorem factory_checkout (p : Pool α) : p.checkout.2.factory = p.factory := by
  unfold checkout
  split <;> rfl

@[simp] theorem factory_release (p : Pool α) (h : Handle α) :
    (p.release h).factory = p.factory := by
  unfold release
  split <;> rfl

/-- A checkout takes the first idle handle, or else asks the factory. -/
theorem checkout_cases (p : Pool α) :
    (∃ h rest, p.idle = h :: rest ∧ p.checkout = (.ok h, { p with idle := rest }))
      ∨ (p.idle = [] ∧ ∃ v, p.factory (p.attempts + 1) = .ok v
          ∧ p.checkout = (.ok ⟨p.attempts + 1, v⟩, { p with attempts := p.attempts + 1 }))
      ∨ (p.idle = [] ∧ ∃ e, p.factory (p.attempts + 1) = .error e
          ∧ p.checkout = (.error e, { p with attempts := p.attempts + 1 })) := by
  unfold checkout
  cases hidle : p.idle with
  | cons h rest => exact Or.inl ⟨h, rest, rfl, rfl⟩
  | nil =>
      refine Or.inr ?_
      dsimp only
      cases hmade : p.factory (p.attempts + 1) with
      | ok v => exact Or.inl ⟨rfl, v, rfl, rfl⟩
      | error e => exact Or.inr ⟨rfl, e, rfl, rfl⟩

/-! ## From one pool to the next -/

theorem inOrder_empty {name : String} {capacity : Nat} {factory : Nat → Except Error α}
    (hf : (∀ k, ∃ v, factory k = .ok v ∧ good v) ∨ ∀ k, ∃ e, factory k = .error e) :
    InOrder good (empty name capacity factory) [] where
  sound := by simp [empty]
  apart := by simp [empty]
  numbered := by simp [empty]
  supply := hf.imp id fun he => ⟨he, rfl⟩

/-- In which order the lent handles are listed does not matter. -/
theorem InOrder.perm (ho : InOrder good p lent) (hp : lent.Perm lent') :
    InOrder good p lent' := by
  have hall : (p.idle ++ lent).Perm (p.idle ++ lent') := hp.append_left _
  refine ⟨?_, ?_, ?_, ?_⟩
  · intro h hm
    exact ho.sound h (hall.mem_iff.mpr hm)
  · exact (hall.map _).nodup_iff.mp ho.apart
  · intro h hm
    exact ho.numbered h (hall.mem_iff.mpr hm)
  · refine ho.supply.imp id fun he => ⟨he.1, ?_⟩
    have hnil := he.2 ▸ hall
    exact hnil.symm.eq_nil

/-- Who has made or lent anything can make more. -/
theorem InOrder.supplied (ho : InOrder good p lent) (hne : p.idle ++ lent ≠ []) (k : Nat) :
    ∃ v, p.factory k = .ok v ∧ good v := by
  rcases ho.supply with hs | ⟨_, hnil⟩
  · exact hs k
  · exact absurd hnil hne

/-- An idle handle that is lent only changes its place. -/
theorem InOrder.take_idle {rest : List (Handle α)} (ho : InOrder good p lent)
    (hidle : p.idle = h :: rest) :
    InOrder good { p with idle := rest } (h :: lent) ∧ good h.value := by
  have hmove : (p.idle ++ lent).Perm (rest ++ h :: lent) := by
    rw [hidle]
    exact List.perm_middle.symm
  refine ⟨⟨?_, ?_, ?_, ?_⟩, ?_⟩
  · intro x hx
    exact ho.sound x (hmove.mem_iff.mpr hx)
  · exact (hmove.map _).nodup_iff.mp ho.apart
  · intro x hx
    exact ho.numbered x (hmove.mem_iff.mpr hx)
  · exact Or.inl (ho.supplied (by simp [hidle]))
  · exact ho.sound h (by simp [hidle])

/-- A new handle has a number beyond all others. -/
theorem InOrder.make_new {v : α} (ho : InOrder good p lent) (hidle : p.idle = [])
    (hv : p.factory (p.attempts + 1) = .ok v) :
    InOrder good { p with attempts := p.attempts + 1 } (⟨p.attempts + 1, v⟩ :: lent)
      ∧ good v := by
  -- a factory that made one handle is not the one that always fails
  have hmakes : ∀ k, ∃ v, p.factory k = .ok v ∧ good v := by
    rcases ho.supply with hs | ⟨hfail, _⟩
    · exact hs
    · obtain ⟨e, he⟩ := hfail (p.attempts + 1)
      rw [he] at hv
      exact absurd hv (by simp)
  have hgood : good v := by
    obtain ⟨w, hw, hgw⟩ := hmakes (p.attempts + 1)
    rw [hw] at hv
    exact Except.ok.inj hv ▸ hgw
  have hapart := ho.apart
  have hsound := ho.sound
  have hnumbered := ho.numbered
  simp only [hidle, List.nil_append] at hapart hsound hnumbered
  refine ⟨⟨?_, ?_, ?_, Or.inl hmakes⟩, hgood⟩
  · intro x hx
    simp only [hidle, List.nil_append, List.mem_cons] at hx
    rcases hx with rfl | hx
    · exact hgood
    · exact hsound x hx
  · simp only [hidle, List.nil_append, List.map_cons, List.nodup_cons, List.mem_map]
    refine ⟨?_, hapart⟩
    rintro ⟨x, hx, hs⟩
    have hle := hnumbered x hx
    omega
  · intro x hx
    simp only [hidle, List.nil_append, List.mem_cons] at hx
    rcases hx with rfl | hx
    · exact Nat.le_refl _
    · exact Nat.le_succ_of_le (hnumbered x hx)

/-- A handle that is checked out was idle, or is new; either way it is nowhere else. -/
theorem InOrder.checkout_ok (ho : InOrder good p lent) (hc : p.checkout = (.ok h, p')) :
    InOrder good p' (h :: lent) ∧ good h.value := by
  rcases checkout_cases p with ⟨g, rest, hidle, hout⟩ | ⟨hidle, v, hv, hout⟩ | ⟨_, e, _, hout⟩
  · rw [hout] at hc
    obtain ⟨hg, rfl⟩ := Prod.mk.inj hc
    obtain rfl := Except.ok.inj hg
    exact ho.take_idle hidle
  · rw [hout] at hc
    obtain ⟨hg, rfl⟩ := Prod.mk.inj hc
    obtain rfl := Except.ok.inj hg
    exact ho.make_new hidle hv
  · rw [hout] at hc
    exact absurd (congrArg Prod.fst hc) (by simp)

/-- A checkout that fails has only counted the attempt. -/
theorem InOrder.checkout_error {e : Error} (ho : InOrder good p lent)
    (hc : p.checkout = (.error e, p')) : InOrder good p' lent := by
  rcases checkout_cases p with ⟨g, rest, _, hout⟩ | ⟨_, v, _, hout⟩ | ⟨_, _, _, hout⟩
  · rw [hout] at hc
    exact absurd (congrArg Prod.fst hc) (by simp)
  · rw [hout] at hc
    exact absurd (congrArg Prod.fst hc) (by simp)
  · obtain rfl : { p with attempts := p.attempts + 1 } = p' := by
      rw [hout] at hc
      exact congrArg Prod.snd hc
    exact ⟨ho.sound, ho.apart, fun x hx => Nat.le_succ_of_le (ho.numbered x hx), ho.supply⟩

/-- A handle that comes back is idle again, or is gone for good. -/
theorem InOrder.release (ho : InOrder good p (h :: lent)) : InOrder good (p.release h) lent := by
  have hmove : (p.idle ++ h :: lent).Perm (h :: (p.idle ++ lent)) := List.perm_middle
  have hsupply := ho.supplied (by simp)
  have hapart := (hmove.map _).nodup_iff.mp ho.apart
  unfold Pool.release
  split
  · refine ⟨?_, hapart, ?_, Or.inl hsupply⟩
    · intro x hx
      exact ho.sound x (hmove.mem_iff.mpr hx)
    · intro x hx
      exact ho.numbered x (hmove.mem_iff.mpr hx)
  · refine ⟨?_, (List.nodup_cons.mp hapart).2, ?_, Or.inl hsupply⟩
    · intro x hx
      exact ho.sound x (hmove.mem_iff.mpr (List.mem_cons_of_mem _ hx))
    · intro x hx
      exact ho.numbered x (hmove.mem_iff.mpr (List.mem_cons_of_mem _ hx))

/-- What a borrower does inside a handle is the borrower's business, as long as it stays a good
one. -/
theorem InOrder.revalue (ho : InOrder good p (h :: lent)) (hserial : h'.serial = h.serial)
    (hgood : good h'.value) : InOrder good p (h' :: lent) := by
  refine ⟨?_, ?_, ?_, Or.inl (ho.supplied (by simp))⟩
  · intro x hx
    rcases List.mem_append.mp hx with hx | hx
    · exact ho.sound x (List.mem_append_left _ hx)
    · rcases List.mem_cons.mp hx with rfl | hx
      · exact hgood
      · exact ho.sound x (List.mem_append_right _ (List.mem_cons_of_mem _ hx))
  · have hapart := ho.apart
    simp only [List.map_append, List.map_cons] at hapart ⊢
    rw [hserial]
    exact hapart
  · intro x hx
    rcases List.mem_append.mp hx with hx | hx
    · exact ho.numbered x (List.mem_append_left _ hx)
    · rcases List.mem_cons.mp hx with rfl | hx
      · rw [hserial]
        exact ho.numbered h (by simp)
      · exact ho.numbered x (List.mem_append_right _ (List.mem_cons_of_mem _ hx))

/-- A pool from which something is lent can always lend another. -/
theorem InOrder.checkout_succeeds (ho : InOrder good p lent) (hl : lent ≠ []) :
    ∃ h p', p.checkout = (.ok h, p') := by
  rcases checkout_cases p with ⟨g, rest, _, hout⟩ | ⟨_, v, _, hout⟩ | ⟨_, e, he, _⟩
  · exact ⟨_, _, hout⟩
  · exact ⟨_, _, hout⟩
  · obtain ⟨v, hv, _⟩ := ho.supplied (by simp [hl]) (p.attempts + 1)
    rw [hv] at he
    exact absurd he (by simp)

/-! ## Pools found by name -/

namespace Directory

variable {τ : Type} {carrier : τ → Type} [DecidableEq τ] {d d' : Directory τ carrier}
  {name other : String} {t u : τ}

theorem find?_replace (p : Pool (carrier t)) :
    (d.replace name t p).find? other = (d.find? other).map fun e =>
      if e.name = name ∧ e.type = t then ⟨e.name, t, p⟩ else e := by
  unfold find? replace
  rw [List.find?_map]
  congr 2
  funext e
  dsimp only [Function.comp]
  split <;> rfl

omit [DecidableEq τ] in
theorem name_of_find? {e : Entry τ carrier} (h : d.find? name = some e) : e.name = name := by
  simpa using List.find?_some h

/-- A pool that is put in the place of another is found there. -/
theorem pool?_replace_self {p old : Pool (carrier t)} (h : d.pool? name t = some old) :
    (d.replace name t p).pool? name t = some p := by
  unfold pool? at h ⊢
  rw [find?_replace]
  cases hf : d.find? name with
  | none =>
      rw [hf] at h
      exact absurd h (by simp)
  | some e =>
      rw [hf] at h
      by_cases htype : e.type = t
      · simp [Entry.pool?, name_of_find? hf, htype]
      · exact absurd h (by simp [Entry.pool?, htype])

/-- What is put in one pool's place leaves all other names alone. -/
theorem pool?_replace_ne {p : Pool (carrier t)} (h : other ≠ name) :
    (d.replace name t p).pool? other u = d.pool? other u := by
  unfold pool?
  rw [find?_replace]
  cases hf : d.find? other with
  | none => rfl
  | some e =>
      have hne : ¬(e.name = name ∧ e.type = t) := fun he => h (name_of_find? hf ▸ he.1)
      simp [hne]

/-- Asking for a pool changes nothing, or makes the pool of a name that had none. -/
theorem getOrCreate_cases (d : Directory τ carrier) (name : String) (t : τ) (size : Nat)
    (factory : Nat → Except Error (carrier t)) :
    (d.getOrCreate name t size factory).2 = d
      ∨ (d.find? name = none ∧ (d.getOrCreate name t size factory).2
          = { d with entries := d.entries ++ [⟨name, t, Pool.empty name d.capacity factory⟩] }) := by
  unfold getOrCreate
  cases hf : d.find? name with
  | some e => exact Or.inl rfl
  | none =>
      dsimp only
      unfold insert
      rw [hf]
      unfold Pool.reserve
      cases hroom : Room.reserve (d.capacity * size) with
      | ok u => exact Or.inr ⟨rfl, rfl⟩
      | error f => exact Or.inl rfl

theorem pool?_added_self {p : Pool (carrier t)} (h : d.find? name = none) :
    ({ d with entries := d.entries ++ [⟨name, t, p⟩] } : Directory τ carrier).pool? name t
      = some p := by
  unfold find? at h
  simp [pool?, find?, List.find?_append, h, Entry.pool?]

theorem pool?_added_ne {p : Pool (carrier t)} (h : other ≠ name) :
    ({ d with entries := d.entries ++ [⟨name, t, p⟩] } : Directory τ carrier).pool? other u
      = d.pool? other u := by
  have hlast : (name == other) = false := by simpa using h.symm
  simp [pool?, find?, List.find?_append, hlast]

theorem pool?_of_check (h : d.check name t = .ok ()) : (d.pool? name t).isSome = true := by
  unfold check at h
  unfold pool?
  cases hf : d.find? name with
  | none =>
      rw [hf] at h
      exact absurd h (by simp)
  | some e =>
      rw [hf] at h
      by_cases htype : e.type = t
      · simp [Entry.pool?, htype]
      · exact absurd h (by simp [htype])

/-- A name that was asked for without an error has a pool. -/
theorem pool?_getOrCreate {size : Nat} {factory : Nat → Except Error (carrier t)}
    (h : (d.getOrCreate name t size factory).1 = .ok ()) :
    ((d.getOrCreate name t size factory).2.pool? name t).isSome = true := by
  refine pool?_of_check ?_
  unfold getOrCreate at h ⊢
  cases hf : d.find? name with
  | some e =>
      rw [hf] at h
      exact h
  | none =>
      rw [hf] at h
      dsimp only at h ⊢
      cases hi : d.insert name t size factory with
      | ok added =>
          rw [hi] at h
          exact h
      | error f =>
          rw [hi] at h
          exact absurd h (by simp)

/-- The names that have a pool, and the types of their handles. -/
def kinds (d : Directory τ carrier) : List (String × τ) :=
  d.entries.map fun e => (e.name, e.type)

omit [DecidableEq τ] in
theorem names_eq (d : Directory τ carrier) : d.names = d.kinds.map (·.1) := by
  unfold names kinds
  rw [List.map_map]
  rfl

omit [DecidableEq τ] in
theorem find?_kinds (d : Directory τ carrier) (name : String) :
    (d.find? name).map (fun e => (e.name, e.type)) = d.kinds.find? fun k => k.1 == name := by
  unfold find? kinds
  rw [List.find?_map]
  rfl

omit [DecidableEq τ] in
theorem find?_eq_none_of_kinds (h : d.kinds = d'.kinds) (hn : d.find? name = none) :
    d'.find? name = none := by
  have hk := find?_kinds d name
  rw [h, ← find?_kinds d', hn] at hk
  exact Option.map_eq_none_iff.mp hk.symm

/-- Whether a pool can be used goes by the types. -/
theorem check_of_kinds (h : d.kinds = d'.kinds) : d.check name t = d'.check name t := by
  have hk := find?_kinds d name
  rw [h, ← find?_kinds d'] at hk
  unfold check
  cases hd : d.find? name with
  | none =>
      rw [hd] at hk
      rw [Option.map_eq_none_iff.mp hk.symm]
  | some e =>
      rw [hd] at hk
      obtain ⟨e', he', hsame⟩ := Option.map_eq_some_iff.mp hk.symm
      obtain ⟨_, htype⟩ := Prod.mk.inj hsame
      rw [he']
      dsimp only
      rw [htype]

theorem kinds_replace (pool : Pool (carrier t)) : (d.replace name t pool).kinds = d.kinds := by
  unfold kinds replace
  rw [List.map_map]
  refine List.map_congr_left fun e _ => ?_
  by_cases he : e.name = name ∧ e.type = t
  · simp [he]
  · simp [he]

theorem names_replace (pool : Pool (carrier t)) : (d.replace name t pool).names = d.names := by
  rw [names_eq, kinds_replace, ← names_eq]

/-- The directory with a new pool for a name. -/
def added (d : Directory τ carrier) (name : String) (t : τ)
    (factory : Nat → Except Error (carrier t)) : Directory τ carrier :=
  { d with entries := d.entries ++ [⟨name, t, Pool.empty name d.capacity factory⟩] }

variable {size : Nat} {factory : Nat → Except Error (carrier t)}

omit [DecidableEq τ] in
/-- Whoever comes second leaves the pool as it is. -/
theorem insert_found {e : Entry τ carrier} (hf : d.find? name = some e) :
    d.insert name t size factory = .ok d := by
  unfold insert
  rw [hf]

omit [DecidableEq τ] in
theorem insert_new (hf : d.find? name = none) (room : d.capacity * size ≤ Room.most) :
    d.insert name t size factory = .ok (d.added name t factory) := by
  unfold insert Pool.reserve
  rw [hf, Room.reserve_eq_ok_iff.mpr room]
  rfl

omit [DecidableEq τ] in
theorem insert_short (hf : d.find? name = none) (room : ¬d.capacity * size ≤ Room.most) :
    d.insert name t size factory = .error .unwound := by
  unfold insert Pool.reserve
  rw [hf, Room.reserve_eq_unwound room]
  rfl

theorem check_found {e : Entry τ carrier} (hf : d.find? name = some e) :
    d.check name t
      = if e.type = t then .ok () else .error (.error (.invalidInput (.handleType name))) := by
  unfold check
  rw [hf]

theorem check_added (hf : d.find? name = none) : (d.added name t factory).check name t = .ok () := by
  unfold check added
  unfold find? at hf ⊢
  simp [List.find?_append, hf]

theorem getOrCreate_found {e : Entry τ carrier} (hf : d.find? name = some e) :
    d.getOrCreate name t size factory = (d.check name t, d) := by
  unfold getOrCreate
  rw [hf]

/-- Whoever asks first gets a new pool, if there is room for it. -/
theorem getOrCreate_new (hf : d.find? name = none) (room : d.capacity * size ≤ Room.most) :
    d.getOrCreate name t size factory = (.ok (), d.added name t factory) := by
  unfold getOrCreate
  rw [hf, insert_new hf room]
  exact Prod.ext (check_added hf) rfl

theorem getOrCreate_short (hf : d.find? name = none) (room : ¬d.capacity * size ≤ Room.most) :
    d.getOrCreate name t size factory = (.error .unwound, d) := by
  unfold getOrCreate
  rw [hf, insert_short hf room]

omit [DecidableEq τ] in
theorem kinds_added : (d.added name t factory).kinds = d.kinds ++ [(name, t)] := by
  simp [kinds, added]

end Directory
end PooledCrypto.Pool
