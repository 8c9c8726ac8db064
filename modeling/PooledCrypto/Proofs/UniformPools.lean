import PooledCrypto.Proofs.FailedCalls

/-!
# One capacity for every pool

A directory is given a capacity when it is made and passes it on to each pool it makes, and so do
the pools of MAC keys get theirs. Nothing that is done with a pool afterwards touches its capacity.
So all pools of a session have the capacity that its provider was set up with, whatever commands are
carried out and whatever others do with the directory (`Uniform.moves`).
-/

namespace PooledCrypto

/-! ## A directory -/

namespace Pool

variable {τ : Type} {carrier : τ → Type} {capacity : Nat} {d : Directory τ carrier}

/-- The directory, and every pool in it, has the capacity. -/
structure Directory.Uniform (capacity : Nat) (d : Directory τ carrier) : Prop where
  directory : d.capacity = capacity
  entries : ∀ e ∈ d.entries, e.pool.capacity = capacity

namespace Directory.Uniform

variable [DecidableEq τ]

/-- So has the pool that is found by a name and a type. -/
theorem pool? (h : d.Uniform capacity) {name : String} {t : τ} {p : Pool (carrier t)}
    (hp : d.pool? name t = some p) : p.capacity = capacity := by
  unfold Directory.pool? at hp
  obtain ⟨e, he, hp⟩ := Option.bind_eq_some_iff.mp hp
  have hcapacity := h.entries e (List.mem_of_find?_eq_some he)
  obtain ⟨name, type, pool⟩ := e
  unfold Entry.pool? at hp
  split at hp
  -- the entry is of that type, and what is found is its pool
  · rename_i htype
    obtain rfl : type = t := htype
    obtain rfl : pool = p := Option.some.inj hp
    exact hcapacity
  · exact absurd hp (by simp)

/-- A pool that is made gets the capacity of the directory. -/
theorem getOrCreate (h : d.Uniform capacity) (name : String) (t : τ) (handleBytes : Nat)
    (factory : Nat → Except Error (carrier t)) :
    (d.getOrCreate name t handleBytes factory).2.Uniform capacity := by
  rcases getOrCreate_cases d name t handleBytes factory with hsame | ⟨_, hadded⟩
  · rw [hsame]
    exact h
  · rw [hadded]
    refine ⟨h.directory, fun e he => ?_⟩
    rcases List.mem_append.mp he with he | he
    · exact h.entries e he
    · obtain rfl := List.mem_singleton.mp he
      exact h.directory

/-- A pool may be put back in any state, as long as its capacity is the same. -/
theorem replace (h : d.Uniform capacity) (name : String) (t : τ) {p : Pool (carrier t)}
    (hp : p.capacity = capacity) : (d.replace name t p).Uniform capacity := by
  refine ⟨h.directory, fun e he => ?_⟩
  obtain ⟨old, hold, heq⟩ := List.mem_map.mp he
  split at heq
  · subst heq
    exact hp
  · subst heq
    exact h.entries old hold

end Directory.Uniform
end Pool

/-! ## A state -/

namespace Provider

variable {capacity : Nat} {s s' : State}

/-- All pools of the state have the capacity, those that are found by name and those of MAC keys. -/
structure State.Uniform (capacity : Nat) (s : State) : Prop where
  named : s.pools.Uniform capacity
  mac : ∀ pool ∈ s.macPools, pool.capacity = capacity

namespace State.Uniform

/-- The same for the pools of MAC keys, which are found by their numbers. -/
theorem set_mac (h : s.Uniform capacity) (number : Nat) {new : Pool Mac.Context}
    (hnew : new.capacity = capacity) :
    State.Uniform capacity { s with macPools := s.macPools.set number new } := by
  refine ⟨h.named, fun pool hpool => ?_⟩
  rcases List.mem_or_eq_of_mem_set hpool with hold | rfl
  · exact h.mac pool hold
  · exact hnew

/-- A loan takes a handle out of its pool, or has one made. Neither is a matter of capacity. -/
theorem borrow (h : s.Uniform capacity) (source : Source) :
    (Provider.borrow source s).2.Uniform capacity := by
  rw [snd_borrow]
  cases source with
  | digest kind =>
      cases hpool : s.pools.pool? kind.name .digest with
      | none =>
          rw [checkout_digest_none hpool]
          exact h
      | some pool =>
          rw [checkout_digest hpool]
          exact ⟨h.named.replace _ _ ((Pool.capacity_checkout pool).trans (h.named.pool? hpool)),
            h.mac⟩
  | mac number =>
      cases hpool : s.macPools[number]? with
      | none =>
          rw [checkout_mac_none hpool]
          exact h
      | some pool =>
          rw [checkout_mac hpool]
          exact h.set_mac number
            ((Pool.capacity_checkout pool).trans (h.mac pool (List.mem_of_getElem? hpool)))

/-- What is given back is kept or dropped by the capacity there is. -/
theorem giveBack (h : s.Uniform capacity) (loan : Loan) :
    (s.giveBack loan).Uniform capacity := by
  unfold State.giveBack
  cases loan with
  | digest name handle =>
      dsimp only
      cases hpool : s.pools.pool? name .digest with
      | none => exact h
      | some pool =>
          exact ⟨h.named.replace _ _
            ((Pool.capacity_release pool handle).trans (h.named.pool? hpool)), h.mac⟩
  | mac number handle =>
      dsimp only
      cases hpool : s.macPools[number]? with
      | none => exact h
      | some pool =>
          exact h.set_mac number
            ((Pool.capacity_release pool handle).trans (h.mac pool (List.mem_of_getElem? hpool)))

/-- A computation borrows and gives back. One that cannot borrow has changed its pool already, since
the factory was called. -/
theorem compute (h : s.Uniform capacity) (source : Source) (data : Bytes) :
    (Provider.compute source data s).2.Uniform capacity := by
  have hmid := h.borrow source
  rcases compute_cases source data s with ⟨f, after, hb, hout⟩ | ⟨loan, after, hb, hout⟩
  · rw [hb] at hmid
    rw [hout]
    exact hmid
  · rw [hb] at hmid
    rw [hout]
    exact hmid.giveBack _

/-- The pool of a new key gets the capacity of the directory. -/
theorem openMacPool (h : s.Uniform capacity) (kind : Digest.Kind) (key : Bytes) :
    (Provider.openMacPool kind key s).2.Uniform capacity := by
  unfold Provider.openMacPool Pool.reserve
  cases Room.reserve (s.pools.capacity * macContextSize) with
  | error f => exact h
  | ok u =>
      refine ⟨h.named, fun pool hpool => ?_⟩
      rcases List.mem_append.mp hpool with hpool | hpool
      · exact h.mac pool hpool
      · obtain rfl := List.mem_singleton.mp hpool
        exact h.named.directory

/-- Opening pools is what makes new ones. -/
theorem opens (h : s.Uniform capacity) (ho : Opens s s') : s'.Uniform capacity := by
  induction ho with
  | refl => exact h
  | draw entropy _ ih => exact ⟨ih.named, ih.mac⟩
  | digest kind _ ih => exact ⟨ih.named.getOrCreate _ _ _ _, ih.mac⟩
  | mac kind key _ ih => exact ih.openMacPool kind key

end State.Uniform

/-- At first there are no pools. -/
theorem uniform_start (executor : Executor) (entropy : Entropy) (capacity : Nat) :
    (State.start executor entropy capacity).Uniform capacity where
  named := ⟨rfl, by simp [State.start, Pool.Directory.empty]⟩
  mac := by simp [State.start]

end Provider

/-! ## A session -/

namespace Session

open Provider

variable {capacity : Nat} {s t : Session} {es : List Event}

/-- All pools of the session's provider have the capacity. -/
abbrev Uniform (capacity : Nat) (s : Session) : Prop := s.provider.state.Uniform capacity

/-- An item that is released gives back what it holds. -/
theorem uniform_release {st : State} (h : st.Uniform capacity) (item : Item) :
    (item.release st).Uniform capacity := by
  unfold Item.release
  cases item.loan? with
  | none => exact h
  | some loan => exact h.giveBack loan

namespace Uniform

/-- What is in a slot is released when it is dropped. -/
theorem discard (h : s.Uniform capacity) (name : String) : (s.discard name).Uniform capacity := by
  unfold Session.Uniform Session.discard
  dsimp only
  cases s.slots.get? name with
  | none => exact h
  | some old => exact uniform_release h old

/-- What is kept takes the place of something else, or is released at once where there is no place
for it. -/
theorem keep (h : s.Uniform capacity) (dest : Option String) (item : Item) :
    (Session.keep dest item s).2.Uniform capacity := by
  cases dest with
  | none => exact uniform_release h item
  | some name => exact h.discard name

/-- Of the parts of commands, some open pools and some borrow; feeding a function touches no pool.
-/
theorem part (h : s.Uniform capacity) (hp : Part s es t) : t.Uniform capacity := by
  cases hp with
  | prepare _ state => exact State.Uniform.opens h state
  | seed name type _ _ state =>
      rw [Session.Uniform, state]
      exact ⟨h.named.getOrCreate _ _ _ _, h.mac⟩
  | call source data _ _ state =>
      rw [Session.Uniform, state]
      exact State.Uniform.compute h source data
  -- here the factory was called in vain
  | miss source f _ borrowed =>
      have hmid := State.Uniform.borrow h source
      rwa [borrowed] at hmid
  | @start source loan st item dest borrowed _ _ =>
      have hmid := State.Uniform.borrow h source
      rw [borrowed] at hmid
      exact keep (s := { s with provider.state := st }) hmid dest item
  | fill dest item _ _ => exact h.keep dest item
  | discard name => exact h.discard name
  | feed _ _ _ _ => exact h
  | @close name old item _ _ _ => exact uniform_release h old

theorem parts (h : s.Uniform capacity) (hp : Parts s es t) : t.Uniform capacity := by
  induction hp with
  | nil => exact h
  | snoc _ hpart ih => exact ih.part hpart

/-- Others may ask the directory for pools of their own, and use what pools they find. -/
theorem move (h : s.Uniform capacity) (hs : s.Sound) (m : Move) : (s.move m).Uniform capacity := by
  cases m with
  | command c => exact h.parts (parts_step hs c)
  | ask name type handleBytes factory => exact ⟨h.named.getOrCreate _ _ _ _, h.mac⟩
  | use name type use =>
      unfold Session.move
      dsimp only
      split
      · exact h
      -- no use of a pool changes what it was made with
      · rename_i pool hpool
        exact ⟨h.named.replace _ _ ((use.made pool).2.1.trans (h.named.pool? hpool)), h.mac⟩

/-- **All pools of a session keep the capacity**, through any commands and whatever others do. -/
theorem moves (h : s.Uniform capacity) (ho : s.Orderly) (ms : List Move) :
    (s.moves ms).Uniform capacity := by
  induction ms generalizing s with
  | nil => exact h
  | cons m rest ih => exact ih (h.move ho.sound m) (ho.move m)

end Uniform
end Session
end PooledCrypto
