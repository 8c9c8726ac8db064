import PooledCrypto.Proofs.Decomposition

/-!
# Digest pools are counters

How many contexts a digest pool keeps idle can be told without looking at any context. `count` is a
plain counter that goes by the events of a run: it starts at 0, a function that is opened takes one
off, one that ends puts one back up to the capacity, and a call leaves at least one behind if any may
be kept. The pool does what the counter does.

Beside the idle ones the invariant counts what is lent. Whatever the factory has made is idle, lent
to a function that is not released yet, or destroyed, so no context is ever lost on the way. All this
is for pools that were not made from outside, where a foreign factory may be at work.
-/

namespace PooledCrypto.Provider

/-- How many contexts the digest pool of a name keeps idle. -/
def State.idle (s : State) (name : String) : Nat :=
  ((s.pools.pool? name .digest).map (·.idle.length)).getD 0

/-- How many contexts that pool has made that are neither idle nor destroyed. -/
def State.lentOut (s : State) (name : String) : Nat :=
  ((s.pools.pool? name .digest).map fun pool =>
    pool.attempts - pool.idle.length - pool.destroyed.length).getD 0

/-- A pool of a digest, with how many contexts are lent from it and how many are idle. -/
structure Counted (kind : Digest.Kind) (capacity : Nat) (pool : Pool Digest.Context)
    (out idle : Nat) : Prop where
  capacity_eq : pool.capacity = capacity
  factory : ∀ k, pool.factory k = .ok (.fresh kind)
  idle_eq : pool.idle.length = idle
  bounded : idle ≤ capacity
  made : pool.attempts = idle + out + pool.destroyed.length

/-- The same of a state, which may not have the pool yet. -/
structure Stock (kind : Digest.Kind) (capacity : Nat) (s : State) (out idle : Nat) : Prop where
  capacity_eq : s.pools.capacity = capacity
  pool : (s.pools.find? kind.name = none ∧ out = 0 ∧ idle = 0)
    ∨ ∃ pool, s.pools.pool? kind.name .digest = some pool ∧ Counted kind capacity pool out idle

variable {s s' : State} {source : Source} {loan : Loan} {kind : Digest.Kind}
  {pool : Pool Digest.Context} {capacity out idle : Nat}

/-! ## One pool -/

theorem counted_empty (kind : Digest.Kind) (name : String) (capacity : Nat) :
    Counted kind capacity (Pool.empty name capacity fun _ => .ok (.fresh kind)) 0 0 where
  capacity_eq := rfl
  factory _ := rfl
  idle_eq := rfl
  bounded := Nat.zero_le _
  made := rfl

/-- A checkout gives a context, an idle one if there is any. -/
theorem Counted.checkout (hc : Counted kind capacity pool out idle) :
    ∃ h pool', pool.checkout = (.ok h, pool')
      ∧ Counted kind capacity pool' (out + 1) (idle - 1) := by
  have hidle := hc.idle_eq
  have hmade := hc.made
  rcases Pool.checkout_cases pool with ⟨h, rest, hrest, hout⟩ | ⟨hnone, v, _, hout⟩
    | ⟨_, e, he, _⟩
  · rw [hrest, List.length_cons] at hidle
    refine ⟨h, _, hout, hc.capacity_eq, hc.factory, ?_, ?_, ?_⟩
    · show rest.length = idle - 1
      omega
    · have := hc.bounded
      omega
    · show pool.attempts = _
      dsimp only
      omega
  -- with nothing idle all contexts that were made are out, and one more is made
  · rw [hnone, List.length_nil] at hidle
    refine ⟨_, _, hout, hc.capacity_eq, hc.factory, ?_, ?_, ?_⟩
    · show pool.idle.length = idle - 1
      rw [hnone, List.length_nil]
      omega
    · omega
    · show pool.attempts + 1 = _
      dsimp only
      omega
  · rw [hc.factory] at he
    exact absurd he (by simp)

/-- A context that comes back is idle again, unless the pool is full. -/
theorem Counted.release (hc : Counted kind capacity pool (out + 1) idle)
    (h : Handle Digest.Context) :
    Counted kind capacity (pool.release h) out (min (idle + 1) capacity) := by
  have hbounded := hc.bounded
  have hidle := hc.idle_eq
  have hmade := hc.made
  have hcapacity := hc.capacity_eq
  refine ⟨by simpa using hcapacity, fun k => ?_, ?_, by omega, ?_⟩
  · rw [Pool.factory_release]
    exact hc.factory k
  · rw [Pool.length_idle_release pool h (by omega), hidle, hcapacity]
  · unfold Pool.release
    split
    · dsimp only
      omega
    · dsimp only [List.length_cons]
      omega

/-! ## One state -/

/-- Only the pools matter. -/
theorem Stock.of_pools (hs : Stock kind capacity s out idle) (h : s'.pools = s.pools) :
    Stock kind capacity s' out idle := by
  obtain ⟨hcapacity, hpool⟩ := hs
  rw [← h] at hcapacity hpool
  exact ⟨hcapacity, hpool⟩

theorem find?_isNone_replace {name other : String} {p : Pool Digest.Context} {d : Pools} :
    (d.replace name .digest p).find? other = none ↔ d.find? other = none := by
  rw [Pool.Directory.find?_replace, Option.map_eq_none_iff]

/-- What happens in the pool of another name is of no account. -/
theorem Stock.replace_ne (hs : Stock kind capacity s out idle) {name : String}
    {p : Pool Digest.Context} (hne : name ≠ kind.name) :
    Stock kind capacity { s with pools := s.pools.replace name .digest p } out idle where
  capacity_eq := hs.capacity_eq
  pool := by
    rcases hs.pool with ⟨hnone, hzero⟩ | ⟨pool, hpool, hc⟩
    · exact Or.inl ⟨find?_isNone_replace.mpr hnone, hzero⟩
    · exact Or.inr ⟨pool, (Pool.Directory.pool?_replace_ne hne.symm).trans hpool, hc⟩

theorem Stock.replace_self (hs : Stock kind capacity s out idle) {old p : Pool Digest.Context}
    (hold : s.pools.pool? kind.name .digest = some old) {out' idle' : Nat}
    (hp : Counted kind capacity p out' idle') :
    Stock kind capacity { s with pools := s.pools.replace kind.name .digest p } out' idle' where
  capacity_eq := hs.capacity_eq
  pool := Or.inr ⟨p, Pool.Directory.pool?_replace_self hold, hp⟩

theorem Stock.counted (hs : Stock kind capacity s out idle)
    (hpool : s.pools.pool? kind.name .digest = some pool) :
    Counted kind capacity pool out idle := by
  rcases hs.pool with ⟨hnone, _⟩ | ⟨own, hown, hc⟩
  · rw [Pool.Directory.pool?, hnone] at hpool
    exact absurd hpool (by simp)
  · obtain rfl : own = pool := Option.some.inj (hown.symm.trans hpool)
    exact hc

/-- A pool that is made starts without contexts. -/
theorem Stock.getOrCreate (hs : Stock kind capacity s out idle) (name : String) (t : HandleType)
    (size : Nat) (factory : Nat → Except Error t.carrier)
    (hf : name = kind.name → ∃ h : t = .digest, h ▸ factory = fun _ => .ok (.fresh kind)) :
    Stock kind capacity { s with pools := (s.pools.getOrCreate name t size factory).2 } out
      idle := by
  rcases Pool.Directory.getOrCreate_cases s.pools name t size factory with hsame | ⟨hnone, hadded⟩
  · exact hs.of_pools hsame
  · refine ⟨?_, ?_⟩
    · rw [hadded]
      exact hs.capacity_eq
    · rw [hadded]
      by_cases hname : name = kind.name
      · -- it is the pool of the digest, so there was none before
        obtain ⟨rfl, rfl⟩ := hf hname
        subst hname
        refine Or.inr ⟨_, Pool.Directory.pool?_added_self hnone, ?_⟩
        rcases hs.pool with ⟨_, rfl, rfl⟩ | ⟨pool, hpool, _⟩
        · rw [hs.capacity_eq]
          exact counted_empty kind kind.name capacity
        · rw [Pool.Directory.pool?, hnone] at hpool
          exact absurd hpool (by simp)
      · have hne : kind.name ≠ name := fun he => hname he.symm
        rcases hs.pool with ⟨habsent, hzero⟩ | ⟨pool, hpool, hc⟩
        · refine Or.inl ⟨?_, hzero⟩
          have hlast : (name == kind.name) = false := by simpa using hname
          unfold Pool.Directory.find? at habsent ⊢
          simp [List.find?_append, habsent, hlast]
        · exact Or.inr ⟨pool, (Pool.Directory.pool?_added_ne hne).trans hpool, hc⟩

theorem Stock.opens (hs : Stock kind capacity s out idle) (h : Opens s s') :
    Stock kind capacity s' out idle := by
  induction h with
  | refl => exact hs
  | draw entropy _ ih => exact ih.of_pools rfl
  | digest own _ ih =>
      refine ih.getOrCreate own.name .digest _ _ fun hname => ⟨rfl, ?_⟩
      rw [Digest.Kind.name_injective hname]
  | mac own key _ ih =>
      refine ih.of_pools ?_
      unfold openMacPool
      dsimp only
      split <;> rfl

/-! ## Contexts that leave the pool and come back -/

theorem eq_digest_of_pool? (h : source.pool? = some kind.name) : source = .digest kind := by
  cases source with
  | mac number => exact absurd h (by simp [Source.pool?])
  | digest own => rw [Digest.Kind.name_injective (Option.some.inj h)]

/-- What is borrowed elsewhere, or comes back there, is of no account. -/
theorem Stock.exchanges {name? : Option String} (hs : Stock kind capacity s out idle)
    (h : Exchanges name? s s') (hother : name? ≠ some kind.name) :
    Stock kind capacity s' out idle := by
  induction h with
  | refl => exact hs
  | digest _ own _ _ ih => exact ih.replace_ne fun he => hother (own.trans (congrArg some he))
  | mac _ _ _ _ ih => exact ih.of_pools rfl

/-- A pool that is there lends a context, an idle one if it has any. -/
theorem Stock.borrow_own (hs : Stock kind capacity s out idle)
    (hstands : (Source.digest kind).Stands s) :
    ∃ loan s', borrow (.digest kind) s = (.ok loan, s')
      ∧ Stock kind capacity s' (out + 1) (idle - 1) := by
  obtain ⟨pool, hpool⟩ := Option.isSome_iff_exists.mp hstands
  obtain ⟨h, pool', hout, hc⟩ := (hs.counted hpool).checkout
  refine ⟨(Loan.digest kind.name h).reset, _, Action.bind_of_ok ?_, hs.replace_self hpool hc⟩
  rw [checkout_digest hpool, hout]
  rfl

/-- Only where there is no pool a borrowing can fail. -/
theorem Stock.borrow_error {f : Failure} (hs : Stock kind capacity s out idle)
    (hb : borrow source s = (.error f, s')) : Stock kind capacity s' out idle := by
  obtain rfl : (borrow source s).2 = s' := congrArg Prod.snd hb
  by_cases hown : source.pool? = some kind.name
  · obtain rfl := eq_digest_of_pool? hown
    cases hpool : s.pools.pool? kind.name .digest with
    | none =>
        rw [snd_borrow, checkout_digest_none hpool]
        exact hs
    | some pool =>
        obtain ⟨loan, s₁, hok, _⟩ := hs.borrow_own (Option.isSome_iff_exists.mpr ⟨pool, hpool⟩)
        rw [hok] at hb
        exact absurd (congrArg Prod.fst hb) (by simp)
  · exact hs.exchanges (exchanges_borrow source s) hown

theorem Stock.giveBack_own (hs : Stock kind capacity s (out + 1) idle)
    (hown : loan.pool? = some kind.name) :
    Stock kind capacity (s.giveBack loan) out (min (idle + 1) capacity) := by
  cases loan with
  | mac number h => exact absurd hown (by simp [Loan.pool?])
  | digest name h =>
      obtain rfl : name = kind.name := Option.some.inj hown
      rcases hs.pool with ⟨_, hzero, _⟩ | ⟨pool, hpool, hc⟩
      · exact absurd hzero (by simp)
      · unfold State.giveBack
        dsimp only
        rw [hpool]
        exact hs.replace_self hpool (hc.release h)

/-- What is borrowed for one call comes back, and may be the first that is kept. -/
theorem Stock.compute_own {data : Bytes} (hs : Stock kind capacity s out idle)
    (hstands : (Source.digest kind).Stands s) :
    Stock kind capacity (compute (.digest kind) data s).2 out (max idle (min 1 capacity)) := by
  obtain ⟨loan, s₁, hb, hmid⟩ := hs.borrow_own hstands
  have hown : loan.pool? = some kind.name := (of_borrow hb).2
  have hback : (loan.update data).finish.2.pool? = some kind.name := by
    cases loan <;> exact hown
  -- one off and one back; without an idle one, the one that comes back was made for the call
  have hidle : min (idle - 1 + 1) capacity = max idle (min 1 capacity) := by
    rcases hs.pool with ⟨_, _, rfl⟩ | ⟨pool, _, hc⟩
    · omega
    · have := hc.bounded
      omega
  rcases compute_cases (.digest kind) data s with ⟨f, s₂, hf, _⟩ | ⟨own, s₂, ho, hout⟩
  · rw [hb] at hf
    exact absurd (congrArg Prod.fst hf) (by simp)
  · obtain ⟨hsame, rfl⟩ := Prod.mk.inj (hb.symm.trans ho)
    obtain rfl := Except.ok.inj hsame
    rw [hout, ← hidle]
    exact hmid.giveBack_own hback

end PooledCrypto.Provider

namespace PooledCrypto.Session

open Provider

/-! ## The counter -/

/-- How many contexts are idle after an event, in the pool of a name with a capacity. -/
def Event.count (name : String) (capacity idle : Nat) : Event → Nat
  | .called pool => if pool = name then max idle (min 1 capacity) else idle
  | .opened pool => if pool = name then idle - 1 else idle
  | .ended pool => if pool = name then min (idle + 1) capacity else idle
  | .seeded _ => idle

/-- How many contexts of the pool of a name the items in slots hold. -/
def Slots.bound (slots : Slots) (name : String) : Nat :=
  slots.countP fun e => e.2.bound? == some name

/-- One if the item holds a context of the pool. -/
def Item.bound (item : Item) (name : String) : Nat := if item.bound? = some name then 1 else 0

/-- The item is a function that hashes, signs or verifies and was not closed yet. -/
def Item.Unreleased : Item → Prop
  | .hashing f _ => f.stage ≠ .closed
  | .signing f _ => f.stage ≠ .closed
  | .verifying f => f.stage ≠ .closed
  | _ => False

/-- The pool of a digest is what the counter says, and has lent what the slots hold. -/
structure Tallied (kind : Digest.Kind) (capacity : Nat) (s : Session) (idle : Nat) : Prop where
  names : (s.slots.map (·.1)).Nodup
  stock : Stock kind capacity s.provider.state (s.slots.bound kind.name) idle

variable {s s' t : Session} {es : List Event} {slots : Slots} {name : String} {item old : Item}
  {st : State} {kind : Digest.Kind} {capacity out idle : Nat}

theorem bound_put (slots : Slots) (name : String) (item : Item) (kind : Digest.Kind) :
    (slots.put name item).bound kind.name
      = (slots.erase name).bound kind.name + item.bound kind.name := by
  unfold Slots.bound Slots.put Item.bound
  rw [List.countP_cons]
  simp

/-- A slot and the others. -/
theorem bound_erase (hn : (slots.map (·.1)).Nodup) (hg : slots.get? name = some item) :
    slots.bound kind.name = (slots.erase name).bound kind.name + item.bound kind.name := by
  rw [← bound_put]
  exact (Slots.perm_erase hn hg).countP_eq _

/-- An event in another pool leaves the counter as it is. -/
theorem foldl_count_other {pool? : Option String} {event : String → Event}
    (hevent : ∀ pool, pool ≠ kind.name → (event pool).count kind.name capacity idle = idle)
    (hother : pool? ≠ some kind.name) :
    (pool?.toList.map event).foldl (Event.count kind.name capacity) idle = idle := by
  cases pool? with
  | none => rfl
  | some pool => exact hevent pool fun he => hother (congrArg some he)

/-- The counter after an item was released. -/
abbrev released (kind : Digest.Kind) (capacity idle : Nat) (item : Item) : Nat :=
  (item.bound?.toList.map Event.ended).foldl (Event.count kind.name capacity) idle

theorem stock_release (hs : Stock kind capacity st (out + item.bound kind.name) idle) :
    Stock kind capacity (item.release st) out (released kind capacity idle item) := by
  unfold Item.release Item.bound Item.bound? at *
  cases hl : item.loan? with
  | none =>
      rw [hl] at hs
      simpa [hl, released, Item.bound?] using hs
  | some loan =>
      simp only [hl, Option.bind_some, released, Item.bound?] at hs ⊢
      by_cases hown : loan.pool? = some kind.name
      · rw [if_pos hown] at hs
        rw [hown]
        simpa [Event.count] using hs.giveBack_own hown
      · rw [if_neg hown] at hs
        rw [foldl_count_other (fun pool hne => by simp [Event.count, hne]) hown]
        exact hs.exchanges (exchanges_giveBack st loan) hown

/-! ## The counter goes with every part -/

/-- When a slot is emptied or filled anew, what it held comes back; what is lent besides stays so. -/
theorem stock_vacate (name : String) (hn : (s.slots.map (·.1)).Nodup)
    (hs : Stock kind capacity s.provider.state (out + s.slots.bound kind.name) idle) :
    Stock kind capacity (s.discard name).provider.state
      (out + (s.slots.erase name).bound kind.name)
      ((s.ends name).foldl (Event.count kind.name capacity) idle) := by
  unfold discard ends item?
  dsimp only
  cases hg : s.slots.get? name with
  | none =>
      rw [Slots.erase_of_get?_none hg]
      exact hs
  | some old =>
      rw [bound_erase hn hg, ← Nat.add_assoc] at hs
      exact stock_release hs

/-- What nobody keeps is released at once. -/
theorem tallied_keep (dest : Option String) (hn : (s.slots.map (·.1)).Nodup)
    (hs : Stock kind capacity s.provider.state (s.slots.bound kind.name + item.bound kind.name)
      idle) :
    Tallied kind capacity (keep dest item s).2
      ((match dest with
        | some name => s.ends name
        | none => item.bound?.toList.map .ended).foldl (Event.count kind.name capacity) idle) := by
  cases dest with
  | none => exact ⟨hn, stock_release hs⟩
  | some name =>
      refine ⟨Slots.names_put hn, ?_⟩
      show Stock kind capacity (s.discard name).provider.state
        ((s.slots.put name item).bound kind.name) _
      rw [bound_put, Nat.add_comm]
      rw [Nat.add_comm] at hs
      exact stock_vacate name hn hs

theorem bound_of_free (h : item.loan? = none) (name : String) :
    item.bound? = none ∧ item.bound name = 0 := by
  have hnone : item.bound? = none := by simp [Item.bound?, h]
  exact ⟨hnone, by simp [Item.bound, hnone]⟩

/-- **Every part does to the pool what its events do to the counter.** -/
theorem Part.tallied (h : Part s es t) (hs : Tallied kind capacity s idle)
    (hown : .seeded kind.name ∉ es) :
    Tallied kind capacity t (es.foldl (Event.count kind.name capacity) idle) := by
  obtain ⟨hn, hstock⟩ := hs
  cases h with
  | prepare slots state =>
      refine ⟨slots ▸ hn, ?_⟩
      rw [slots]
      exact hstock.opens state
  | seed name type slots none state =>
      have hne : name ≠ kind.name := by
        rintro rfl
        exact hown (by simp)
      refine ⟨slots ▸ hn, ?_⟩
      rw [slots, state]
      exact hstock.getOrCreate name type _ _ fun he => absurd he hne
  | call source data stands slots state =>
      refine ⟨slots ▸ hn, ?_⟩
      rw [slots, state]
      by_cases hsource : source.pool? = some kind.name
      · obtain rfl := eq_digest_of_pool? hsource
        simpa [Source.pool?, Event.count] using hstock.compute_own stands
      · rw [foldl_count_other (fun pool hne => by simp [Event.count, hne]) hsource]
        exact hstock.exchanges (exchanges_compute source data _) hsource
  | miss source f slots borrowed =>
      refine ⟨slots ▸ hn, ?_⟩
      rw [slots]
      exact hstock.borrow_error borrowed
  | @start source loan st item dest borrowed held _ =>
      have hbound : item.bound? = source.pool? := by
        rw [Item.bound?, held]
        exact (of_borrow borrowed).2
      -- the context is lent before the slot that the item goes to is emptied
      have hmid : Stock kind capacity st (s.slots.bound kind.name + item.bound kind.name)
          ((source.pool?.toList.map .opened).foldl (Event.count kind.name capacity) idle) := by
        unfold Item.bound
        rw [hbound]
        by_cases hsource : source.pool? = some kind.name
        · obtain rfl := eq_digest_of_pool? hsource
          obtain ⟨own, st', hb, hlent⟩ := hstock.borrow_own ((of_borrow borrowed).1)
          obtain rfl : st' = st := congrArg Prod.snd (hb.symm.trans borrowed)
          simpa [Source.pool?, Event.count] using hlent
        · rw [foldl_count_other (fun pool hne => by simp [Event.count, hne]) hsource,
            if_neg hsource]
          have hother := hstock.exchanges (exchanges_borrow source s.provider.state) hsource
          rw [borrowed] at hother
          exact hother
      have hkept := tallied_keep (s := { s with provider.state := st }) dest hn hmid
      rw [List.foldl_append]
      cases dest with
      | none =>
          rw [hbound] at hkept
          exact hkept
      | some name => exact hkept
  | fill dest item free _ =>
      obtain ⟨hnone, hzero⟩ := bound_of_free free kind.name
      have hlent : Stock kind capacity s.provider.state
          (s.slots.bound kind.name + item.bound kind.name) idle := by
        rw [hzero]
        exact hstock
      have hkept := tallied_keep dest hn hlent
      cases dest with
      | none =>
          rw [hnone] at hkept
          exact hkept
      | some name => simpa using hkept
  | discard name =>
      refine ⟨Slots.names_erase hn, ?_⟩
      rw [← Nat.zero_add (s.slots.bound kind.name)] at hstock
      have hout := stock_vacate name hn hstock
      rw [Nat.zero_add] at hout
      exact hout
  | @feed name old item found held _ =>
      refine ⟨Slots.names_put hn, ?_⟩
      show Stock kind capacity s.provider.state ((s.slots.put name item).bound kind.name) idle
      -- a function that is fed stays with its pool, so the slots hold as many as before
      have hsame : item.bound kind.name = old.bound kind.name := by
        unfold Item.bound
        rw [bound?_of_held held]
      rw [bound_put, hsame, ← bound_erase hn found]
      exact hstock
  | @close name old item found free _ =>
      refine ⟨Slots.names_put hn, ?_⟩
      show Stock kind capacity (old.release s.provider.state)
        ((s.slots.put name item).bound kind.name) _
      have hends : s.ends name = old.bound?.toList.map .ended := by
        unfold ends item?
        rw [found]
        rfl
      rw [bound_erase hn found] at hstock
      rw [bound_put, (bound_of_free free _).2, Nat.add_zero, hends]
      exact stock_release hstock

theorem Parts.tallied (h : Parts s es t) (hs : Tallied kind capacity s idle)
    (hown : .seeded kind.name ∉ es) :
    Tallied kind capacity t (es.foldl (Event.count kind.name capacity) idle) := by
  induction h with
  | nil => exact hs
  | snoc _ hpart ih =>
      rw [List.mem_append, not_or] at hown
      rw [List.foldl_append]
      exact hpart.tallied (ih hown.1) hown.2

/-! ## Every run -/

/-- The digest pool of a session is as a counter has it. -/
structure Counts (kind : Digest.Kind) (capacity : Nat) (s : Session) (idle : Nat) : Prop where
  idle_eq : s.provider.state.idle kind.name = idle
  bounded : idle ≤ capacity
  /-- What is lent is with the functions in slots. -/
  lentOut : s.provider.state.lentOut kind.name = s.slots.bound kind.name
  /-- Every context that was made is idle, lent or destroyed, and the factory never failed. -/
  made : ∀ pool, s.provider.state.pools.pool? kind.name .digest = some pool →
    pool.capacity = capacity
      ∧ pool.attempts = idle + s.slots.bound kind.name + pool.destroyed.length
  /-- A function holds its context until it is closed, whatever became of it before. -/
  holds : ∀ name item, (name, item) ∈ s.slots → (item.loan?.isSome = true ↔ item.Unreleased)

theorem Item.Sound.holds (hi : item.Sound st) : item.loan?.isSome = true ↔ item.Unreleased := by
  cases item with
  | hashing f drawn => exact hi
  | signing f drawn =>
      have hheld : f.core.isSome = true ↔ f.stage ≠ .closed := hi
      simpa [Item.loan?, Streaming.Function.close, Item.Unreleased] using hheld
  | verifying f =>
      have hheld : f.core.isSome = true ↔ f.stage ≠ .closed := hi
      simpa [Item.loan?, Streaming.Function.close, Item.Unreleased] using hheld
  | _ => simp [Item.loan?, Item.Unreleased]

theorem Tallied.counts (h : Tallied kind capacity s idle) (hs : s.Sound) :
    Counts kind capacity s idle := by
  have hholds : ∀ name item, (name, item) ∈ s.slots →
      (item.loan?.isSome = true ↔ item.Unreleased) := fun name item hm => (hs name item hm).holds
  rcases h.stock.pool with ⟨hnone, hbound, rfl⟩ | ⟨pool, hpool, hc⟩
  -- no pool yet, so nothing was ever lent from it
  · have hmissing : s.provider.state.pools.pool? kind.name .digest = none := by
      rw [Pool.Directory.pool?, hnone]
      rfl
    refine ⟨?_, Nat.zero_le _, ?_, fun pool hpool => ?_, hholds⟩
    · rw [State.idle, hmissing]
      rfl
    · rw [State.lentOut, hmissing, hbound]
      rfl
    · rw [hmissing] at hpool
      exact absurd hpool (by simp)
  · have hmade := hc.made
    refine ⟨?_, hc.bounded, ?_, fun own hown => ?_, hholds⟩
    · rw [State.idle, hpool]
      exact hc.idle_eq
    · rw [State.lentOut, hpool]
      show pool.attempts - pool.idle.length - pool.destroyed.length = _
      rw [hc.idle_eq]
      omega
    · obtain rfl : pool = own := Option.some.inj (hpool.symm.trans hown)
      exact ⟨hc.capacity_eq, hmade⟩

theorem tallied_start (kind : Digest.Kind) (executor : Executor) (entropy : Entropy)
    (capacity : Nat) :
    Tallied kind capacity (start (software (State.start executor entropy capacity))) 0 where
  names := List.nodup_nil
  stock := ⟨rfl, Or.inl ⟨rfl, rfl, rfl⟩⟩

/-- **The digest pools are counters.**

Start the provider in software on any executor, with pools of any capacity, and carry out any
commands. As long as nobody makes the pool of a digest from outside, that pool has exactly as many
idle contexts as a counter that went by the events of the run, and no context is lost: what the pool
has lent is what the functions hold that are not closed. -/
theorem digest_pools_count (executor : Executor) (entropy : Entropy) (capacity : Nat)
    (kind : Digest.Kind) (commands : List Command)
    (hown : .seeded kind.name ∉ history commands
      (start (software (State.start executor entropy capacity)))) :
    let s₀ := start (software (State.start executor entropy capacity))
    Counts kind capacity (run commands s₀).2
      ((history commands s₀).foldl (Event.count kind.name capacity) 0) := by
  intro s₀
  have hsound : s₀.Sound := sound_start executor entropy capacity
  have hparts := parts_run hsound commands
  have htally := hparts.tallied (tallied_start kind executor entropy capacity) hown
  exact htally.counts (hparts.sound hsound)

/-- Two functions share a pool that keeps one context. The first is closed and its context goes round
once more in a call; that of the second is one too many when it is dropped. -/
theorem digest_pools_count_shared :
    let s₀ := start (software (State.start .inPlace (.seeded []) 1))
    let commands : List Command := [.hasher (some "h") "SHA-256" .create,
      .startHashing "h" (some "f"), .startHashing "h" (some "g"), .close "f", .close "f",
      .hash "h" (.plain [1, 2, 3]) .direct none, .drop "g", .startHashing "h" (some "g")]
    let events := [Event.opened "SHA-256", .opened "SHA-256", .ended "SHA-256",
      .called "SHA-256", .ended "SHA-256", .opened "SHA-256"]
    history commands s₀ = events ∧ events.foldl (Event.count "SHA-256" 1) 0 = 0
      ∧ Counts .sha256 1 (run commands s₀).2 0 := by
  refine ⟨by decide +kernel, rfl, ?_⟩
  exact digest_pools_count .inPlace (.seeded []) 1 .sha256 _ (by decide +kernel)

end PooledCrypto.Session
