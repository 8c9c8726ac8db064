import Mathlib.Data.List.Nodup
import Mathlib.Data.List.Perm.Basic
import PooledCrypto.Pool.Loans
import PooledCrypto.Proofs.PoolOrder

/-!
# A pool is a bounded stack

Any number of callers check handles out of one pool and give them back, in any order, while the
factory may fail whenever it likes. `Recorded` is such a run: the pool with the guards of the
callers, and the list of what came back so far.

`Settled` is what one step preserves. Everything that the factory ever made is idle, lent or
destroyed, and the idle handles lie in the order in which they came back. The first half is a
permutation, so a handle is nowhere twice; it does not ask what the factory makes, or whether it
makes anything.

A block of work inside a borrowed handle is not a step of its own. It is a checkout, whatever the
other callers do meanwhile, and a release (`lend_eq_moves`), so what holds at every moment of a run
holds inside such blocks as well.
-/

namespace PooledCrypto.Pool

variable {α β : Type}

/-! ## The pool and what is out -/

/-- The numbers of the factory calls that gave a handle. -/
def made (p : Pool α) : List Nat :=
  ((List.range p.attempts).map (· + 1)).filter fun k => (p.factory k).isOk

/-- Of the handles that are idle, the first came back last, and so on for those behind it. -/
def LatestFirst (returned : List Nat) : List Nat → Prop
  | [] => True
  | k :: rest => returned.find? (fun r => decide (r ∈ k :: rest)) = some k
      ∧ LatestFirst returned rest

/-- A pool with the handles that are out, and the serials of those that came back, the latest in
front. -/
structure Settled (p : Pool α) (out : List (Handle α)) (returned : List Nat) : Prop where
  one_place : ((p.idle ++ out).map (·.serial) ++ p.destroyed).Perm p.made
  bounded : p.idle.length ≤ p.capacity
  latest : LatestFirst returned (p.idle.map (·.serial))

/-- Takes back what was given back, if anything was. -/
def takeBack (p : Pool α) : Option (Handle α) → Pool α
  | none => p
  | some h => p.release h

variable {p p' : Pool α} {out out' : List (Handle α)} {returned : List Nat} {h : Handle α}

@[simp] theorem capacity_takeBack (p : Pool α) (back : Option (Handle α)) :
    (p.takeBack back).capacity = p.capacity := by
  cases back <;> simp [takeBack]

@[simp] theorem factory_takeBack (p : Pool α) (back : Option (Handle α)) :
    (p.takeBack back).factory = p.factory := by
  cases back <;> simp [takeBack]

theorem mem_made {k : Nat} : k ∈ p.made ↔ 1 ≤ k ∧ k ≤ p.attempts ∧ (p.factory k).isOk = true := by
  unfold made
  simp only [List.mem_filter, List.mem_map, List.mem_range]
  constructor
  · rintro ⟨⟨i, hi, rfl⟩, hok⟩
    exact ⟨by omega, by omega, hok⟩
  · rintro ⟨hpos, hle, hok⟩
    exact ⟨⟨k - 1, by omega, by omega⟩, hok⟩

theorem nodup_made (p : Pool α) : p.made.Nodup :=
  (List.nodup_range.map fun _ _ he => Nat.succ.inj he).filter _

/-- One more call adds its own number, if it gives a handle. -/
theorem made_next (p : Pool α) :
    made { p with attempts := p.attempts + 1 }
      = p.made ++ [p.attempts + 1].filter fun k => (p.factory k).isOk := by
  simp [made, List.range_succ]

theorem latestFirst_of_not_mem {k : Nat} {ks : List Nat} (hk : k ∉ ks)
    (hl : LatestFirst returned ks) : LatestFirst (k :: returned) ks := by
  induction ks with
  | nil => trivial
  | cons j rest ih =>
      obtain ⟨hfind, hrest⟩ := hl
      refine ⟨?_, ih (fun hm => hk (List.mem_cons_of_mem _ hm)) hrest⟩
      rw [List.find?_cons_of_neg (by simpa using hk)]
      exact hfind

theorem Settled.nodup (hs : Settled p out returned) :
    ((p.idle ++ out).map (·.serial) ++ p.destroyed).Nodup :=
  hs.one_place.nodup_iff.mpr p.nodup_made

theorem settled_empty (name : String) (capacity : Nat) (factory : Nat → Except Error α) :
    Settled (empty name capacity factory) [] [] where
  one_place := List.Perm.refl _
  bounded := Nat.zero_le _
  latest := trivial

theorem Settled.perm (hs : Settled p out returned) (ho : out.Perm out') :
    Settled p out' returned where
  one_place := (((ho.append_left p.idle).map (·.serial)).append_right p.destroyed).symm.trans
    hs.one_place
  bounded := hs.bounded
  latest := hs.latest

/-- What is inside a lent handle does not matter. -/
theorem Settled.revalue {h' : Handle α} (hs : Settled p (h :: out) returned)
    (hserial : h'.serial = h.serial) : Settled p (h' :: out) returned where
  one_place := by
    have hp := hs.one_place
    simp only [List.map_append, List.map_cons, hserial] at hp ⊢
    exact hp
  bounded := hs.bounded
  latest := hs.latest

/-- A handle that is checked out was idle, or is new. -/
theorem Settled.checkout_ok (hs : Settled p out returned) (hc : p.checkout = (.ok h, p')) :
    Settled p' (h :: out) returned := by
  rcases checkout_cases p with ⟨g, rest, hidle, hp⟩ | ⟨hidle, v, hv, hp⟩ | ⟨_, e, _, hp⟩
  · -- the first of the idle ones goes out, and nothing is made
    obtain ⟨hg, rfl⟩ := Prod.mk.inj (hp.symm.trans hc)
    obtain rfl := Except.ok.inj hg
    have hmove : (rest ++ g :: out).Perm (p.idle ++ out) := by
      rw [hidle]
      exact List.perm_middle
    refine ⟨((hmove.map _).append_right _).trans hs.one_place, ?_, ?_⟩
    · have hb := hs.bounded
      rw [hidle, List.length_cons] at hb
      exact Nat.le_of_succ_le hb
    · have hl := hs.latest
      rw [hidle] at hl
      exact hl.2
  · -- what goes out is what the factory has made on top of the rest
    obtain ⟨hg, rfl⟩ := Prod.mk.inj (hp.symm.trans hc)
    obtain rfl := Except.ok.inj hg
    refine ⟨?_, hs.bounded, hs.latest⟩
    have hnew : [p.attempts + 1].filter (fun k => (p.factory k).isOk) = [p.attempts + 1] := by
      simp [hv, Except.isOk, Except.toBool]
    rw [made_next, hnew]
    have hold := hs.one_place
    rw [hidle] at hold ⊢
    exact (hold.cons _).trans (List.perm_append_singleton _ _).symm
  · rw [hp] at hc
    exact absurd (congrArg Prod.fst hc) (by simp)

/-- A factory that fails has made nothing. -/
theorem Settled.checkout_error {e : Error} (hs : Settled p out returned)
    (hc : p.checkout = (.error e, p')) : Settled p' out returned := by
  rcases checkout_cases p with ⟨g, rest, _, hp⟩ | ⟨_, v, _, hp⟩ | ⟨_, f, hf, hp⟩
  · rw [hp] at hc
    exact absurd (congrArg Prod.fst hc) (by simp)
  · rw [hp] at hc
    exact absurd (congrArg Prod.fst hc) (by simp)
  · obtain rfl : { p with attempts := p.attempts + 1 } = p' :=
      congrArg Prod.snd (hp.symm.trans hc)
    refine ⟨?_, hs.bounded, hs.latest⟩
    have hnone : [p.attempts + 1].filter (fun k => (p.factory k).isOk) = [] := by
      simp [hf, Except.isOk, Except.toBool]
    rw [made_next, hnone, List.append_nil]
    exact hs.one_place

/-- A handle that comes back lies on top of the others, or is destroyed. -/
theorem Settled.release (hs : Settled p (h :: out) returned) :
    Settled (p.release h) out (h.serial :: returned) := by
  have hmove : (p.idle ++ h :: out).Perm (h :: (p.idle ++ out)) := List.perm_middle
  have hall := ((hmove.map (·.serial)).append_right p.destroyed).symm.trans hs.one_place
  -- the handle was out, so it is not among the idle ones
  have hapart : h.serial ∉ p.idle.map (·.serial) := by
    have hn := hall.nodup_iff.mpr p.nodup_made
    simp only [List.map_cons, List.map_append, List.cons_append, List.nodup_cons,
      List.mem_append, not_or] at hn
    exact hn.1.1.1
  unfold Pool.release
  split
  · rename_i hroom
    refine ⟨hall, hroom, ?_, latestFirst_of_not_mem hapart hs.latest⟩
    exact List.find?_cons_of_pos (by simp)
  · refine ⟨List.perm_middle.trans hall, hs.bounded, latestFirst_of_not_mem hapart hs.latest⟩

/-! ## Blocks inside each other -/

/-- A handle as its borrower leaves it. -/
def used (use : α → α) (h : Handle α) : Handle α := ⟨h.serial, use h.value⟩

/-- Blocks of work inside each other. Each borrows a handle of its own and uses it; the innermost one
sees all of them, that of the outermost block in front, and ends as it likes. -/
def nest (body : List (Handle α) → Except Failure β) :
    List (α → α) → List (Handle α) → Pool α → Except Failure β × Pool α
  | [], seen, p => (body seen, p)
  | use :: inner, seen, p => p.lend fun h p =>
    let (result, p) := nest body inner (seen ++ [used use h]) p
    (result, used use h, p)

/-- A block that gets its handle ends as the blocks inside it do, and gives the handle back after
them. -/
theorem nest_lent {body : List (Handle α) → Except Failure β} {use : α → α}
    {inner : List (α → α)} {seen : List (Handle α)} (hc : p.checkout = (.ok h, p')) :
    nest body (use :: inner) seen p =
      ((nest body inner (seen ++ [used use h]) p').1,
        (nest body inner (seen ++ [used use h]) p').2.release (used use h)) := by
  rw [nest, lend, hc]

/-- A block that gets none does nothing, and neither do those inside it. -/
theorem nest_refused {body : List (Handle α) → Except Failure β} {use : α → α}
    {inner : List (α → α)} {seen : List (Handle α)} {e : Error} (hc : p.checkout = (.error e, p')) :
    nest body (use :: inner) seen p = (.error (.error e), p') := by
  rw [nest, lend, hc]

/-- Nested work is blocks inside each other that use their handles alike. -/
theorem nested_eq_nest (use : α → α) (ending : Except Failure Unit) (depth : Nat)
    (seen : List (Handle α)) (p : Pool α) :
    (nested use ending depth p).1.2
        = (nest (fun _ => ending) (List.replicate depth use) seen p).1
      ∧ (nested use ending depth p).2
        = (nest (fun _ => ending) (List.replicate depth use) seen p).2 := by
  induction depth generalizing seen p with
  | zero => exact ⟨rfl, rfl⟩
  | succ depth ih =>
      rw [List.replicate_succ]
      rcases hc : p.checkout with ⟨e | h, p'⟩
      · rw [nest_refused hc, nested, hc]
        exact ⟨rfl, rfl⟩
      · obtain ⟨hresult, hpool⟩ := ih (seen ++ [used use h]) p'
        rw [nest_lent hc, nested, hc]
        exact ⟨hresult, congrArg (fun q : Pool α => q.release (used use h)) hpool⟩

namespace Loans

/-! ## Moves of callers -/

/-- What a caller can do. The callers are told apart by the names of their guards. -/
inductive Move (α : Type)
  /-- Checks a handle out and uses it. The guard that the caller had before is dropped. -/
  | checkout (caller : String) (use : α → α)
  /-- Drops the guard. -/
  | release (caller : String)

/-- Whose move it is. -/
def Move.caller : Move α → String
  | .checkout caller _ => caller
  | .release caller => caller

/-- What a checkout gives its caller. -/
def gives (l : Loans α) : Move α → Option (Except Error (Handle α))
  | .checkout caller use => some (l.checkout caller use).1
  | .release _ => none

/-- Makes a move. -/
def perform (l : Loans α) : Move α → Loans α
  | .checkout caller use => (l.checkout caller use).2
  | .release caller => (l.release caller).2

/-- Makes moves in order. -/
def performAll (moves : List (Move α)) (l : Loans α) : Loans α := moves.foldl perform l

/-- The guard that a move drops. -/
def drops (l : Loans α) : Move α → Option (Handle α)
  | .checkout caller _ =>
    match l.pool.checkout.1 with
    | .ok _ => l.handle? caller
    | .error _ => none
  | .release caller => l.handle? caller

/-- The pool once a move has taken a handle, if it takes any, and before it drops a guard. -/
def taken (l : Loans α) : Move α → Pool α
  | .checkout _ _ => l.pool.checkout.2
  | .release _ => l.pool

/-! ## Guards by name -/

variable {l : Loans α} {caller other : String}

/-- The guards of all callers but one. -/
def others (l : Loans α) (caller : String) : List (String × Handle α) :=
  l.held.filter fun g => g.1 != caller

theorem handle?_none (hh : l.handle? caller = none) : l.others caller = l.held := by
  refine List.filter_eq_self.mpr fun g hg => ?_
  have hne := List.find?_eq_none.mp (Option.map_eq_none_iff.mp hh) g hg
  simpa using hne

/-- A caller's guard and those of the others. -/
theorem perm_others (hn : (l.held.map (·.1)).Nodup) (hh : l.handle? caller = some h) :
    l.held.Perm ((caller, h) :: l.others caller) := by
  -- on the guards: the first is the caller's, or goes past the caller's
  obtain ⟨pool, held⟩ := l
  induction held with
  | nil => exact absurd hh (by simp [handle?])
  | cons g rest ih =>
      obtain ⟨hfresh, hn⟩ := List.nodup_cons.mp hn
      by_cases hg : g.1 = caller
      · subst hg
        obtain rfl : g.2 = h := by simpa [handle?] using hh
        have hrest : rest.filter (fun x => x.1 != g.1) = rest := by
          refine List.filter_eq_self.mpr fun x hx => ?_
          have hne : x.1 ≠ g.1 := fun he => hfresh (List.mem_map.mpr ⟨x, hx, he⟩)
          simpa using hne
        simp [others, hrest]
      · have hget : (⟨pool, rest⟩ : Loans α).handle? caller = some h := by
          simpa [handle?, List.find?_cons, hg] using hh
        have hcons : (⟨pool, g :: rest⟩ : Loans α).others caller
            = g :: (⟨pool, rest⟩ : Loans α).others caller := by
          simp [others, hg]
        rw [hcons]
        exact ((ih hn hget).cons g).trans (List.Perm.swap _ _ _)

theorem not_mem_others : caller ∉ (l.others caller).map (·.1) := by
  intro hm
  obtain ⟨g, hg, rfl⟩ := List.mem_map.mp hm
  exact absurd (List.mem_filter.mp hg).2 (by simp)

theorem nodup_others (hn : (l.held.map (·.1)).Nodup) : ((l.others caller).map (·.1)).Nodup :=
  (List.filter_sublist.map _).nodup hn

/-- The guard of another caller is found among those that are left. -/
theorem find?_others (hne : other ≠ caller) :
    (l.others caller).find? (fun g => g.1 == other) = l.held.find? fun g => g.1 == other := by
  unfold others
  rw [List.find?_filter]
  congr 1
  funext g
  by_cases hg : g.1 = other
  · simp [hg, hne]
  · simp [hg]

/-- A release leaves the guards of the others. -/
theorem release_eq (l : Loans α) (caller : String) :
    (l.release caller).2 = ⟨l.pool.takeBack (l.handle? caller), l.others caller⟩ := by
  unfold release
  cases hh : l.handle? caller with
  | none =>
      rw [handle?_none hh]
      rfl
  | some h => rfl

/-- A checkout fails and has changed nothing but the count of factory calls, or it gives a handle,
and the guard that the caller had before is dropped. -/
theorem checkout_split (l : Loans α) (caller : String) (use : α → α) :
    (∃ e p, l.pool.checkout = (.error e, p) ∧ l.checkout caller use = (.error e, ⟨p, l.held⟩))
      ∨ ∃ h p, l.pool.checkout = (.ok h, p)
          ∧ l.checkout caller use = (.ok ⟨h.serial, use h.value⟩,
              ⟨p.takeBack (l.handle? caller),
                (caller, ⟨h.serial, use h.value⟩) :: l.others caller⟩) := by
  unfold checkout
  rcases l.pool.checkout with ⟨e | h, p⟩
  · exact Or.inl ⟨e, p, rfl, rfl⟩
  · refine Or.inr ⟨h, p, rfl, ?_⟩
    have hback := release_eq ⟨p, l.held⟩ caller
    dsimp only
    rw [hback]
    rfl

/-! ## Runs -/

/-- A run: the pool and the guards, and the serials of what came back, the latest in front. -/
structure Recorded (α : Type) where
  loans : Loans α
  returned : List Nat

namespace Recorded

/-- Makes a move and notes what came back. -/
def move (r : Recorded α) (m : Move α) : Recorded α :=
  ⟨r.loans.perform m, ((r.loans.drops m).map (·.serial)).toList ++ r.returned⟩

/-- Makes moves in order. -/
def moves (ms : List (Move α)) (r : Recorded α) : Recorded α := ms.foldl move r

/-- A pool that was just made. -/
def start (name : String) (capacity : Nat) (factory : Nat → Except Error α) : Recorded α :=
  ⟨.start (.empty name capacity factory), []⟩

/-- What a step preserves. -/
structure Sound (capacity : Nat) (factory : Nat → Except Error α) (r : Recorded α) : Prop where
  settled : Settled r.loans.pool (r.loans.held.map (·.2)) r.returned
  callers : (r.loans.held.map (·.1)).Nodup
  capacity_eq : r.loans.pool.capacity = capacity
  factory_eq : r.loans.pool.factory = factory

variable {capacity : Nat} {factory : Nat → Except Error α} {r : Recorded α}

theorem moves_loans (ms : List (Move α)) (r : Recorded α) :
    (moves ms r).loans = performAll ms r.loans := by
  induction ms generalizing r with
  | nil => rfl
  | cons m rest ih => exact ih (r.move m)

theorem sound_start (name : String) (capacity : Nat) (factory : Nat → Except Error α) :
    Sound capacity factory (start name capacity factory) where
  settled := settled_empty name capacity factory
  callers := List.nodup_nil
  capacity_eq := rfl
  factory_eq := rfl

/-- Dropping a guard, while some handles more may be out that nobody holds yet. -/
theorem settled_drop (l : Loans α) (hn : (l.held.map (·.1)).Nodup) (extra : List (Handle α))
    (hs : Settled l.pool (extra ++ l.held.map (·.2)) returned) (caller : String) :
    Settled (l.pool.takeBack (l.handle? caller)) (extra ++ (l.others caller).map (·.2))
      (((l.handle? caller).map (·.serial)).toList ++ returned) := by
  cases hh : l.handle? caller with
  | none =>
      rw [handle?_none hh]
      exact hs
  | some h =>
      refine (hs.perm ?_).release
      have hguards := (perm_others hn hh).map (·.2)
      exact (hguards.append_left extra).trans List.perm_middle

/-- **Every move keeps the run sound.** -/
theorem Sound.move (hr : Sound capacity factory r) (m : Move α) :
    Sound capacity factory (r.move m) := by
  obtain ⟨⟨pool, held⟩, returned⟩ := r
  obtain ⟨hs, hn, hcap, hfac⟩ := hr
  cases m with
  | release caller =>
      have hend := settled_drop ⟨pool, held⟩ hn [] hs caller
      refine ⟨?_, ?_, ?_, ?_⟩ <;> simp only [Recorded.move, perform, release_eq]
      · exact hend
      · exact nodup_others hn
      · simpa using hcap
      · simpa using hfac
  | checkout caller use =>
      have hcap' : pool.checkout.2.capacity = capacity := by simpa using hcap
      have hfac' : pool.checkout.2.factory = factory := by simpa using hfac
      rcases checkout_split ⟨pool, held⟩ caller use with ⟨e, p, hc, hout⟩ | ⟨h, p, hc, hout⟩
      · have hdrops : drops ⟨pool, held⟩ (.checkout caller use) = none := by simp [drops, hc]
        rw [hc] at hcap' hfac'
        refine ⟨?_, ?_, ?_, ?_⟩ <;> simp only [Recorded.move, perform, hout, hdrops]
        · exact hs.checkout_error hc
        · exact hn
        · exact hcap'
        · exact hfac'
      · have hdrops : drops ⟨pool, held⟩ (.checkout caller use)
            = handle? ⟨pool, held⟩ caller := by simp [drops, hc]
        rw [hc] at hcap' hfac'
        -- the new handle is out before the guard is dropped
        have hmid : Settled p ([⟨h.serial, use h.value⟩] ++ held.map (·.2)) returned :=
          (hs.checkout_ok hc).revalue rfl
        have hend := settled_drop ⟨p, held⟩ hn _ hmid caller
        refine ⟨?_, ?_, ?_, ?_⟩ <;> simp only [Recorded.move, perform, hout, hdrops]
        · exact hend
        · exact List.nodup_cons.mpr ⟨not_mem_others, nodup_others hn⟩
        · simpa using hcap'
        · simpa using hfac'

theorem sound_moves (ms : List (Move α)) (hr : Sound capacity factory r) :
    Sound capacity factory (moves ms r) := by
  induction ms generalizing r with
  | nil => exact hr
  | cons m rest ih => exact ih (hr.move m)

end Recorded

/-! ## What one move does -/

/-- In how many places a handle is. -/
def places (l : Loans α) (k : Nat) : Nat :=
  (l.pool.idle.map (·.serial)).count k + (l.held.map (·.2.serial)).count k
    + l.pool.destroyed.count k

/-- A move changes the guard of its own caller only. -/
theorem handle?_perform (l : Loans α) {m : Move α} (hne : m.caller ≠ other) :
    (l.perform m).handle? other = l.handle? other := by
  unfold handle?
  congr 1
  cases m with
  | release caller =>
      simp only [perform, release_eq]
      exact find?_others hne.symm
  | checkout caller use =>
      have hfirst : (caller == other) = false := by simpa [Move.caller] using hne
      rcases checkout_split l caller use with ⟨e, p, _, hout⟩ | ⟨h, p, _, hout⟩
      · simp only [perform, hout]
      · simp only [perform, hout, List.find?_cons, hfirst]
        exact find?_others hne.symm

theorem handle?_performAll {moves : List (Move α)} (hne : ∀ m ∈ moves, m.caller ≠ other)
    (l : Loans α) : (performAll moves l).handle? other = l.handle? other := by
  induction moves generalizing l with
  | nil => rfl
  | cons m rest ih =>
      have hrest := ih (fun x hx => hne x (List.mem_cons_of_mem _ hx)) (l.perform m)
      exact hrest.trans (handle?_perform l (hne m List.mem_cons_self))

theorem pool_perform (l : Loans α) (m : Move α) :
    (l.perform m).pool = (l.taken m).takeBack (l.drops m) := by
  cases m with
  | release caller => simp only [perform, release_eq, taken, drops]
  | checkout caller use =>
      rcases checkout_split l caller use with ⟨e, p, hc, hout⟩ | ⟨h, p, hc, hout⟩
      · simp only [perform, hout, taken, drops, hc, takeBack]
      · simp only [perform, hout, taken, drops, hc]

/-! ## Work inside a borrowed handle -/

/-- Work inside a handle that a caller has borrowed: the caller uses it, and the others go on with
moves of their own until the work ends. -/
def block (l : Loans α) (caller : String) (use : α → α) (inside : List (Move α))
    (ending : Except Failure β) (h : Handle α) (p : Pool α) :
    Except Failure β × Handle α × Pool α :=
  let used : Handle α := ⟨h.serial, use h.value⟩
  (ending, used, (performAll inside ⟨p, (caller, used) :: l.held⟩).pool)

/-- A guard is what a caller has that had none before. -/
theorem checkout_free (hfree : l.handle? caller = none) (use : α → α)
    (hc : l.pool.checkout = (.ok h, p)) :
    l.perform (.checkout caller use) = ⟨p, (caller, ⟨h.serial, use h.value⟩) :: l.held⟩ := by
  rcases checkout_split l caller use with ⟨e, q, hc', _⟩ | ⟨g, q, hc', hout⟩
  · exact absurd (congrArg Prod.fst (hc.symm.trans hc')) (by simp)
  · obtain ⟨hg, rfl⟩ := Prod.mk.inj (hc.symm.trans hc')
    obtain rfl := Except.ok.inj hg
    simp only [perform, hout, hfree, handle?_none hfree, takeBack]

/-- **Lending a handle to a block of work is a checkout, what the others do, and a release**, in
whatever way the block ends. A block that gets no handle does nothing. -/
theorem lend_eq_moves (l : Loans α) {caller : String} (hfree : l.handle? caller = none)
    (use : α → α) {inside : List (Move α)} (hinside : ∀ m ∈ inside, m.caller ≠ caller)
    (ending : Except Failure β) :
    l.pool.lend (l.block caller use inside ending) =
      match l.pool.checkout.1 with
      | .ok _ =>
        (ending, (performAll (.checkout caller use :: inside ++ [.release caller]) l).pool)
      | .error e => (.error (.error e), (l.perform (.checkout caller use)).pool) := by
  unfold lend
  rcases hc : l.pool.checkout with ⟨e | h, p⟩
  · rcases checkout_split l caller use with ⟨f, q, hc', hout⟩ | ⟨g, q, hc', _⟩
    · obtain ⟨-, rfl⟩ := Prod.mk.inj (hc.symm.trans hc')
      simp only [perform, hout]
    · exact absurd (congrArg Prod.fst (hc.symm.trans hc')) (by simp)
  · have hopen := checkout_free hfree use hc
    -- nobody else has touched the caller's guard in the meantime
    have hguard : (performAll inside (l.perform (.checkout caller use))).handle? caller
        = some ⟨h.serial, use h.value⟩ := by
      rw [handle?_performAll hinside, hopen]
      simp [handle?]
    have hsplit : performAll (.checkout caller use :: inside ++ [.release caller]) l
        = (performAll inside (l.perform (.checkout caller use))).perform (.release caller) := by
      simp [performAll, List.foldl_append]
    have hpool := release_eq (performAll inside (l.perform (.checkout caller use))) caller
    rw [hguard] at hpool
    simp only [hsplit, perform] at hpool ⊢
    rw [hpool]
    simp only [perform] at hopen
    simp only [block, hopen, takeBack]

/-- Nested blocks are moves as well, with a guard of its own on each level. -/
theorem nest_eq_moves (body : List (Handle α) → Except Failure β) :
    ∀ (levels : List (String × (α → α))) (seen : List (Handle α)) (l : Loans α),
      (levels.map (·.1)).Nodup → (∀ c ∈ levels.map (·.1), l.handle? c = none) →
      ∃ ms : List (Move α), (∀ m ∈ ms, m.caller ∈ levels.map (·.1))
        ∧ performAll ms l = ⟨(nest body (levels.map (·.2)) seen l.pool).2, l.held⟩ := by
  -- on the levels: the guard of the first encloses the moves of the rest
  intro levels
  induction levels with
  | nil => exact fun seen l _ _ => ⟨[], by simp, rfl⟩
  | cons level rest ih =>
      obtain ⟨c, use⟩ := level
      intro seen l hn hfree
      simp only [List.map_cons] at hn hfree ⊢
      obtain ⟨hc, hn⟩ := List.nodup_cons.mp hn
      have hcfree := hfree c List.mem_cons_self
      rcases hout : l.pool.checkout with ⟨e | h, p⟩
      · refine ⟨[.checkout c use], by simp [Move.caller], ?_⟩
        rw [nest_refused hout]
        rcases checkout_split l c use with ⟨f, q, hq, hend⟩ | ⟨g, q, hq, _⟩
        · obtain ⟨-, rfl⟩ := Prod.mk.inj (hout.symm.trans hq)
          simp [performAll, perform, hend]
        · exact absurd (congrArg Prod.fst (hout.symm.trans hq)) (by simp)
      · have hopen := checkout_free hcfree use hout
        obtain ⟨ms, hms, hend⟩ := ih (seen ++ [used use h]) (l.perform (.checkout c use)) hn
          fun d hd => by
            have hne : (Move.checkout c use).caller ≠ d := by
              rintro rfl
              exact hc hd
            rw [handle?_perform l hne]
            exact hfree d (List.mem_cons_of_mem _ hd)
        refine ⟨.checkout c use :: ms ++ [.release c], ?_, ?_⟩
        · intro m hm
          rcases List.mem_append.mp hm with hm | hm
          · rcases List.mem_cons.mp hm with rfl | hm
            · exact List.mem_cons_self
            · exact List.mem_cons_of_mem _ (hms m hm)
          · obtain rfl := List.mem_singleton.mp hm
            exact List.mem_cons_self
        · have hsplit : performAll (.checkout c use :: ms ++ [.release c]) l
              = (performAll ms (l.perform (.checkout c use))).perform (.release c) := by
            simp [performAll, List.foldl_append]
          have hothers : l.held.filter (fun g => g.1 != c) = l.held := handle?_none hcfree
          rw [hsplit, hend, hopen, nest_lent hout]
          simp only [perform, release_eq]
          simp [handle?, others, hothers, takeBack, used]

/-- The levels of nested work need guards of their own, and no more than that. -/
theorem nested_eq_moves (use : α → α) (ending : Except Failure Unit) (callers : List String)
    (l : Loans α) (hn : callers.Nodup) (hfree : ∀ c ∈ callers, l.handle? c = none) :
    ∃ ms : List (Move α), (∀ m ∈ ms, m.caller ∈ callers)
      ∧ performAll ms l = ⟨(nested use ending callers.length l.pool).2, l.held⟩ := by
  have hnames : (callers.map fun c => (c, use)).map (·.1) = callers := by
    simp [Function.comp_def]
  have huses : (callers.map fun c => (c, use)).map (·.2) = List.replicate callers.length use := by
    simp [Function.comp_def]
  have hmoves := nest_eq_moves (fun _ => ending) (callers.map fun c => (c, use)) [] l
  rw [hnames, huses, ← (nested_eq_nest use ending callers.length [] l.pool).2] at hmoves
  exact hmoves hn hfree

/-! ## The whole -/

/-- What is true at every moment of a run, and of every move that can be made then. -/
structure BoundedStack (capacity : Nat) (factory : Nat → Except Error α) (r : Recorded α) :
    Prop where
  /-- A handle that was ever made is idle, or held by one guard, or destroyed, and only one of the
  three. Nothing else is anywhere. -/
  one_place : ∀ k, r.loans.places k =
    if 1 ≤ k ∧ k ≤ r.loans.pool.attempts ∧ (factory k).isOk = true then 1 else 0
  callers_apart : (r.loans.held.map (·.1)).Nodup
  bounded : r.loans.pool.idle.length ≤ capacity
  /-- If any handle is idle, a checkout gives the one that came back last. -/
  reuses : ∀ caller use h rest, r.loans.pool.idle = h :: rest →
    r.loans.gives (.checkout caller use) = some (.ok ⟨h.serial, use h.value⟩)
      ∧ r.returned.find? (fun k => decide (k ∈ r.loans.pool.idle.map (·.serial)))
          = some h.serial
  /-- If none is, it gives what the factory says, be it a handle or an error. -/
  makes : ∀ caller use, r.loans.pool.idle = [] →
    r.loans.gives (.checkout caller use) =
      some ((factory (r.loans.pool.attempts + 1)).map fun v =>
        ⟨r.loans.pool.attempts + 1, use v⟩)
  /-- What a checkout gives is in nobody else's hands. -/
  unshared : ∀ m h, r.loans.gives m = some (.ok h) → ∀ g ∈ r.loans.held, g.2.serial ≠ h.serial
  asks : ∀ caller use, r.loans.pool.idle = [] →
    (r.loans.perform (.checkout caller use)).pool.attempts = r.loans.pool.attempts + 1
  asks_only : ∀ m, r.loans.gives m = none ∨ r.loans.pool.idle ≠ [] →
    (r.loans.perform m).pool.attempts = r.loans.pool.attempts
  /-- A factory that fails has only been asked. -/
  fails : ∀ m e, r.loans.gives m = some (.error e) →
    r.loans.pool.idle = [] ∧ factory (r.loans.pool.attempts + 1) = .error e
      ∧ r.loans.perform m
          = ⟨{ r.loans.pool with attempts := r.loans.pool.attempts + 1 }, r.loans.held⟩
  retains : ∀ m h, r.loans.drops m = some h → (r.loans.taken m).idle.length < capacity →
    (r.loans.perform m).pool.idle = h :: (r.loans.taken m).idle
      ∧ (r.loans.perform m).pool.destroyed = r.loans.pool.destroyed
  destroys : ∀ m h, r.loans.drops m = some h → capacity ≤ (r.loans.taken m).idle.length →
    (r.loans.perform m).pool.idle = (r.loans.taken m).idle
      ∧ (r.loans.perform m).pool.destroyed = h.serial :: r.loans.pool.destroyed
  /-- Without a dropped guard nothing is destroyed, and nothing comes back. -/
  destroys_only : ∀ m, r.loans.drops m = none →
    (r.loans.perform m).pool.idle = (r.loans.taken m).idle
      ∧ (r.loans.perform m).pool.destroyed = r.loans.pool.destroyed
  /-- The handles that a move takes off the idle ones: the first, for a checkout. -/
  takes : ∀ m, (r.loans.taken m).idle
    = if (r.loans.gives m).isSome then r.loans.pool.idle.tail else r.loans.pool.idle
  guards : ∀ m h, r.loans.gives m = some (.ok h) →
    (r.loans.perform m).handle? m.caller = some h
  guards_gone : ∀ caller, (r.loans.perform (.release caller)).handle? caller = none
  guards_others : ∀ m other, m.caller ≠ other →
    (r.loans.perform m).handle? other = r.loans.handle? other
  /-- Work inside a handle is moves. -/
  lends : ∀ (β : Type) caller use inside (ending : Except Failure β),
    r.loans.handle? caller = none → (∀ m ∈ inside, m.caller ≠ caller) →
    r.loans.pool.lend (r.loans.block caller use inside ending) =
      match r.loans.pool.checkout.1 with
      | .ok _ => (ending,
          (performAll (.checkout caller use :: inside ++ [.release caller]) r.loans).pool)
      | .error e => (.error (.error e), (r.loans.perform (.checkout caller use)).pool)
  nests : ∀ use ending (callers : List String), callers.Nodup →
    (∀ c ∈ callers, r.loans.handle? c = none) →
    ∃ ms : List (Move α), (∀ m ∈ ms, m.caller ∈ callers)
      ∧ performAll ms r.loans
          = ⟨(nested use ending callers.length r.loans.pool).2, r.loans.held⟩

variable {capacity : Nat} {factory : Nat → Except Error α} {r : Recorded α}

theorem gives_checkout (l : Loans α) (caller : String) (use : α → α) :
    l.gives (.checkout caller use)
      = some (l.pool.checkout.1.map fun h => ⟨h.serial, use h.value⟩) := by
  rcases checkout_split l caller use with ⟨e, p, hc, hout⟩ | ⟨h, p, hc, hout⟩
  · simp [gives, hout, hc, Except.map]
  · simp [gives, hout, hc, Except.map]

/-- A move that gives a handle is a checkout of that handle from the pool. -/
theorem gives_ok {l : Loans α} {m : Move α} (hm : l.gives m = some (.ok h)) :
    ∃ caller use g p, m = .checkout caller use ∧ l.pool.checkout = (.ok g, p)
      ∧ h = ⟨g.serial, use g.value⟩ := by
  cases m with
  | release caller => exact absurd hm (by simp [gives])
  | checkout caller use =>
      rw [gives_checkout] at hm
      rcases hc : l.pool.checkout with ⟨e | g, p⟩
      · exact absurd hm (by simp [hc, Except.map])
      · refine ⟨caller, use, g, p, rfl, rfl, ?_⟩
        simpa [hc, Except.map, eq_comm] using hm

theorem count_places (hs : Settled r.loans.pool (r.loans.held.map (·.2)) r.returned) (k : Nat) :
    r.loans.places k = if k ∈ r.loans.pool.made then 1 else 0 := by
  have hcount := hs.one_place.count_eq k
  rw [List.Nodup.count (nodup_made _)] at hcount
  rw [← hcount]
  simp [places, List.map_append, List.count_append, Function.comp_def, Nat.add_assoc]

/-- A handle that is checked out is held by no guard, and the next is not either. -/
theorem serial_apart (hs : Settled r.loans.pool (r.loans.held.map (·.2)) r.returned)
    (hc : r.loans.pool.checkout = (.ok h, p)) :
    ∀ g ∈ r.loans.held, g.2.serial ≠ h.serial := by
  intro g hg he
  have hout := (hs.checkout_ok hc).nodup
  simp only [List.map_append, List.map_cons, List.append_assoc, List.cons_append] at hout
  have hnew := (List.nodup_cons.mp (List.nodup_middle.mp hout)).1
  have hguard : h.serial ∈ (r.loans.held.map (·.2)).map (·.serial) :=
    he ▸ List.mem_map_of_mem (List.mem_map_of_mem hg)
  exact hnew (List.mem_append_right _ (List.mem_append_left _ hguard))

theorem attempts_perform (l : Loans α) (m : Move α) :
    (l.perform m).pool.attempts = (l.taken m).attempts := by
  rw [pool_perform]
  cases l.drops m with
  | none => rfl
  | some h =>
      show ((l.taken m).release h).attempts = _
      unfold Pool.release
      split <;> rfl

/-- A checkout that fails has found nothing idle, and has asked the factory once. -/
theorem gives_error {l : Loans α} {m : Move α} {e : Error} (hm : l.gives m = some (.error e)) :
    l.pool.idle = [] ∧ l.pool.factory (l.pool.attempts + 1) = .error e
      ∧ l.perform m = ⟨{ l.pool with attempts := l.pool.attempts + 1 }, l.held⟩ := by
  cases m with
  | release caller => exact absurd hm (by simp [gives])
  | checkout caller use =>
      rw [gives_checkout] at hm
      rcases checkout_cases l.pool with ⟨g, rest, _, hp⟩ | ⟨_, v, _, hp⟩ | ⟨hidle, f, hf, hp⟩
      · exact absurd hm (by simp [hp, Except.map])
      · exact absurd hm (by simp [hp, Except.map])
      · obtain rfl : f = e := by simpa [hp, Except.map] using hm
        refine ⟨hidle, hf, ?_⟩
        rcases checkout_split l caller use with ⟨f', q, hq, hout⟩ | ⟨g, q, hq, _⟩
        · obtain ⟨-, rfl⟩ := Prod.mk.inj (hp.symm.trans hq)
          simp only [perform, hout]
        · exact absurd (congrArg Prod.fst (hp.symm.trans hq)) (by simp)

theorem idle_taken (l : Loans α) (m : Move α) : (l.taken m).idle
    = if (l.gives m).isSome then l.pool.idle.tail else l.pool.idle := by
  cases m with
  | release caller => rfl
  | checkout caller use =>
      show l.pool.checkout.2.idle = l.pool.idle.tail
      unfold Pool.checkout
      split
      · rename_i hidle
        rw [hidle]
        rfl
      · rename_i hidle
        rw [hidle]
        rfl

theorem destroyed_taken (l : Loans α) (m : Move α) :
    (l.taken m).destroyed = l.pool.destroyed := by
  cases m with
  | release caller => rfl
  | checkout caller use =>
      show l.pool.checkout.2.destroyed = _
      unfold Pool.checkout
      split <;> rfl

theorem capacity_taken (l : Loans α) (m : Move α) : (l.taken m).capacity = l.pool.capacity := by
  cases m <;> simp [taken]

theorem handle?_of_gives {l : Loans α} {m : Move α} (hm : l.gives m = some (.ok h)) :
    (l.perform m).handle? m.caller = some h := by
  obtain ⟨caller, use, g, p, rfl, hc, rfl⟩ := gives_ok hm
  rcases checkout_split l caller use with ⟨e, q, hq, _⟩ | ⟨g', q, hq, hout⟩
  · exact absurd (congrArg Prod.fst (hc.symm.trans hq)) (by simp)
  · obtain ⟨hg, -⟩ := Prod.mk.inj (hc.symm.trans hq)
    obtain rfl := Except.ok.inj hg
    simp [perform, hout, handle?, Move.caller]

theorem handle?_release (l : Loans α) (caller : String) :
    (l.perform (.release caller)).handle? caller = none := by
  simp only [perform, release_eq, handle?, Option.map_eq_none_iff, List.find?_eq_none]
  intro g hg
  simpa using (List.mem_filter.mp hg).2

/-- Everything about a moment of a run follows from what the moves preserve. -/
theorem BoundedStack.of_sound (hr : r.Sound capacity factory) :
    BoundedStack capacity factory r := by
  obtain ⟨hs, hn, rfl, rfl⟩ := hr
  constructor
  case one_place =>
    intro k
    -- idle, lent, returned: all that was made is in one of these places
    rw [count_places hs k]
    simp only [mem_made]
  case callers_apart => exact hn
  case bounded => exact hs.bounded
  case reuses =>
    intro caller use h rest hidle
    constructor
    · rw [gives_checkout, Pool.checkout, hidle]
      rfl
    · have hl := hs.latest
      rw [hidle] at hl ⊢
      exact hl.1
  case makes =>
    intro caller use hidle
    rw [gives_checkout, Pool.checkout, hidle]
    dsimp only
    cases r.loans.pool.factory (r.loans.pool.attempts + 1) <;> rfl
  case unshared =>
    intro m h hm
    obtain ⟨caller, use, g, p, rfl, hc, rfl⟩ := gives_ok hm
    have hapart := serial_apart hs hc
    exact hapart
  case asks =>
    intro caller use hidle
    rw [attempts_perform, taken, Pool.checkout, hidle]
  case asks_only =>
    intro m hm
    rw [attempts_perform]
    cases m with
    | release caller => rfl
    | checkout caller use =>
      obtain ⟨h, rest, hidle⟩ := List.exists_cons_of_ne_nil (hm.resolve_left (by simp [gives]))
      rw [taken, Pool.checkout, hidle]
  case fails => exact fun m e hm => gives_error hm
  case retains =>
    intro m h hm hroom
    -- the caller's old handle may have gone back just now, but the capacity is as it was
    rw [← capacity_taken _ m] at hroom
    rw [pool_perform, hm, takeBack, Pool.release, if_pos hroom]
    exact ⟨rfl, destroyed_taken _ m⟩
  case destroys =>
    intro m h hm hfull
    rw [← capacity_taken _ m] at hfull
    rw [pool_perform, hm, takeBack, Pool.release, if_neg (Nat.not_lt.mpr hfull)]
    exact ⟨rfl, by rw [destroyed_taken]⟩
  case destroys_only =>
    intro m hm
    rw [pool_perform, hm, takeBack]
    exact ⟨rfl, destroyed_taken _ m⟩
  case takes => exact idle_taken r.loans
  case guards => exact fun m h hm => handle?_of_gives hm
  case guards_gone => exact handle?_release r.loans
  case guards_others => exact fun m other hne => handle?_perform r.loans hne
  case lends =>
    exact fun β caller use inside ending hfree hinside =>
      lend_eq_moves r.loans hfree use hinside ending
  case nests =>
    exact fun use ending callers hn hfree => nested_eq_moves use ending callers r.loans hn hfree

/-- **A pool is a bounded stack**, whatever its capacity and its factory, after whatever moves of
whatever callers. -/
theorem pool_is_bounded_stack (name : String) (capacity : Nat)
    (factory : Nat → Except Error α) (moves : List (Move α)) :
    BoundedStack capacity factory (Recorded.moves moves (.start name capacity factory))
      ∧ (Recorded.moves moves (.start name capacity factory)).loans
          = performAll moves (.start (.empty name capacity factory)) := by
  have hstart := Recorded.sound_start name capacity factory
  exact ⟨.of_sound (Recorded.sound_moves moves hstart), Recorded.moves_loans moves _⟩

end Loans
end PooledCrypto.Pool
