import PooledCrypto.Proofs.BoundedStack

/-!
# No more handles than were needed at once

A handle is made only when none is idle, and kept as long as there is room. So there are never more
handles than were lent at the same time at some moment before, and with room for that many none is
ever destroyed or made twice.

A `Course` is what callers do with one pool: they check handles out, drop guards, and run blocks
inside borrowed handles, in which all of this goes on. Blocks of several callers that overlap
without lying inside each other are a checkout and a release each (`lend_eq_moves`). Every change of
the pool on the way is a `Moment`, those in the middle of a step included: a checkout that replaces
a guard has two handles out before it drops the old one.

`Frugal` is what every moment keeps, with the peak so far; the rest is induction on the course.
-/

namespace PooledCrypto.Pool

variable {α : Type} {p p' : Pool α} {h : Handle α} {lent most : Nat}

/-! ## One change of a pool -/

/-- A pool of which `lent` handles are out and never more than `most` were. -/
structure Frugal (p : Pool α) (lent most : Nat) : Prop where
  /-- What was made is idle, or out, or destroyed. -/
  made_eq : p.made.length = p.idle.length + lent + p.destroyed.length
  alive_le : p.idle.length + lent ≤ most
  /-- With room for as many as were ever out, none is destroyed and none is more than was needed. -/
  exact : most ≤ p.capacity → p.destroyed = [] ∧ p.idle.length + lent = most

theorem frugal_empty (name : String) (capacity : Nat) (factory : Nat → Except Error α) :
    Frugal (empty name capacity factory) 0 0 where
  made_eq := rfl
  alive_le := Nat.le_refl 0
  exact _ := ⟨rfl, rfl⟩

/-- A checkout reuses a handle, or makes one while all others are out. -/
theorem Frugal.checkout_ok (hf : Frugal p lent most) (hc : p.checkout = (.ok h, p')) :
    Frugal p' (lent + 1) (max most (lent + 1)) := by
  obtain ⟨hmade, halive, hexact⟩ := hf
  rcases checkout_cases p with ⟨g, rest, hidle, hp⟩ | ⟨hidle, v, hv, hp⟩ | ⟨_, e, _, hp⟩
  · obtain ⟨-, rfl⟩ := Prod.mk.inj (hp.symm.trans hc)
    rw [hidle, List.length_cons] at hmade halive hexact
    -- one of the idle ones goes out, so as many were out before
    have hmost : max most (lent + 1) = most := by omega
    rw [hmost]
    refine ⟨?_, ?_, fun hroom => ?_⟩
    · show p.made.length = rest.length + (lent + 1) + p.destroyed.length
      omega
    · show rest.length + (lent + 1) ≤ most
      omega
    · obtain ⟨hnone, heq⟩ := hexact hroom
      refine ⟨hnone, ?_⟩
      show rest.length + (lent + 1) = most
      omega
  · obtain ⟨-, rfl⟩ := Prod.mk.inj (hp.symm.trans hc)
    rw [hidle, List.length_nil] at hmade halive hexact
    have hnew : [p.attempts + 1].filter (fun k => (p.factory k).isOk) = [p.attempts + 1] := by
      simp [hv, Except.isOk, Except.toBool]
    refine ⟨?_, ?_, fun hroom => ?_⟩
    · rw [made_next, hnew, List.length_append, hmade, hidle, List.length_nil, List.length_singleton]
      show 0 + lent + p.destroyed.length + 1 = 0 + (lent + 1) + p.destroyed.length
      omega
    · rw [hidle, List.length_nil]
      omega
    · -- there was room for the peak before, and then all that exist were out
      have hbefore : most ≤ p.capacity := Nat.le_trans (Nat.le_max_left _ _) hroom
      obtain ⟨hnone, heq⟩ := hexact hbefore
      refine ⟨hnone, ?_⟩
      rw [hidle, List.length_nil]
      omega
  · exact absurd (congrArg Prod.fst (hp.symm.trans hc)) (by simp)

/-- A factory that fails changes none of the numbers. -/
theorem Frugal.checkout_error {e : Error} (hf : Frugal p lent most)
    (hc : p.checkout = (.error e, p')) : Frugal p' lent most := by
  rcases checkout_cases p with ⟨g, rest, _, hp⟩ | ⟨_, v, _, hp⟩ | ⟨_, f, he, hp⟩
  · exact absurd (congrArg Prod.fst (hp.symm.trans hc)) (by simp)
  · exact absurd (congrArg Prod.fst (hp.symm.trans hc)) (by simp)
  · obtain ⟨-, rfl⟩ := Prod.mk.inj (hp.symm.trans hc)
    have hnone : [p.attempts + 1].filter (fun k => (p.factory k).isOk) = [] := by
      simp [he, Except.isOk, Except.toBool]
    refine ⟨?_, hf.alive_le, hf.exact⟩
    rw [made_next, hnone, List.append_nil]
    exact hf.made_eq

/-- A handle that comes back is destroyed only if there is no room for the peak. -/
theorem Frugal.release (hf : Frugal p (lent + 1) most) (h : Handle α) :
    Frugal (p.release h) lent most := by
  obtain ⟨hmade, halive, hexact⟩ := hf
  unfold Pool.release
  by_cases hroom : p.idle.length < p.capacity
  · rw [if_pos hroom]
    refine ⟨?_, ?_, fun hpeak => ⟨(hexact hpeak).1, ?_⟩⟩
    · show p.made.length = p.idle.length + 1 + lent + p.destroyed.length
      omega
    · show p.idle.length + 1 + lent ≤ most
      omega
    · show p.idle.length + 1 + lent = most
      have heq := (hexact hpeak).2
      omega
  · rw [if_neg hroom]
    refine ⟨?_, ?_, fun hpeak => ?_⟩
    · show p.made.length = p.idle.length + lent + (p.destroyed.length + 1)
      omega
    · show p.idle.length + lent ≤ most
      omega
    · -- the one that came back was out, so fewer than the peak were idle
      have hbound : most ≤ p.capacity := hpeak
      have heq := (hexact hbound).2
      omega

/-! ## Moments -/

/-- A moment: the pool, and how many handles are out. -/
structure Moment (α : Type) where
  pool : Pool α
  lent : Nat

/-- How many handles there are. -/
def Moment.alive (m : Moment α) : Nat := m.pool.idle.length + m.lent

/-- The most handles that were out at the same time. -/
def peak (ms : List (Moment α)) : Nat := ms.foldr (fun m most => max m.lent most) 0

@[simp] theorem peak_nil : peak ([] : List (Moment α)) = 0 := rfl

@[simp] theorem peak_cons (m : Moment α) (ms : List (Moment α)) :
    peak (m :: ms) = max m.lent (peak ms) := rfl

@[simp] theorem peak_append (ms ms' : List (Moment α)) :
    peak (ms ++ ms') = max (peak ms) (peak ms') := by
  induction ms with
  | nil => simp
  | cons m ms ih => rw [List.cons_append, peak_cons, peak_cons, ih, Nat.max_assoc]

/-- At each of the moments there are no more handles than were out at the same time up to then. At
most `most` were before. -/
def Thrifty : Nat → List (Moment α) → Prop
  | _, [] => True
  | most, m :: rest => m.alive ≤ max most m.lent ∧ Thrifty (max most m.lent) rest

theorem thrifty_append {ms ms' : List (Moment α)} (hfront : Thrifty most ms)
    (hback : Thrifty (max most (peak ms)) ms') : Thrifty most (ms ++ ms') := by
  induction ms generalizing most with
  | nil => simpa using hback
  | cons m ms ih =>
      rw [peak_cons, ← Nat.max_assoc] at hback
      exact ⟨hfront.1, ih hfront.2 hback⟩

/-- A moment with no more handles than the peak does not raise it. -/
theorem max_peak_cons {m : Moment α} {ms : List (Moment α)} (hle : m.alive ≤ most) :
    max most (peak (m :: ms)) = max most (peak ms) := by
  have hlent : m.lent ≤ most := Nat.le_trans (Nat.le_add_left _ _) hle
  rw [peak_cons, ← Nat.max_assoc, Nat.max_eq_left hlent]

theorem thrifty_cons {m : Moment α} {ms : List (Moment α)} (hle : m.alive ≤ most)
    (ht : Thrifty most ms) : Thrifty most (m :: ms) := by
  have hlent : m.lent ≤ most := Nat.le_trans (Nat.le_add_left _ _) hle
  rw [Thrifty, Nat.max_eq_left hlent]
  exact ⟨hle, ht⟩

theorem Thrifty.alive_le {before after : List (Moment α)} {m : Moment α}
    (ht : Thrifty most (before ++ m :: after)) : m.alive ≤ max most (peak (before ++ [m])) := by
  induction before generalizing most with
  | nil => simpa using ht.1
  | cons b before ih =>
      have hrest := ih ht.2
      rw [List.cons_append, peak_cons, ← Nat.max_assoc]
      exact hrest

namespace Loans

/-! ## Courses -/

/-- What callers do with a pool, one thing after the other. -/
inductive Course (α : Type)
  | done
  /-- A caller checks a handle out or drops a guard. -/
  | move (m : Move α) (rest : Course α)
  /-- A caller runs a block inside a borrowed handle. What happens before it ends is the course
  inside. -/
  | block (use : α → α) (inside rest : Course α)

/-- How many handles a move takes. -/
def given (l : Loans α) (m : Move α) : Nat :=
  match l.gives m with
  | some (.ok _) => 1
  | _ => 0

/-- Goes through a course. The inside of a block is gone through while its handle is lent. -/
def follow : Course α → Loans α → Loans α
  | .done, l => l
  | .move m rest, l => follow rest (l.perform m)
  | .block use inside rest, l =>
    let (held, pool) := l.pool.lend fun h p =>
      let l := follow inside ⟨p, l.held⟩
      (.ok l.held, used use h, l.pool)
    follow rest ⟨pool, held.toOption.getD l.held⟩

/-- The moments of a course, while some handles are out that belong to the blocks around it. A move
takes a handle before it drops a guard. -/
def moments : Course α → Nat → Loans α → List (Moment α)
  | .done, _, _ => []
  | .move m rest, lent, l =>
    ⟨l.taken m, lent + l.held.length + l.given m⟩
      :: ⟨(l.perform m).pool, lent + (l.perform m).held.length⟩
      :: moments rest lent (l.perform m)
  | .block use inside rest, lent, l =>
    match l.pool.checkout with
    | (.error _, p) => ⟨p, lent + l.held.length⟩ :: moments rest lent ⟨p, l.held⟩
    | (.ok h, p) =>
      let l' := follow inside ⟨p, l.held⟩
      let after : Loans α := ⟨l'.pool.release (used use h), l'.held⟩
      ⟨p, lent + l.held.length + 1⟩ :: moments inside (lent + 1) ⟨p, l.held⟩
        ++ ⟨after.pool, lent + after.held.length⟩ :: moments rest lent after

variable {l : Loans α} {use : α → α} {inside rest : Course α}

theorem follow_lent (hc : l.pool.checkout = (.ok h, p)) :
    follow (.block use inside rest) l
      = follow rest ⟨(follow inside ⟨p, l.held⟩).pool.release (used use h),
          (follow inside ⟨p, l.held⟩).held⟩ := by
  rw [follow, lend, hc]
  rfl

theorem moments_lent (hc : l.pool.checkout = (.ok h, p)) {l' : Loans α}
    (hinside : follow inside ⟨p, l.held⟩ = l') :
    moments (.block use inside rest) lent l
      = ⟨p, lent + 1 + l.held.length⟩ :: moments inside (lent + 1) ⟨p, l.held⟩
        ++ ⟨l'.pool.release (used use h), lent + l'.held.length⟩
          :: moments rest lent ⟨l'.pool.release (used use h), l'.held⟩ := by
  rw [moments, hc, ← hinside, Nat.add_right_comm]

theorem follow_refused {e : Error} (hc : l.pool.checkout = (.error e, p)) :
    follow (.block use inside rest) l = follow rest ⟨p, l.held⟩ := by
  rw [follow, lend, hc]
  rfl

theorem moments_refused {e : Error} (hc : l.pool.checkout = (.error e, p)) :
    moments (.block use inside rest) lent l
      = ⟨p, lent + l.held.length⟩ :: moments rest lent ⟨p, l.held⟩ := by
  rw [moments, hc]

/-- A course ends at its last moment. -/
theorem getLast?_moments (c : Course α) (lent : Nat) (l : Loans α) :
    (moments c lent l).getLast?.getD ⟨l.pool, lent + l.held.length⟩
      = ⟨(follow c l).pool, lent + (follow c l).held.length⟩ := by
  induction c generalizing lent l with
  | done => rfl
  | move m rest ih =>
      rw [moments, follow, List.getLast?_cons, List.getLast?_cons]
      exact ih lent (l.perform m)
  | block use inside rest ihInside ihRest =>
      rcases hc : l.pool.checkout with ⟨e | h, p⟩
      · rw [moments_refused hc, follow_refused hc, List.getLast?_cons]
        exact ihRest lent ⟨p, l.held⟩
      · rw [moments_lent hc rfl, follow_lent hc, List.getLast?_append, List.getLast?_cons]
        exact ihRest lent ⟨_, _⟩

theorem capacity_follow (c : Course α) (l : Loans α) :
    (follow c l).pool.capacity = l.pool.capacity := by
  induction c generalizing l with
  | done => rfl
  | move m rest ih => rw [follow, ih, pool_perform, capacity_takeBack, capacity_taken]
  | block use inside rest ihInside ihRest =>
      have hkeep := capacity_checkout l.pool
      rcases hc : l.pool.checkout with ⟨e | h, p⟩ <;> rw [hc] at hkeep
      · rw [follow_refused hc, ihRest]
        exact hkeep
      · rw [follow_lent hc, ihRest, capacity_release, ihInside]
        exact hkeep

/-- A pool with guards, each of another caller, while some handles are out besides. -/
structure Sparing (l : Loans α) (lent most : Nat) : Prop where
  callers : (l.held.map (·.1)).Nodup
  frugal : Frugal l.pool (lent + l.held.length) most

/-- Dropping a guard is a release, if there is a guard. -/
theorem frugal_drop (hn : (l.held.map (·.1)).Nodup) (hf : Frugal p (lent + l.held.length) most)
    (caller : String) :
    Frugal (p.takeBack (l.handle? caller)) (lent + (l.others caller).length) most := by
  cases hh : l.handle? caller with
  | none =>
      rw [handle?_none hh]
      exact hf
  | some h =>
      have hlen := (perm_others hn hh).length_eq
      rw [List.length_cons] at hlen
      rw [hlen] at hf
      exact Frugal.release hf h

/-- A move keeps to the peak, which may rise while it has taken a handle. -/
theorem Sparing.move (hs : Sparing l lent most) (m : Move α) :
    Frugal (l.taken m) (lent + l.held.length + l.given m)
        (max most (lent + l.held.length + l.given m))
      ∧ Sparing (l.perform m) lent (max most (lent + l.held.length + l.given m)) := by
  obtain ⟨hn, hf⟩ := hs
  have hstill : max most (lent + l.held.length) = most := by
    have hle := hf.alive_le
    omega
  cases m with
  | release caller =>
      have hgiven : l.given (.release caller) = 0 := rfl
      rw [hgiven, Nat.add_zero, hstill]
      refine ⟨hf, ?_⟩
      rw [perform, release_eq]
      exact ⟨nodup_others hn, frugal_drop hn hf caller⟩
  | checkout caller use =>
      rcases checkout_split l caller use with ⟨e, p, hc, hout⟩ | ⟨h, p, hc, hout⟩
      · have hgiven : l.given (.checkout caller use) = 0 := by simp [given, gives, hout]
        rw [hgiven, Nat.add_zero, hstill, taken, perform, hc, hout]
        exact ⟨hf.checkout_error hc, hn, hf.checkout_error hc⟩
      · have hgiven : l.given (.checkout caller use) = 1 := by simp [given, gives, hout]
        have hmid := hf.checkout_ok hc
        rw [hgiven, taken, perform, hc, hout]
        refine ⟨hmid, List.nodup_cons.mpr ⟨not_mem_others, nodup_others hn⟩, ?_⟩
        -- both guards are out until the old one is dropped
        have hboth : lent + l.held.length + 1 = lent + 1 + l.held.length := by omega
        rw [hboth] at hmid ⊢
        have hend := frugal_drop hn hmid caller
        rw [List.length_cons]
        have hone : lent + ((l.others caller).length + 1)
            = lent + 1 + (l.others caller).length := by
          omega
        rw [hone]
        exact hend

/-- **A course keeps to the peak**, at every moment and at its end. -/
theorem Sparing.course (c : Course α) : ∀ {l : Loans α} {lent most : Nat}, Sparing l lent most →
    Thrifty most (moments c lent l)
      ∧ Sparing (follow c l) lent (max most (peak (moments c lent l))) := by
  induction c with
  | done => exact fun hs => ⟨trivial, by simpa [moments, follow] using hs⟩
  | move m rest ih =>
      intro l lent most hs
      obtain ⟨hmid, hend⟩ := hs.move m
      obtain ⟨hthrifty, hrest⟩ := ih hend
      rw [moments, follow, peak_cons, ← Nat.max_assoc, max_peak_cons hend.frugal.alive_le]
      exact ⟨⟨hmid.alive_le, thrifty_cons hend.frugal.alive_le hthrifty⟩, hrest⟩
  | block use inside rest ihInside ihRest =>
      intro l lent most hs
      rcases hc : l.pool.checkout with ⟨e | h, p⟩
      · have hp := hs.frugal.checkout_error hc
        obtain ⟨hthrifty, hrest⟩ := ihRest (l := ⟨p, l.held⟩) ⟨hs.callers, hp⟩
        rw [moments_refused hc, follow_refused hc, max_peak_cons hp.alive_le]
        exact ⟨thrifty_cons hp.alive_le hthrifty, hrest⟩
      · have hp := hs.frugal.checkout_ok hc
        rw [Nat.add_right_comm] at hp
        obtain ⟨hthriftyIn, hinside⟩ := ihInside (l := ⟨p, l.held⟩) ⟨hs.callers, hp⟩
        generalize hl' : follow inside ⟨p, l.held⟩ = l' at hinside
        -- the block's handle comes back when its inside is done
        have hout := hinside.frugal
        rw [Nat.add_right_comm] at hout
        have hback := hout.release (used use h)
        obtain ⟨hthrifty, hrest⟩ := ihRest (l := ⟨l'.pool.release (used use h), l'.held⟩)
          ⟨hinside.callers, hback⟩
        rw [moments_lent hc hl', follow_lent hc, hl', List.cons_append, peak_cons, ← Nat.max_assoc,
          peak_append, ← Nat.max_assoc, max_peak_cons hback.alive_le]
        exact ⟨⟨hp.alive_le,
          thrifty_append hthriftyIn (thrifty_cons hback.alive_le hthrifty)⟩, hrest⟩

/-! ## The whole -/

/-- What is true of a course of a pool that was made for it. -/
structure AsNeeded (capacity : Nat) (ms : List (Moment α)) (after : Loans α) : Prop where
  /-- At no moment are there more handles than were out at the same time, then or before. -/
  alive_le : ∀ before m rest, ms = before ++ m :: rest → m.alive ≤ peak (before ++ [m])
  /-- The last moment is the end. -/
  ends : ∀ m, ms.getLast? = some m → m = ⟨after.pool, after.held.length⟩
  /-- With room for as many as were ever out at the same time, just as many were made, none was
  destroyed, and all of them are idle or held in the end. -/
  exact : peak ms ≤ capacity → after.pool.made.length = peak ms ∧ after.pool.destroyed = []
    ∧ after.pool.idle.length + after.held.length = peak ms

/-- **A pool makes no more handles than were needed at once**, whatever its capacity and its
factory, and whatever its callers do. -/
theorem handles_made_as_needed (name : String) (capacity : Nat) (factory : Nat → Except Error α)
    (course : Course α) :
    AsNeeded capacity (moments course 0 (.start (.empty name capacity factory)))
      (follow course (.start (.empty name capacity factory))) := by
  have hstart : Sparing (.start (.empty name capacity factory)) 0 0 :=
    ⟨List.nodup_nil, frugal_empty name capacity factory⟩
  obtain ⟨hthrifty, -, hend⟩ := hstart.course course
  rw [Nat.zero_max, Nat.zero_add] at hend
  refine ⟨fun before m rest hms => ?_, fun m hm => ?_, fun hroom => ?_⟩
  · rw [hms] at hthrifty
    have hle := hthrifty.alive_le
    rwa [Nat.zero_max] at hle
  · have hlast := getLast?_moments course 0 (.start (.empty name capacity factory))
    rw [hm, Nat.zero_add, Nat.zero_add] at hlast
    exact hlast
  · have hcapacity := capacity_follow course (.start (.empty name capacity factory))
    obtain ⟨hnone, hall⟩ := hend.exact (Nat.le_trans hroom (Nat.le_of_eq hcapacity.symm))
    have hmade := hend.made_eq
    rw [hnone, hall, List.length_nil, Nat.add_zero] at hmade
    exact ⟨hmade, hnone, hall⟩

end Loans
end PooledCrypto.Pool
