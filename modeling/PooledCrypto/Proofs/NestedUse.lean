import PooledCrypto.Proofs.BoundedStack

/-!
# What nested blocks give back

Blocks inside each other take handles off the pool one by one and give them back in the opposite
order, while a handle is kept only as long as there is room. So the order in which the handles lie
matters, and where the capacity is reached it is the handles of the inner blocks that are kept.

`draw` is the way in: it takes handles as long as the pool gives any. `giveBack` is the way out. A
run of nested blocks is the one, then the innermost block, then the other (`nest_eq`), in whatever
way the innermost block ends. If the factory fails before every block has its handle, there is no
innermost block.
-/

namespace PooledCrypto.Pool

variable {α β : Type} {p p' : Pool α} {h : Handle α} {hs hs' out out' : List (Handle α)}
  {returned : List Nat} {use : α → α} {uses : List (α → α)} {n : Nat}

/-- The idle handles from the bottom up. -/
def stack (p : Pool α) : List (Handle α) := p.idle.reverse

theorem length_stack (p : Pool α) : p.stack.length = p.idle.length := List.length_reverse

theorem reverse_stack (p : Pool α) : p.stack.reverse = p.idle := List.reverse_reverse _

/-! ## The way in -/

/-- The handles that a pool gives one after the other, at most so many, and the pool once they are
out. The first that it fails to give is the end. -/
def draw : Nat → Pool α → List (Handle α) × Pool α
  | 0, p => ([], p)
  | n + 1, p =>
    match p.checkout with
    | (.error _, p) => ([], p)
    | (.ok h, p) => (h :: (draw n p).1, (draw n p).2)

theorem draw_lent (hc : p.checkout = (.ok h, p')) :
    p.draw (n + 1) = (h :: (p'.draw n).1, (p'.draw n).2) := by
  rw [draw, hc]

theorem draw_refused {e : Error} (hc : p.checkout = (.error e, p')) :
    p.draw (n + 1) = ([], p') := by
  rw [draw, hc]

theorem length_draw_le (n : Nat) (p : Pool α) : (p.draw n).1.length ≤ n := by
  induction n generalizing p with
  | zero => exact Nat.le_refl 0
  | succ n ih =>
      rcases hc : p.checkout with ⟨e | h, p'⟩
      · rw [draw_refused hc]
        exact Nat.zero_le _
      · rw [draw_lent hc, List.length_cons]
        exact Nat.succ_le_succ (ih p')

@[simp] theorem capacity_draw (n : Nat) (p : Pool α) : (p.draw n).2.capacity = p.capacity := by
  induction n generalizing p with
  | zero => rfl
  | succ n ih =>
      have hkeep := capacity_checkout p
      rcases hc : p.checkout with ⟨e | h, p'⟩ <;> rw [hc] at hkeep
      · rw [draw_refused hc]
        exact hkeep
      · rw [draw_lent hc]
        exact (ih p').trans hkeep

theorem destroyed_checkout (p : Pool α) : p.checkout.2.destroyed = p.destroyed := by
  unfold checkout
  split <;> rfl

theorem destroyed_draw (n : Nat) (p : Pool α) : (p.draw n).2.destroyed = p.destroyed := by
  induction n generalizing p with
  | zero => rfl
  | succ n ih =>
      have hkeep := destroyed_checkout p
      rcases hc : p.checkout with ⟨e | h, p'⟩ <;> rw [hc] at hkeep
      · rw [draw_refused hc]
        exact hkeep
      · rw [draw_lent hc]
        exact (ih p').trans hkeep

/-- Once nothing is idle, nothing becomes idle by drawing. -/
theorem idle_draw_nil (hidle : p.idle = []) : (p.draw n).2.idle = [] := by
  induction n generalizing p with
  | zero => exact hidle
  | succ n ih =>
      rcases checkout_cases p with ⟨g, rest, hcons, _⟩ | ⟨_, v, _, hc⟩ | ⟨_, e, _, hc⟩
      · exact absurd (hcons.symm.trans hidle) (by simp)
      · rw [draw_lent hc]
        exact ih hidle
      · rw [draw_refused hc]
        exact hidle

/-- What stays idle is what lies underneath. -/
theorem idle_draw (n : Nat) (p : Pool α) :
    (p.draw n).2.idle = p.idle.drop (p.draw n).1.length := by
  induction n generalizing p with
  | zero => rfl
  | succ n ih =>
      rcases checkout_cases p with ⟨g, rest, hidle, hc⟩ | ⟨hidle, v, _, hc⟩ | ⟨hidle, e, _, hc⟩
      · rw [draw_lent hc, ih, hidle]
        rfl
      · have hnil := idle_draw_nil (p := { p with attempts := p.attempts + 1 }) (n := n) hidle
        rw [draw_lent hc, hidle, List.drop_nil]
        rwa [hidle] at hnil
      · rw [draw_refused hc]
        rfl

theorem stack_draw (n : Nat) (p : Pool α) :
    (p.draw n).2.stack = p.stack.take (p.stack.length - (p.draw n).1.length) := by
  rw [length_stack, stack, stack, idle_draw, List.take_reverse]
  rcases Nat.le_total (p.draw n).1.length p.idle.length with hle | hge
  · rw [Nat.sub_sub_self hle]
  · rw [List.drop_eq_nil_of_le hge, Nat.sub_eq_zero_of_le hge, Nat.sub_zero, List.drop_length]

/-- The idle handles are drawn first, from the top down. -/
theorem take_draw (n : Nat) (p : Pool α) :
    (p.draw n).1.take p.idle.length = p.idle.take (p.draw n).1.length := by
  induction n generalizing p with
  | zero => simp [draw]
  | succ n ih =>
      rcases checkout_cases p with ⟨g, rest, hidle, hc⟩ | ⟨hidle, v, _, hc⟩ | ⟨hidle, e, _, hc⟩
      · have hrest := ih { p with idle := rest }
        rw [draw_lent hc, hidle]
        simp only [List.length_cons, List.take_succ_cons]
        exact congrArg (g :: ·) hrest
      · simp [hidle]
      · simp [hidle]

/-- What is drawn beyond them was made for it. -/
theorem made_of_mem_drop (hh : h ∈ (p.draw n).1.drop p.idle.length) :
    p.factory h.serial = .ok h.value ∧ p.attempts < h.serial := by
  induction n generalizing p with
  | zero => exact absurd hh (by simp [draw])
  | succ n ih =>
      rcases checkout_cases p with ⟨g, rest, hidle, hc⟩ | ⟨hidle, v, hv, hc⟩ | ⟨_, e, _, hc⟩
      · rw [draw_lent hc, hidle, List.length_cons, List.drop_succ_cons] at hh
        exact ih (p := { p with idle := rest }) hh
      · rw [draw_lent hc, hidle] at hh
        rcases List.mem_cons.mp hh with rfl | hh
        · exact ⟨hv, Nat.lt_succ_self _⟩
        · have hlater := ih (p := { p with attempts := p.attempts + 1 }) (by rwa [hidle])
          exact ⟨hlater.1, Nat.lt_of_succ_lt hlater.2⟩
      · rw [draw_refused hc] at hh
        exact absurd hh (by simp)

/-- If there are idle handles enough, all are drawn that are asked for. -/
theorem length_draw_of_le (hle : n ≤ p.idle.length) : (p.draw n).1.length = n := by
  induction n generalizing p with
  | zero => rfl
  | succ n ih =>
      rcases checkout_cases p with ⟨g, rest, hidle, hc⟩ | ⟨hidle, _⟩ | ⟨hidle, _⟩
      · rw [hidle, List.length_cons] at hle
        rw [draw_lent hc, List.length_cons, ih (Nat.le_of_succ_le_succ hle)]
      · rw [hidle] at hle
        exact absurd hle (Nat.not_succ_le_zero n)
      · rw [hidle] at hle
        exact absurd hle (Nat.not_succ_le_zero n)

/-- If fewer are drawn than were asked for, nothing is idle and the factory has failed at last. -/
theorem refused_of_length_draw (hlt : (p.draw n).1.length < n) :
    (p.draw n).2.idle = [] ∧ p.attempts < (p.draw n).2.attempts
      ∧ ∃ e, p.factory (p.draw n).2.attempts = .error e := by
  induction n generalizing p with
  | zero => exact absurd hlt (Nat.not_lt_zero _)
  | succ n ih =>
      rcases checkout_cases p with ⟨g, rest, hidle, hc⟩ | ⟨hidle, v, _, hc⟩ | ⟨hidle, e, he, hc⟩
      · rw [draw_lent hc] at hlt ⊢
        exact ih (Nat.lt_of_succ_lt_succ hlt)
      · rw [draw_lent hc] at hlt ⊢
        have hlater := ih (Nat.lt_of_succ_lt_succ hlt)
        exact ⟨hlater.1, Nat.lt_of_succ_lt hlater.2.1, hlater.2.2⟩
      · rw [draw_refused hc]
        exact ⟨hidle, Nat.lt_succ_self _, e, he⟩

/-- Then they are the topmost ones, and the others are still there. -/
theorem stack_of_le (hle : n ≤ p.idle.length) :
    p.stack = (p.draw n).2.stack ++ (p.draw n).1.reverse := by
  have hlen := length_draw_of_le hle
  have htop := take_draw n p
  rw [List.take_of_length_le (by omega), hlen] at htop
  rw [stack, stack, idle_draw, hlen, htop, ← List.reverse_append, List.take_append_drop]

/-! ## The way out -/

/-- The handles as the blocks leave them, one block for each. -/
def usedBy (uses : List (α → α)) (hs : List (Handle α)) : List (Handle α) :=
  List.zipWith used uses hs

/-- Takes handles back, the last one first. -/
def giveBack (p : Pool α) (hs : List (Handle α)) : Pool α := hs.foldr (fun h p => p.release h) p

@[simp] theorem giveBack_cons (p : Pool α) (h : Handle α) (hs : List (Handle α)) :
    p.giveBack (h :: hs) = (p.giveBack hs).release h := rfl

@[simp] theorem capacity_giveBack (p : Pool α) (hs : List (Handle α)) :
    (p.giveBack hs).capacity = p.capacity := by
  induction hs with
  | nil => rfl
  | cons h hs ih => rw [giveBack_cons, capacity_release, ih]

/-- Using a handle leaves it the handle that it is. -/
theorem serials_usedBy (hle : hs.length ≤ uses.length) :
    (usedBy uses hs).map (·.serial) = hs.map (·.serial) := by
  induction uses generalizing hs with
  | nil =>
      obtain rfl := List.eq_nil_of_length_eq_zero (Nat.le_zero.mp hle)
      rfl
  | cons use uses ih =>
      cases hs with
      | nil => rfl
      | cons h hs => exact congrArg (h.serial :: ·) (ih (Nat.le_of_succ_le_succ hle))

theorem length_usedBy (hle : hs.length ≤ uses.length) : (usedBy uses hs).length = hs.length := by
  rw [← List.length_map (·.serial), serials_usedBy hle, List.length_map]

/-- A release pushes the handle on the stack if there is room, and destroys it if not. -/
theorem stack_release (p : Pool α) (h : Handle α) :
    (p.release h).stack = p.stack ++ [h].take (p.capacity - p.stack.length)
      ∧ (p.release h).destroyed
        = ([h].drop (p.capacity - p.stack.length)).map (·.serial) ++ p.destroyed := by
  have hlen := length_stack p
  unfold release
  by_cases hroom : p.idle.length < p.capacity
  · obtain ⟨k, hk⟩ : ∃ k, p.capacity - p.stack.length = k + 1 :=
      ⟨p.capacity - p.stack.length - 1, by omega⟩
    rw [if_pos hroom, hk]
    simp [stack]
  · have hfull : p.capacity - p.stack.length = 0 := by omega
    rw [if_neg hroom, hfull]
    simp [stack]

/-- **Of what is given back, as much is kept as there is room for**, the handle that comes first at
the bottom. -/
theorem stack_giveBack (p : Pool α) (hs : List (Handle α)) :
    (p.giveBack hs).stack = p.stack ++ hs.reverse.take (p.capacity - p.stack.length) := by
  induction hs with
  | nil => simp [giveBack]
  | cons h hs ih =>
      rw [giveBack_cons, (stack_release _ h).1, capacity_giveBack, ih, List.reverse_cons,
        List.take_append, List.append_assoc]
      congr 3
      simp only [List.length_append, List.length_take, List.length_reverse]
      omega

/-- The others are destroyed, in the order in which they came. -/
theorem destroyed_giveBack (p : Pool α) (hs : List (Handle α)) :
    (p.giveBack hs).destroyed
      = ((hs.reverse.drop (p.capacity - p.stack.length)).map (·.serial)).reverse
        ++ p.destroyed := by
  induction hs with
  | nil => simp [giveBack]
  | cons h hs ih =>
      have hroom : p.capacity - (p.giveBack hs).stack.length
          = p.capacity - p.stack.length - hs.reverse.length := by
        rw [stack_giveBack]
        simp only [List.length_append, List.length_take, List.length_reverse]
        omega
      rw [giveBack_cons, (stack_release _ h).2, capacity_giveBack, ih, hroom, List.reverse_cons,
        List.drop_append, List.map_append, List.reverse_append, List.append_assoc]
      congr 1
      generalize p.capacity - p.stack.length - hs.reverse.length = k
      cases k <;> simp

/-! ## In and out -/

/-- Nested blocks draw their handles, run what is inside if they got them all, and give them
back. -/
theorem nest_eq (body : List (Handle α) → Except Failure β) (uses : List (α → α))
    (seen : List (Handle α)) (p : Pool α) :
    (nest body uses seen p).2
        = (p.draw uses.length).2.giveBack (usedBy uses (p.draw uses.length).1)
      ∧ ((p.draw uses.length).1.length = uses.length →
        (nest body uses seen p).1 = body (seen ++ usedBy uses (p.draw uses.length).1))
      ∧ ((p.draw uses.length).1.length < uses.length →
        ∃ e, p.factory (p.draw uses.length).2.attempts = .error e
          ∧ (nest body uses seen p).1 = .error (.error e)) := by
  induction uses generalizing seen p with
  | nil => exact ⟨rfl, by simp [nest, draw, usedBy], fun hlt => absurd hlt (Nat.not_lt_zero _)⟩
  | cons use inner ih =>
      have hfactory := factory_checkout p
      rcases hc : p.checkout with ⟨e | h, p'⟩ <;> rw [hc] at hfactory
      · rw [List.length_cons, draw_refused hc, nest_refused hc]
        refine ⟨rfl, fun hlen => absurd hlen (by simp), fun _ => ⟨e, ?_, rfl⟩⟩
        rcases checkout_cases p with ⟨g, rest, _, hp⟩ | ⟨_, v, _, hp⟩ | ⟨_, f, hf, hp⟩
        · exact absurd (congrArg Prod.fst (hc.symm.trans hp)) (by simp)
        · exact absurd (congrArg Prod.fst (hc.symm.trans hp)) (by simp)
        · obtain ⟨he, rfl⟩ := Prod.mk.inj (hc.symm.trans hp)
          obtain rfl := Except.error.inj he
          exact hf
      · obtain ⟨hpool, hfull, hshort⟩ := ih (seen ++ [used use h]) p'
        rw [List.length_cons, draw_lent hc, nest_lent hc, ← hfactory]
        refine ⟨congrArg (fun q : Pool α => q.release (used use h)) hpool, fun hlen => ?_,
          fun hlt => hshort (Nat.lt_of_succ_lt_succ hlt)⟩
        rw [hfull (Nat.succ.inj hlen), List.append_assoc]
        rfl

/-! ## Nothing is lost on the way -/

/-- Where the handles are told apart, only their numbers count. -/
theorem Settled.of_serials (hs : Settled p out returned)
    (hsame : out'.map (·.serial) = out.map (·.serial)) : Settled p out' returned where
  one_place := by
    have hp := hs.one_place
    rw [List.map_append] at hp ⊢
    rwa [hsame]
  bounded := hs.bounded
  latest := hs.latest

theorem Settled.draw (n : Nat) (hs : Settled p out returned) :
    Settled (p.draw n).2 ((p.draw n).1 ++ out) returned := by
  induction n generalizing p out with
  | zero => exact hs
  | succ n ih =>
      rcases hc : p.checkout with ⟨e | h, p'⟩
      · rw [draw_refused hc]
        exact hs.checkout_error hc
      · rw [draw_lent hc]
        exact (ih (hs.checkout_ok hc)).perm List.perm_middle

theorem Settled.giveBack (hs : Settled p (hs' ++ out) returned) :
    ∃ later, Settled (p.giveBack hs') out later := by
  induction hs' generalizing out with
  | nil => exact ⟨returned, hs⟩
  | cons h rest ih =>
      obtain ⟨later, hlater⟩ := ih (hs.perm List.perm_middle.symm)
      exact ⟨_, hlater.release⟩

/-- Handles that are drawn are none that are out already, and no two are the same. -/
theorem Settled.apart_draw (hs : Settled p out returned) (n : Nat) :
    ((p.draw n).1.map (·.serial) ++ out.map (·.serial)).Nodup := by
  have hn := (hs.draw n).nodup
  rw [List.map_append, List.map_append, List.append_assoc] at hn
  have hmid := (List.nodup_append.mp hn).2.1
  exact (List.nodup_append.mp hmid).1

namespace Loans

/-- How blocks inside each other end, and how they leave the pool. -/
structure GivesBack (before : Loans α) (uses : List (α → α))
    (body : List (Handle α) → Except Failure β) (acquired : List (Handle α)) (left : Pool α)
    (outcome : Except Failure β) (after : Pool α) : Prop where
  /-- Once every block has its handle, all end as the innermost one: with its value, with its error,
  or by unwinding. -/
  innermost : acquired.length = uses.length → outcome = body (usedBy uses acquired)
  /-- Otherwise the factory was asked and has failed; its error is the outcome, and no innermost
  block has any part in what happens. -/
  refused : acquired.length ≠ uses.length → acquired.length < uses.length ∧ left.idle = []
    ∧ before.pool.attempts < left.attempts
    ∧ ∃ e, before.pool.factory left.attempts = .error e ∧ outcome = .error (.error e)
      ∧ ∀ other : List (Handle α) → Except Failure β,
          nest other uses [] before.pool = (outcome, after)
  /-- The idle handles are taken first, from the top of the stack down. -/
  reused : acquired.take before.pool.stack.length
    = before.pool.stack.reverse.take acquired.length
  /-- All others were made by the factory in the meantime. -/
  fresh : ∀ h ∈ acquired.drop before.pool.stack.length,
    before.pool.factory h.serial = .ok h.value ∧ before.pool.attempts < h.serial
  underneath : left.stack
    = before.pool.stack.take (before.pool.stack.length - acquired.length)
  /-- What lay underneath is still there. On top of it are the handles of the blocks, that of the
  innermost one first, as far as there is room. -/
  stack : after.stack = left.stack
    ++ (usedBy uses acquired).reverse.take (before.pool.capacity - left.stack.length)
  /-- The handles for which there is no room are destroyed, and nothing else. -/
  destroyed : after.destroyed = (((usedBy uses acquired).reverse.drop
      (before.pool.capacity - left.stack.length)).map (·.serial)).reverse ++ before.pool.destroyed
  /-- With as many idle handles as blocks, the stack is what it was, but for what the blocks have
  done inside their handles. -/
  restored : uses.length ≤ before.pool.stack.length →
    acquired.length = uses.length ∧ after.stack = left.stack ++ (usedBy uses acquired).reverse
      ∧ after.stack.map (·.serial) = before.pool.stack.map (·.serial)
      ∧ after.destroyed = before.pool.destroyed
  apart : (acquired.map (·.serial)).Nodup
  unshared : ∀ g ∈ before.held, g.2.serial ∉ acquired.map (·.serial)
  /-- Every handle that was ever made is idle, or held by a guard that was there before, or
  destroyed. -/
  one_place : ((after.idle ++ before.held.map (·.2)).map (·.serial) ++ after.destroyed).Perm
    after.made
  /-- Told by guards, one for each block: they are all gone in the end, and the others are what they
  were. -/
  guards : ∀ callers : List String, callers.length = uses.length → callers.Nodup →
    (∀ c ∈ callers, before.handle? c = none) →
    ∃ ms : List (Move α), (∀ m ∈ ms, m.caller ∈ callers)
      ∧ performAll ms before = ⟨after, before.held⟩

variable {capacity : Nat} {factory : Nat → Except Error α} {r : Recorded α}

/-- **Nested blocks give back every handle**, in whatever way the innermost one ends. -/
theorem GivesBack.of_sound (hr : r.Sound capacity factory) (uses : List (α → α))
    (body : List (Handle α) → Except Failure β) :
    GivesBack r.loans uses body (r.loans.pool.draw uses.length).1
      (r.loans.pool.draw uses.length).2 (nest body uses [] r.loans.pool).1
      (nest body uses [] r.loans.pool).2 := by
  obtain ⟨hs, -, -, -⟩ := hr
  generalize r.loans = l at hs ⊢
  obtain ⟨hafter, hfull, hshort⟩ := nest_eq body uses [] l.pool
  have hle := length_draw_le uses.length l.pool
  have hserials := serials_usedBy hle
  have hunderneath := stack_draw uses.length l.pool
  have hstack := stack_giveBack (l.pool.draw uses.length).2
    (usedBy uses (l.pool.draw uses.length).1)
  have hdestroyed := destroyed_giveBack (l.pool.draw uses.length).2
    (usedBy uses (l.pool.draw uses.length).1)
  rw [capacity_draw, ← hafter] at hstack hdestroyed
  rw [destroyed_draw] at hdestroyed
  constructor
  case innermost => exact hfull
  case refused =>
    intro hne
    have hlt := Nat.lt_of_le_of_ne hle hne
    obtain ⟨hidle, hasked, e, he⟩ := refused_of_length_draw hlt
    obtain ⟨f, hf, houtcome⟩ := hshort hlt
    obtain rfl : f = e := Except.error.inj (hf.symm.trans he)
    refine ⟨hlt, hidle, hasked, f, hf, houtcome, fun other => ?_⟩
    obtain ⟨hother, -, hshort'⟩ := nest_eq other uses [] l.pool
    obtain ⟨g, hg, houtcome'⟩ := hshort' hlt
    obtain rfl : g = f := Except.error.inj (hg.symm.trans hf)
    exact Prod.ext (houtcome'.trans houtcome.symm) (hother.trans hafter.symm)
  case reused =>
    rw [length_stack, take_draw, reverse_stack]
  case fresh =>
    intro h hh
    rw [length_stack] at hh
    exact made_of_mem_drop hh
  case underneath => exact hunderneath
  case stack => exact hstack
  case destroyed => exact hdestroyed
  case restored =>
    intro hdeep
    rw [length_stack] at hdeep
    have hlen := length_draw_of_le hdeep
    have hwhole := stack_of_le hdeep
    -- the stack was not beyond the capacity, so there is room for all that came off it
    have hroom : (usedBy uses (l.pool.draw uses.length).1).reverse.length
        ≤ l.pool.capacity - (l.pool.draw uses.length).2.stack.length := by
      have hlength := congrArg List.length hwhole
      have hbounded := hs.bounded
      rw [length_stack, List.length_append, List.length_reverse] at hlength
      rw [List.length_reverse, length_usedBy hle]
      omega
    rw [List.take_of_length_le hroom] at hstack
    rw [List.drop_eq_nil_of_le hroom] at hdestroyed
    refine ⟨hlen, hstack, ?_, hdestroyed⟩
    rw [hstack, hwhole, List.map_append, List.map_append, List.map_reverse, List.map_reverse,
      hserials]
  case apart =>
    exact (List.nodup_append.mp (hs.apart_draw uses.length)).1
  case unshared =>
    intro g hg hm
    have happart := (List.nodup_append.mp (hs.apart_draw uses.length)).2.2
    exact happart _ hm _ (List.mem_map_of_mem (List.mem_map_of_mem hg)) rfl
  case one_place =>
    have hsame : (usedBy uses (l.pool.draw uses.length).1 ++ l.held.map (·.2)).map (·.serial)
        = ((l.pool.draw uses.length).1 ++ l.held.map (·.2)).map (·.serial) := by
      rw [List.map_append, List.map_append, hserials]
    obtain ⟨later, hlater⟩ := ((hs.draw uses.length).of_serials hsame).giveBack
    rw [hafter]
    exact hlater.one_place
  case guards =>
    intro callers hlen hn hfree
    have hnames : (callers.zip uses).map (·.1) = callers := List.map_fst_zip (Nat.le_of_eq hlen)
    have huses : (callers.zip uses).map (·.2) = uses := List.map_snd_zip (Nat.le_of_eq hlen.symm)
    have hmoves := nest_eq_moves body (callers.zip uses) [] l
    rw [hnames, huses] at hmoves
    exact hmoves hn hfree

/-- **Nested use gives back every handle.**

Take a pool of any capacity and with any factory at any moment, after whatever moves of whatever
callers, and run blocks inside each other, each with a handle of its own from the pool. -/
theorem nested_use_gives_back (name : String) (capacity : Nat) (factory : Nat → Except Error α)
    (moves : List (Move α)) (uses : List (α → α)) (body : List (Handle α) → Except Failure β) :
    let before := performAll moves (.start (.empty name capacity factory))
    GivesBack before uses body (before.pool.draw uses.length).1 (before.pool.draw uses.length).2
        (nest body uses [] before.pool).1 (nest body uses [] before.pool).2
      ∧ ∀ use ending depth,
        (nested use ending depth before.pool).1.2
            = (nest (fun _ => ending) (List.replicate depth use) [] before.pool).1
          ∧ (nested use ending depth before.pool).2
            = (nest (fun _ => ending) (List.replicate depth use) [] before.pool).2 := by
  intro before
  have hr := Recorded.sound_moves moves (Recorded.sound_start name capacity factory)
  have hbefore := Recorded.moves_loans moves (Recorded.start name capacity factory)
  refine ⟨?_, fun use ending depth => nested_eq_nest use ending depth [] before.pool⟩
  have hgives := GivesBack.of_sound hr uses body
  rw [hbefore] at hgives
  exact hgives

end Loans
end PooledCrypto.Pool
