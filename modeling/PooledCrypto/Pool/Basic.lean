import PooledCrypto.Room

/-!
# Pools of reusable handles

A pool keeps handles that are expensive to make. Whoever needs one checks it out and gives it back
afterwards. A checkout takes the handle that came back last, and only when none is idle does it ask
the pool's factory for a new one. A handle that comes back is kept as long as fewer than `capacity`
are idle, and is destroyed otherwise. The capacity therefore bounds what is kept and never what is
lent.

Every handle carries the number of the factory call that made it, so that one can say which handle
is where: `checkout` and `release` say what becomes of each.
-/

namespace PooledCrypto

/-- A handle and the number of the factory call that made it. -/
structure Handle (α : Type) where
  serial : Nat
  value : α
  deriving Repr

/-- A pool of handles. -/
structure Pool (α : Type) where
  /-- What the pool serves. -/
  name : String
  /-- How many idle handles are kept at most. -/
  capacity : Nat
  /-- Makes the handle of the `k`-th call, counted from 1, or fails. -/
  factory : Nat → Except Error α
  /-- How often the factory was called. -/
  attempts : Nat
  /-- The idle handles, the one that came back last in front. -/
  idle : List (Handle α)
  /-- The serials of the destroyed handles, the latest in front. -/
  destroyed : List Nat

namespace Pool

variable {α : Type}

/-- A pool that has made no handle yet. -/
def empty (name : String) (capacity : Nat) (factory : Nat → Except Error α) : Pool α :=
  ⟨name, capacity, factory, 0, [], []⟩

/-- A new pool, with room set aside at once for as many idle handles of `handleBytes` bytes each as
it may keep. -/
def reserve (handleBytes : Nat) (name : String) (capacity : Nat)
    (factory : Nat → Except Error α) : Except Failure (Pool α) :=
  (Room.reserve (capacity * handleBytes)).map fun _ => empty name capacity factory

/-- Takes the handle that came back last or, if none is idle, a new one. -/
def checkout (p : Pool α) : Except Error (Handle α) × Pool α :=
  match p.idle with
  | h :: rest => (.ok h, { p with idle := rest })
  | [] =>
    let call := p.attempts + 1
    let made := (p.factory call).map fun value => Handle.mk call value
    (made, { p with attempts := call })

/-- Takes a handle back. -/
def release (p : Pool α) (h : Handle α) : Pool α :=
  if p.idle.length < p.capacity then { p with idle := h :: p.idle }
  else { p with destroyed := h.serial :: p.destroyed }

/-- Lends a handle to a block of work. The handle comes back however the block ends. -/
def lend {β : Type} (p : Pool α)
    (block : Handle α → Pool α → Except Failure β × Handle α × Pool α) :
    Except Failure β × Pool α :=
  match p.checkout with
  | (.error e, p) => (.error (.error e), p)
  | (.ok h, p) =>
    let (result, h, p) := block h p
    (result, p.release h)

/-- The pool as diagnostics show it. -/
def debug (p : Pool α) : String :=
  Text.record "ResourcePool" [("name", Text.quoted p.name), ("capacity", toString p.capacity),
    ("idle", toString p.idle.length)]

@[simp] theorem name_checkout (p : Pool α) : p.checkout.2.name = p.name := by
  unfold checkout
  split <;> rfl

@[simp] theorem capacity_checkout (p : Pool α) : p.checkout.2.capacity = p.capacity := by
  unfold checkout
  split <;> rfl

@[simp] theorem name_release (p : Pool α) (h : Handle α) : (p.release h).name = p.name := by
  unfold release
  split <;> rfl

@[simp] theorem capacity_release (p : Pool α) (h : Handle α) :
    (p.release h).capacity = p.capacity := by
  unfold release
  split <;> rfl

/-- A release keeps one handle more, up to the capacity. -/
theorem length_idle_release (p : Pool α) (h : Handle α) (within : p.idle.length ≤ p.capacity) :
    (p.release h).idle.length = min (p.idle.length + 1) p.capacity := by
  unfold release
  split
  · simp
    omega
  · simp
    omega

end Pool
end PooledCrypto
