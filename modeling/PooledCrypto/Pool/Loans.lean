import PooledCrypto.Pool.Basic

/-!
# A pool and what is lent from it

The handles that callers hold are kept beside their pool, each under the name its caller gave it.
Together the two hold every handle that exists: it is idle, held, or destroyed.

Work can also be nested: each level borrows a handle for itself and runs the next level inside, and
on the way out the handles come back in the opposite order.
-/

namespace PooledCrypto.Pool

variable {α : Type}

/-- A pool together with the handles held from it, by name. -/
structure Loans (α : Type) where
  pool : Pool α
  held : List (String × Handle α)

namespace Loans

/-- A pool from which nothing is lent. -/
def start (pool : Pool α) : Loans α := ⟨pool, []⟩

/-- The handle held under a name. -/
def handle? (l : Loans α) (name : String) : Option (Handle α) :=
  (l.held.find? fun g => g.1 == name).map (·.2)

/-- Gives back what is held under a name. -/
def release (l : Loans α) (name : String) : Option (Handle α) × Loans α :=
  match l.handle? name with
  | none => (none, l)
  | some h => (some h, ⟨l.pool.release h, l.held.filter fun g => g.1 != name⟩)

/-- Borrows a handle, uses it once and holds it under a name. What was held there before comes back
afterwards. -/
def checkout (l : Loans α) (name : String) (use : α → α) :
    Except Error (Handle α) × Loans α :=
  match l.pool.checkout with
  | (.error e, pool) => (.error e, { l with pool })
  | (.ok h, pool) =>
    let h : Handle α := ⟨h.serial, use h.value⟩
    let (_, after) := release { l with pool } name
    (.ok h, { after with held := (name, h) :: after.held })

/-- A handle that is held, as diagnostics show it. -/
def debug (l : Loans α) : String :=
  Text.partialRecord "Pooled" [("pool", Text.quoted l.pool.name)]

end Loans

/-- Runs `depth` levels of borrowing inside each other. Each level uses its handle once and notes it
before it goes on; the innermost one ends as `ending` says. -/
def nested (use : α → α) (ending : Except Failure Unit) :
    Nat → Pool α → (List (Handle α) × Except Failure Unit) × Pool α
  | 0, p => (([], ending), p)
  | depth + 1, p =>
    match p.checkout with
    | (.error e, p) => (([], .error (.error e)), p)
    | (.ok h, p) =>
      let h : Handle α := ⟨h.serial, use h.value⟩
      let ((seen, result), p) := nested use ending depth p
      ((h :: seen, result), p.release h)

end PooledCrypto.Pool
