import PooledCrypto.Error

/-!
# Actions

An action works on a shared state and ends with a value, with an error, or by unwinding. What it did
to the state before it failed stays done.
-/

namespace PooledCrypto

/-- Work on a state of type `σ` that gives an `α` or fails. -/
abbrev Action (σ α : Type) := ExceptT Failure (StateM σ) α

namespace Action

variable {σ α β : Type}

/-- Ends with an error. -/
def fail (e : Error) : Action σ α := fun s => (.error (.error e), s)

/-- Ends as a result that does not touch the state. -/
def ofExcept (r : Except Error α) : Action σ α := fun s =>
  match r with
  | .ok a => (.ok a, s)
  | .error e => (.error (.error e), s)

/-- Ends as a function on the state says. -/
def ofStep (step : σ → Except Failure α × σ) : Action σ α := step

/-- Changes the state. -/
def change (f : σ → σ) : Action σ Unit := fun s => (.ok (), f s)

/-- Runs an action on a state. -/
def runOn (a : Action σ α) (s : σ) : Except Failure α × σ := a s

end Action
end PooledCrypto
