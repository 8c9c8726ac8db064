import PooledCrypto.Action
import PooledCrypto.Parameters.Basic

/-!
# Factories of operations

A factory makes operations from parameters. It can be asked for an operation with its default
parameters, with given ones, or with changes to the defaults, which are checked first. Asking never
changes the factory; a factory with other defaults is another value.
-/

namespace PooledCrypto

/-- Makes an `ο` from parameters `π` by work on a state `σ`. -/
structure Factory (σ π ο : Type) where
  defaults : π
  construct : π → Action σ ο

namespace Factory

variable {σ π ο : Type}

/-- Makes an operation with the default parameters. -/
def create (f : Factory σ π ο) : Action σ ο := f.construct f.defaults

/-- Makes an operation with given parameters. -/
def createWith (f : Factory σ π ο) (p : π) : Action σ ο := f.construct p

/-- The defaults with changes, checked. -/
def changed [Parameters π] (f : Factory σ π ο) (changes : π → π) : Except Error π :=
  Parameters.check (changes f.defaults)

/-- Makes an operation with changes to the default parameters. -/
def configure [Parameters π] (f : Factory σ π ο) (changes : π → π) : Action σ ο :=
  match f.changed changes with
  | .ok p => f.construct p
  | .error e => Action.fail e

/-- The factory with other defaults. -/
def withDefaults (f : Factory σ π ο) (p : π) : Factory σ π ο := { f with defaults := p }

/-- The factory as diagnostics show it. -/
def debug [Parameters π] (f : Factory σ π ο) : String :=
  Text.partialRecord "OperationFactory" [("defaults", Parameters.debug f.defaults)]

/-- The ways in which a factory can be asked for an operation. -/
inductive Route
  /-- With the defaults, whatever changes are asked for. -/
  | create
  /-- With changes to the defaults. -/
  | configure
  /-- With the changed and checked defaults as given parameters. -/
  | createWith
  /-- With a factory that has the changed and checked defaults as its own. -/
  | withDefaults
  deriving DecidableEq, Repr

/-- Asks for an operation in one of the ways. -/
def make [Parameters π] (f : Factory σ π ο) (route : Route) (changes : π → π) : Action σ ο :=
  match route with
  | .create => f.create
  | .configure => f.configure changes
  | .createWith =>
    match f.changed changes with
    | .ok p => f.createWith p
    | .error e => Action.fail e
  | .withDefaults =>
    match f.changed changes with
    | .ok p => (f.withDefaults p).create
    | .error e => Action.fail e

/-- All ways that heed the changes come to the same. -/
theorem make_eq_configure [Parameters π] (f : Factory σ π ο) (route : Route) (changes : π → π)
    (heeds : route ≠ .create) : f.make route changes = f.configure changes := by
  cases route with
  | create => exact absurd rfl heeds
  | configure => rfl
  | createWith => rfl
  | withDefaults => rfl

end Factory
end PooledCrypto
