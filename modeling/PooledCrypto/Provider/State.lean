import PooledCrypto.Action
import PooledCrypto.Config
import PooledCrypto.Entropy
import PooledCrypto.Mac.Hmac
import PooledCrypto.Pool.Directory

/-!
# What a provider's operations share

All operations of a provider run on one executor, draw from one source of randomness, and take their
contexts from the provider's pools. Digest contexts come from pools that are found by name; the
contexts of a MAC key come from a pool of that key's own, which is found by its number.
-/

namespace PooledCrypto.Provider

/-- The types of handle that pools found by name can hold. -/
inductive HandleType
  /-- Digest contexts. -/
  | digest
  /-- Plain numbers. -/
  | number
  /-- Plain texts. -/
  | text
  /-- Plain numbers of the larger kind. -/
  | largeNumber
  deriving DecidableEq, Repr

namespace HandleType

/-- The handles of a type. -/
abbrev carrier : HandleType → Type
  | .digest => Digest.Context
  | .number => Nat
  | .text => String
  | .largeNumber => Nat

/-- The bytes that room for a handle takes. -/
def size : HandleType → Nat
  | .digest => 16
  | .number => 4
  | .text => 24
  | .largeNumber => 8

end HandleType

/-- Pools by name. -/
abbrev Pools := Pool.Directory HandleType HandleType.carrier

/-- What the operations of a provider share. -/
structure State where
  executor : Executor
  entropy : Entropy
  pools : Pools
  /-- The pools of the MAC keys. -/
  macPools : List (Pool Mac.Context)

namespace State

/-- A state on an executor, without pools. -/
def start (executor : Executor) (entropy : Entropy) (capacity : Nat) : State :=
  ⟨executor, entropy, .empty capacity, []⟩

/-- What a provider is set up with besides its configuration. -/
structure Surroundings where
  entropy : Entropy
  /-- How many processors there are. -/
  processors : Nat
  /-- Whether a runtime for blocking work is running. -/
  runtime : Bool
  /-- The threads that there are for workers. -/
  threads : Executor.Threads

/-- The state of a configuration. -/
def ofConfig (around : Surroundings) (config : Config) : Except Error State := do
  let executor ← config.execution.build around.runtime around.threads
  return start executor around.entropy (config.effectiveCapacity around.processors)

/-- The state as diagnostics show it. -/
def debug (s : State) : String :=
  Text.record "ProviderState" [("pools", s.pools.debug), ("executor", s.executor.debug)]

end State

/-- Work on the source of randomness alone. -/
def drawing {α : Type} (draw : Entropy → Except Failure α × Entropy) : Action State α := fun s =>
  let (result, entropy) := draw s.entropy
  (result, { s with entropy })

theorem drawing_apply {α : Type} (draw : Entropy → Except Failure α × Entropy) (s : State) :
    drawing draw s = ((draw s.entropy).1, { s with entropy := (draw s.entropy).2 }) := rfl

/-- Draws random bytes. -/
def drawBytes (len : Nat) : Action State Bytes := drawing fun e => e.bytes len

/-- With room, as many bytes are drawn as are asked for, or the source does not work. All that
changes is the source. -/
theorem drawBytes_cases (s : State) {len : Nat} (hroom : len ≤ Room.most) :
    (∃ bytes entropy, drawBytes len s = (.ok bytes, { s with entropy }) ∧ bytes.length = len)
      ∨ ¬s.entropy.Works ∧ ∃ why entropy,
        drawBytes len s = (.error (.error (.randomSource why)), { s with entropy }) := by
  rcases s.entropy.bytes_cases hroom with ⟨bytes, entropy, hdrawn, hlength⟩ | ⟨hbroken, why, entropy, h⟩
  · refine Or.inl ⟨bytes, entropy, ?_, hlength⟩
    rw [drawBytes, drawing_apply, hdrawn]
  · refine Or.inr ⟨hbroken, why, entropy, ?_⟩
    rw [drawBytes, drawing_apply, h]

theorem drawBytes_of_works {s : State} {len : Nat} (h : s.entropy.Works) (hroom : len ≤ Room.most) :
    ∃ bytes entropy, drawBytes len s = (.ok bytes, { s with entropy }) ∧ bytes.length = len := by
  rcases drawBytes_cases s hroom with hdrawn | ⟨hbroken, -⟩
  · exact hdrawn
  · exact absurd h hbroken

/-- An operation: what does the work, and the executor for callers who wait for it. -/
structure Operation (κ : Type) where
  core : κ
  executor : Executor

namespace Operation

/-- An operation on a provider's executor. -/
def make {κ : Type} (core : κ) : Action State (Operation κ) := fun s => (.ok ⟨core, s.executor⟩, s)

/-- The operation as diagnostics show it. -/
def debug {κ : Type} (o : Operation κ) : String :=
  Text.partialRecord "Operation" [("executor", o.executor.debug)]

end Operation

/-- Runs work on an executor. Work that the executor does not run changes nothing. -/
def offload {σ α : Type} (executor : Executor) (work : Action σ α) : Action σ α := fun s =>
  let (result, after) := work s
  let answer : Except Failure α :=
    match executor.execute (Executor.ending result) with
    | .ok (.ok value) => .ok value
    | .ok (.error e) => .error (.error e)
    | .error f => .error f
  (answer, if executor.adaptor.runs then after else s)

/-- The two shapes of a call. -/
inductive Shape
  /-- The caller does the work. -/
  | direct
  /-- The operation's executor does it. -/
  | offloaded
  deriving DecidableEq, Repr

/-- Makes a call in one of its shapes. -/
def Operation.call {κ α : Type} (o : Operation κ) (shape : Shape) (work : Action State α) :
    Action State α :=
  match shape with
  | .direct => work
  | .offloaded => offload o.executor work

end PooledCrypto.Provider
