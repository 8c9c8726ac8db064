import PooledCrypto.Executor.Workers

/-!
# Executors

An executor runs blocks of work for callers who wait for the result. How a block is run is up to the
executor's adaptor: in the caller's place, on a thread kept for blocking work, or on a pool of
workers. A block that returns gives the same result on each of them.

A block that unwinds is reported as an error by an adaptor that runs it elsewhere. One that runs it
in the caller's place has nowhere to catch it, and the caller unwinds.

Workers have threads of their own, which the system has to start. It may start fewer than it is
asked for, and then there is no pool of workers.
-/

namespace PooledCrypto

namespace Executor

/-- A way of running tasks. -/
structure Adaptor where
  name : String
  /-- Whether a task that is handed over is run at all. -/
  runs : Bool
  /-- What the caller is told of a task that ends in the given way. -/
  report : Ending Unit → Except Failure Unit

namespace Adaptor

/-- Runs a task in the caller's place. -/
def inPlace : Adaptor where
  name := "inline"
  runs := true
  report
    | .returns () => .ok ()
    | .unwinds => .error .unwound

/-- Runs a task on a thread kept for blocking work. -/
def blocking : Adaptor where
  name := "blocking"
  runs := true
  report
    | .returns () => .ok ()
    | .unwinds => .error (.error (.execution .blockingUnwound))

/-- Runs a task on a pool of workers. -/
def workers (threads : Nat) : Adaptor where
  name := "workers"
  runs := true
  report := Workers.single threads

/-- Forgets about a task and says that it was run. -/
def dropping : Adaptor where
  name := "dropping"
  runs := false
  report _ := .ok ()

/-- Refuses every task with the same error. -/
def refusing (name : String) (e : Error) : Adaptor where
  name := name
  runs := false
  report _ := .error (.error e)

/-- A pool of workers as diagnostics show it. -/
def workersDebug (threads : Nat) : String :=
  Text.record "WorkerPoolAdaptor" [("threads", toString (max threads 1))]

end Adaptor

/-- What the system gives for workers. -/
structure Threads where
  /-- How many threads it starts at most. -/
  most : Nat
  /-- Why it starts no more. -/
  refusal : String

/-- Whether as many workers can be started. There is one at least. -/
def Threads.Suffice (t : Threads) (count : Nat) : Prop := max count 1 ≤ t.most

instance (t : Threads) (count : Nat) : Decidable (t.Suffice count) :=
  inferInstanceAs (Decidable (_ ≤ _))

end Executor

/-- Runs blocks of work by an adaptor. -/
structure Executor where
  adaptor : Executor.Adaptor

namespace Executor

variable {α : Type}

/-- The executor that runs blocks in the caller's place. -/
def inPlace : Executor := ⟨.inPlace⟩

/-- The executor with workers of its own. The first that cannot be started is the last to be tried. -/
def startWorkers (count : Nat) (threads : Threads) : Except Error Executor :=
  if threads.Suffice count then .ok ⟨.workers count⟩
  else .error (.execution (.noThread threads.refusal))

/-- What the executor is called. -/
def name (e : Executor) : String := e.adaptor.name

/-- The task that runs a block and keeps its result. -/
def task (block : Ending α) : Ending Unit :=
  match block with
  | .returns _ => .returns ()
  | .unwinds => .unwinds

/-- Runs a block. Its result is there if the adaptor ran the block and the block returned. -/
def execute (e : Executor) (block : Ending α) : Except Failure α :=
  match e.adaptor.report (task block) with
  | .error f => .error f
  | .ok () =>
    match if e.adaptor.runs then block.value? else none with
    | some value => .ok value
    | none => .error (.error (.execution .noResult))

/-- Runs blocks one after the other. -/
def executeAll (e : Executor) (blocks : List (Ending α)) : List (Except Failure α) :=
  blocks.map e.execute

/-- How a call ends as a block of work: its errors are results. -/
def ending (result : Except Failure α) : Ending (Except Error α) :=
  match result with
  | .ok value => .returns (.ok value)
  | .error (.error e) => .returns (.error e)
  | .error .unwound => .unwinds

/-- The executor as diagnostics show it. -/
def debug (e : Executor) : String :=
  Text.record "Executor" [("adaptor", Text.quoted e.name)]

/-- Every adaptor that runs its tasks gives the value of a block that returns. -/
theorem execute_returns (e : Executor) (value : α) (runs : e.adaptor.runs = true)
    (reported : e.adaptor.report (.returns ()) = .ok ()) :
    e.execute (.returns value) = .ok value := by
  simp [execute, task, reported, runs, Ending.value?]

end Executor
end PooledCrypto
