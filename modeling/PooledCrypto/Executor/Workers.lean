import PooledCrypto.Error

/-!
# A pool of workers over one queue

Callers put jobs into a queue. A worker that is idle takes the job at the front, runs it, and
reports to the caller of that job and to no other. A job that unwinds does so on the worker only:
the worker goes on with the next job, and the caller learns that there is no result.

The steps of callers and workers interleave in any order (`Workers.step`). A job is queued, then
running, then finished, and its caller is answered (`Workers.answer?`) once it is finished.
-/

namespace PooledCrypto.Executor

/-- How a piece of work ends: with a value, or by unwinding. -/
inductive Ending (α : Type)
  | returns (value : α)
  | unwinds
  deriving DecidableEq, Repr

/-- The value a piece of work ends with. -/
def Ending.value? {α : Type} : Ending α → Option α
  | .returns value => some value
  | .unwinds => none

/-- A job, with the number it got when it was put into the queue. -/
structure Job (α : Type) where
  ticket : Nat
  work : Ending α
  deriving DecidableEq, Repr

/-- Workers and the jobs they were given. -/
structure Workers (α : Type) where
  /-- How many workers there are. -/
  threads : Nat
  /-- The ticket of the next job. -/
  nextTicket : Nat
  /-- The jobs that wait, the oldest in front. -/
  queued : List (Job α)
  /-- The busy workers, each with its job. -/
  running : List (Nat × Job α)
  /-- The jobs that are done, the latest in front. -/
  finished : List (Job α)
  deriving Repr

/-- What callers and workers do. -/
inductive Event (α : Type)
  /-- A caller puts a job into the queue. -/
  | submit (work : Ending α)
  /-- A worker takes the job at the front. -/
  | take (worker : Nat)
  /-- A worker is done with its job. -/
  | complete (worker : Nat)
  deriving DecidableEq, Repr

namespace Workers

variable {α : Type}

/-- Idle workers, at least one. -/
def start (threads : Nat) : Workers α := ⟨max threads 1, 0, [], [], []⟩

/-- The job a worker runs. -/
def job? (w : Workers α) (worker : Nat) : Option (Job α) :=
  (w.running.find? fun r => r.1 == worker).map (·.2)

/-- Puts a job into the queue. -/
def submit (w : Workers α) (work : Ending α) : Workers α :=
  { w with nextTicket := w.nextTicket + 1, queued := w.queued ++ [⟨w.nextTicket, work⟩] }

/-- Lets a worker take the job at the front. Nothing happens if the worker is busy or does not
exist, or if no job waits. -/
def take (w : Workers α) (worker : Nat) : Workers α :=
  if worker < w.threads ∧ (w.job? worker).isNone then
    match w.queued with
    | [] => w
    | job :: rest => { w with queued := rest, running := (worker, job) :: w.running }
  else w

/-- Lets a worker finish its job. Nothing happens if it has none. -/
def complete (w : Workers α) (worker : Nat) : Workers α :=
  match w.job? worker with
  | none => w
  | some job =>
    { w with
      running := w.running.filter fun r => r.1 != worker
      finished := job :: w.finished }

/-- What an event does. -/
def step (w : Workers α) : Event α → Workers α
  | .submit work => w.submit work
  | .take worker => w.take worker
  | .complete worker => w.complete worker

/-- What a sequence of events does. -/
def run (w : Workers α) (events : List (Event α)) : Workers α := events.foldl step w

/-- What the caller of a finished job is told: that it ran, or that it unwound. -/
def report (job : Job α) : Except Failure Unit :=
  match job.work with
  | .returns _ => .ok ()
  | .unwinds => .error (.error (.execution .workerUnwound))

/-- What the caller of a job gets, once the job is finished: the value the job itself produced, or
an error if it produced none. -/
def answer? (w : Workers α) (ticket : Nat) : Option (Except Failure α) :=
  (w.finished.find? fun job => job.ticket == ticket).map fun job =>
    match report job with
    | .error f => .error f
    | .ok () =>
      match job.work.value? with
      | some value => .ok value
      | none => .error (.error (.execution .noResult))

/-- Whether workers that are otherwise idle run a job to its end, and what its caller is told. -/
def single (threads : Nat) (work : Ending Unit) : Except Failure Unit :=
  let done := (start threads).run [.submit work, .take 0, .complete 0]
  (done.answer? 0).getD (.error (.error (.execution .noResult)))

/-- A job given to idle workers is answered by how it ends. -/
theorem single_eq (threads : Nat) (work : Ending Unit) :
    single threads work = report ⟨0, work⟩ := by
  have positive : 0 < max threads 1 := by omega
  cases work <;>
    simp [single, run, step, start, submit, take, job?, complete, answer?, report, Ending.value?,
      positive]

end Workers
end PooledCrypto.Executor
