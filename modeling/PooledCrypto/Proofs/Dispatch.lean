import Mathlib.Data.List.Nodup
import Mathlib.Data.List.Perm.Basic
import PooledCrypto.Executor.Basic

/-!
# Jobs and their callers

A call to a pool of workers is a job in the queue and two channels that carry one value each: one for
the block's result, and one that says that the job is over. The block puts its result into the first
when it returns; unwinding drops both unused, the first one on the way out of the block and the
second one once the worker has caught it. `Dispatch` is the pool with all these channels and with
the callers behind them, and `Act` is everything that can happen, in any order.

Every job that was accepted has one entry in the ledger, with the place it is in (`ledger`). The
invariant `Kept` says what its channels and its caller can be like in that place. Each act moves at
most one entry, so it is enough to look at that one (`Kept.move`).
-/

namespace PooledCrypto.Executor

/-! ## Channels and callers -/

/-- A channel for one value, as its receiver sees it. -/
inductive Oneshot (β : Type)
  | empty
  | sent (value : β)
  /-- The sender is gone, and nothing was sent. -/
  | dropped

/-- How far the caller of a job is. -/
inductive Caller (α : Type)
  /-- It waits for the job to be over. -/
  | waiting
  /-- The job is over, and the caller goes for the result. -/
  | collecting
  | resolved (result : Except Failure α)
  /-- It has stopped waiting. -/
  | gone

/-- The channels of a job and its caller. -/
structure Call (α : Type) where
  /-- Says that the job is over. -/
  done : Oneshot Unit
  result : Oneshot α
  caller : Caller α

variable {α : Type}

/-- A call that was just made. -/
def Call.opened : Call α := ⟨.empty, .empty, .waiting⟩

/-- What a piece of work does to the channel that waits for its value. -/
def Ending.channel : Ending α → Oneshot α
  | .returns value => .sent value
  | .unwinds => .dropped

/-- What the caller of a block is owed. -/
def Ending.verdict : Ending α → Except Failure α
  | .returns value => .ok value
  | .unwinds => .error (.error (.execution .workerUnwound))

/-- What running a job comes to for its caller, once the job is over. -/
def Oneshot.ran? : Oneshot Unit → Option (Except Failure Unit)
  | .empty => none
  | .sent () => some (.ok ())
  | .dropped => some (.error (.error (.execution .workerUnwound)))

/-- What the caller finds when it goes for the result. -/
def Oneshot.found? : Oneshot α → Option (Except Failure α)
  | .empty => none
  | .sent value => some (.ok value)
  | .dropped => some (.error (.error (.execution .noResult)))

/-- Where a caller goes on after its job was run. -/
def Caller.after : Except Failure Unit → Caller α
  | .ok () => .collecting
  | .error f => .resolved (.error f)

/-- The calls after a change to one of them. -/
def setCall (calls : Nat → Call α) (ticket : Nat) (f : Call α → Call α) : Nat → Call α :=
  fun t => if t = ticket then f (calls t) else calls t

/-! ## The pool with its callers -/

/-- A pool of workers with the callers of its jobs. -/
structure Dispatch (α : Type) where
  workers : Workers α
  /-- The busy workers whose job has come to its end and is not reported yet. -/
  ended : List Nat
  /-- The tickets of the jobs that were executed, in the order in which they were begun. -/
  begun : List Nat
  /-- What running came to, for those callers that were told. -/
  runs : List (Nat × Except Failure Unit)
  /-- The calls by ticket. -/
  calls : Nat → Call α

/-- What can happen. -/
inductive Act (α : Type)
  /-- Somebody makes a call with a block. -/
  | submit (work : Ending α)
  /-- A worker takes the job at the front and begins to execute it. -/
  | take (worker : Nat)
  /-- The block that a worker executes returns or unwinds. -/
  | conclude (worker : Nat)
  /-- The worker reports that its job is over, or lets the caller notice that it unwound. -/
  | complete (worker : Nat)
  /-- A caller looks whether it can go on. -/
  | wake (ticket : Nat)
  /-- A caller stops waiting. -/
  | abandon (ticket : Nat)

/-- Whether it is the pool or a caller that goes on, without a new call and without giving up. -/
def Act.goesOn : Act α → Bool
  | .submit _ | .abandon _ => false
  | _ => true

/-- The blocks that were submitted, in order. -/
def blocks (acts : List (Act α)) : List (Ending α) :=
  acts.filterMap fun
    | .submit work => some work
    | _ => none

namespace Dispatch

/-- Idle workers, and no calls yet. -/
def start (threads : Nat) : Dispatch α := ⟨.start threads, [], [], [], fun _ => .opened⟩

/-- Puts a job with new channels into the queue. -/
def submit (d : Dispatch α) (work : Ending α) : Dispatch α :=
  { d with
    workers := d.workers.submit work
    calls := setCall d.calls d.workers.nextTicket fun _ => .opened }

/-- Lets an idle worker take the job at the front. -/
def take (d : Dispatch α) (worker : Nat) : Dispatch α :=
  if worker < d.workers.threads ∧ (d.workers.job? worker).isNone then
    match d.workers.queued with
    | [] => d
    | job :: _ => { d with workers := d.workers.take worker, begun := d.begun ++ [job.ticket] }
  else d

/-- Lets the block that a worker executes come to its end. -/
def conclude (d : Dispatch α) (worker : Nat) : Dispatch α :=
  match d.workers.job? worker with
  | none => d
  | some job =>
    if worker ∈ d.ended then d
    else
      { d with
        ended := worker :: d.ended
        calls := setCall d.calls job.ticket fun c => { c with result := job.work.channel } }

/-- Lets a worker report its job, which has come to its end, and be idle again. -/
def complete (d : Dispatch α) (worker : Nat) : Dispatch α :=
  match d.workers.job? worker with
  | none => d
  | some job =>
    if worker ∈ d.ended then
      { d with
        workers := d.workers.complete worker
        ended := d.ended.filter fun other => other != worker
        calls := setCall d.calls job.ticket fun c => { c with done := (task job.work).channel } }
    else d

/-- Lets a caller go on if its channel has something to say. -/
def wake (d : Dispatch α) (ticket : Nat) : Dispatch α :=
  if ticket < d.workers.nextTicket then
    match (d.calls ticket).caller with
    | .waiting =>
      match (d.calls ticket).done.ran? with
      | none => d
      | some r =>
        { d with
          runs := d.runs ++ [(ticket, r)]
          calls := setCall d.calls ticket fun c => { c with caller := .after r } }
    | .collecting =>
      match (d.calls ticket).result.found? with
      | none => d
      | some r =>
        { d with calls := setCall d.calls ticket fun c => { c with caller := .resolved r } }
    | _ => d
  else d

/-- Lets a caller stop waiting. -/
def abandon (d : Dispatch α) (ticket : Nat) : Dispatch α :=
  if ticket < d.workers.nextTicket then
    match (d.calls ticket).caller with
    | .resolved _ => d
    | _ => { d with calls := setCall d.calls ticket fun c => { c with caller := .gone } }
  else d

/-- What an act does. -/
def step (d : Dispatch α) : Act α → Dispatch α
  | .submit work => d.submit work
  | .take worker => d.take worker
  | .conclude worker => d.conclude worker
  | .complete worker => d.complete worker
  | .wake ticket => d.wake ticket
  | .abandon ticket => d.abandon ticket

/-- What acts do one after the other. -/
def perform (d : Dispatch α) (acts : List (Act α)) : Dispatch α := acts.foldl step d

end Dispatch

theorem setCall_self (calls : Nat → Call α) (ticket : Nat) (f : Call α → Call α) :
    setCall calls ticket f ticket = f (calls ticket) := if_pos rfl

theorem setCall_ne {t ticket : Nat} (h : t ≠ ticket) (calls : Nat → Call α)
    (f : Call α → Call α) : setCall calls ticket f t = calls t := if_neg h

/-- A change that leaves the caller alone leaves all callers alone. -/
theorem caller_setCall {f : Call α → Call α} (hf : ∀ c, (f c).caller = c.caller)
    (calls : Nat → Call α) (ticket t : Nat) :
    (setCall calls ticket f t).caller = (calls t).caller := by
  by_cases h : t = ticket
  · subst h
    rw [setCall_self, hf]
  · rw [setCall_ne h]

/-! ## The ledger -/

/-- Where a job is. -/
inductive Place
  | queued
  | running (worker : Nat)
  /-- Its block has come to an end, but the worker still has it. -/
  | ended (worker : Nat)
  | finished

/-- The entry of a busy worker's job. -/
def busyEntry (ended : List Nat) (r : Nat × Job α) : Place × Job α :=
  (if r.1 ∈ ended then .ended r.1 else .running r.1, r.2)

/-- All jobs, each with the place it is in. -/
def Dispatch.ledger (d : Dispatch α) : List (Place × Job α) :=
  d.workers.queued.map (fun job => (.queued, job))
    ++ (d.workers.running.map (busyEntry d.ended)
      ++ d.workers.finished.map (fun job => (.finished, job)))

/-- What the call of a job in a place can be like. -/
def Place.Fits (p : Place) (work : Ending α) (c : Call α) : Prop :=
  match p with
  | .queued | .running _ =>
    c.done = .empty ∧ c.result = .empty ∧ (c.caller = .waiting ∨ c.caller = .gone)
  | .ended _ =>
    c.done = .empty ∧ c.result = work.channel ∧ (c.caller = .waiting ∨ c.caller = .gone)
  | .finished =>
    c.done = (task work).channel ∧ c.result = work.channel
      ∧ (c.caller = .waiting ∨ c.caller = .gone
        ∨ (c.caller = .collecting ∧ ∃ value, work = .returns value)
        ∨ c.caller = .resolved work.verdict)

/-- Each of the submitted blocks has one entry, under its number, and a call that fits. -/
structure Kept (works : List (Ending α)) (ledger : List (Place × Job α))
    (calls : Nat → Call α) : Prop where
  tickets : (ledger.map (·.2.ticket)).Perm (List.range works.length)
  own : ∀ e ∈ ledger, works[e.2.ticket]? = some e.2.work
  fits : ∀ e ∈ ledger, e.1.Fits e.2.work (calls e.2.ticket)

variable {works : List (Ending α)} {ledger ledger' rest : List (Place × Job α)}
  {calls calls' : Nat → Call α} {p : Place} {job : Job α} {work : Ending α} {ticket worker : Nat}
  {d : Dispatch α} {threads : Nat}

theorem Kept.nodup (h : Kept works ledger calls) : (ledger.map (·.2.ticket)).Nodup :=
  h.tickets.nodup_iff.mpr List.nodup_range

theorem Kept.ticket_lt (h : Kept works ledger calls) {e : Place × Job α} (he : e ∈ ledger) :
    e.2.ticket < works.length :=
  List.mem_range.mp (h.tickets.mem_iff.mp (List.mem_map.mpr ⟨e, he, rfl⟩))

/-- Every block that was submitted has its entry. -/
theorem Kept.entry (h : Kept works ledger calls) (ht : ticket < works.length) :
    ∃ e ∈ ledger, e.2.ticket = ticket :=
  List.mem_map.mp (h.tickets.mem_iff.mpr (List.mem_range.mpr ht))

/-- If one entry goes to another place and only its own call is changed, it is enough that the
call fits the new place. -/
theorem Kept.move (h : Kept works ledger calls) (place : Place)
    (hold : ledger.Perm ((p, job) :: rest)) (hnew : ledger'.Perm ((place, job) :: rest))
    (hcalls : ∀ t, t ≠ job.ticket → calls' t = calls t)
    (hfits : place.Fits job.work (calls' job.ticket)) : Kept works ledger' calls' := by
  have hmem : (p, job) ∈ ledger := hold.mem_iff.mpr List.mem_cons_self
  have hrest : ∀ e ∈ rest, e ∈ ledger := fun e he => hold.mem_iff.mpr (List.mem_cons_of_mem _ he)
  -- the others have other tickets
  have hother : ∀ e ∈ rest, e.2.ticket ≠ job.ticket := by
    intro e he heq
    have hnodup := (hold.map (·.2.ticket)).nodup_iff.mp h.nodup
    exact (List.nodup_cons.mp hnodup).1 (List.mem_map.mpr ⟨e, he, heq⟩)
  refine ⟨?_, fun e he => ?_, fun e he => ?_⟩
  · exact ((hnew.map _).trans (hold.map (·.2.ticket)).symm).trans h.tickets
  · rcases List.mem_cons.mp (hnew.mem_iff.mp he) with rfl | hr
    · exact h.own (p, job) hmem
    · exact h.own e (hrest e hr)
  · rcases List.mem_cons.mp (hnew.mem_iff.mp he) with rfl | hr
    · exact hfits
    · rw [hcalls _ (hother e hr)]
      exact h.fits e (hrest e hr)

/-- The entry goes to another place, and its call is changed. -/
theorem Kept.moveSet (h : Kept works ledger calls) (place : Place)
    (hold : ledger.Perm ((p, job) :: rest)) (hnew : ledger'.Perm ((place, job) :: rest))
    (f : Call α → Call α) (hfits : place.Fits job.work (f (calls job.ticket))) :
    Kept works ledger' (setCall calls job.ticket f) := by
  refine h.move place hold hnew (fun t ht => setCall_ne ht calls f) ?_
  rw [setCall_self]
  exact hfits

/-- The entry stays where it is, and its call is changed. -/
theorem Kept.set (h : Kept works ledger calls) {e : Place × Job α} (he : e ∈ ledger)
    (f : Call α → Call α) (hfits : e.1.Fits e.2.work (f (calls e.2.ticket))) :
    Kept works ledger (setCall calls e.2.ticket f) := by
  obtain ⟨before, after, rfl⟩ := List.append_of_mem he
  exact h.moveSet _ List.perm_middle List.perm_middle f hfits

/-- A new job is the last one, and waits. -/
theorem Kept.submit (h : Kept works ledger calls)
    (hnew : ledger'.Perm ((.queued, ⟨works.length, work⟩) :: ledger)) :
    Kept (works ++ [work]) ledger' (setCall calls works.length fun _ => .opened) where
  tickets := by
    refine (hnew.map (·.2.ticket)).trans ?_
    rw [List.length_append, List.length_singleton, List.range_succ]
    exact (h.tickets.cons works.length).trans (List.perm_append_singleton _ _).symm
  own e he := by
    rcases List.mem_cons.mp (hnew.mem_iff.mp he) with rfl | hr
    · simp
    · rw [List.getElem?_append_left (h.ticket_lt hr)]
      exact h.own e hr
  fits e he := by
    rcases List.mem_cons.mp (hnew.mem_iff.mp he) with rfl | hr
    · rw [setCall_self]
      exact ⟨rfl, rfl, Or.inl rfl⟩
    · rw [setCall_ne (Nat.ne_of_lt (h.ticket_lt hr))]
      exact h.fits e hr

/-! ## Workers -/

/-- A busy worker's job is one of those that run, and no other worker has it. -/
theorem running_split {w : Workers α} (hw : (w.running.map (·.1)).Nodup)
    (h : w.job? worker = some job) :
    ∃ before after, w.running = before ++ (worker, job) :: after
      ∧ ∀ r ∈ before ++ after, r.1 ≠ worker := by
  unfold Workers.job? at h
  obtain ⟨r, hr, rfl⟩ := Option.map_eq_some_iff.mp h
  obtain rfl : r.1 = worker := by simpa using List.find?_some hr
  obtain ⟨before, after, hsplit⟩ := List.append_of_mem (List.mem_of_find?_eq_some hr)
  refine ⟨before, after, hsplit, fun other ho heq => ?_⟩
  rw [hsplit] at hw
  have hperm : ((before ++ r :: after).map (·.1)).Perm (r.1 :: (before ++ after).map (·.1)) :=
    List.perm_middle.map _
  have hnodup := hperm.nodup_iff.mp hw
  exact (List.nodup_cons.mp hnodup).1 (List.mem_map.mpr ⟨other, ho, heq⟩)

theorem job?_eq_none_iff {w : Workers α} : w.job? worker = none ↔ worker ∉ w.running.map (·.1) := by
  unfold Workers.job?
  rw [Option.map_eq_none_iff, List.find?_eq_none]
  constructor
  · intro h hm
    obtain ⟨r, hr, rfl⟩ := List.mem_map.mp hm
    exact absurd (h r hr) (by simp)
  · intro h r hr
    simpa using fun heq => h (List.mem_map.mpr ⟨r, hr, heq⟩)

theorem filter_running {before after : List (Nat × Job α)}
    (hother : ∀ r ∈ before ++ after, r.1 ≠ worker) :
    (before ++ (worker, job) :: after).filter (fun r => r.1 != worker) = before ++ after := by
  have hkeep : ∀ l : List (Nat × Job α), (∀ r ∈ l, r.1 ≠ worker) →
      l.filter (fun r => r.1 != worker) = l := fun l hl =>
    List.filter_eq_self.mpr fun r hr => by simpa using hl r hr
  rw [List.filter_append, List.filter_cons_of_neg (by simp),
    hkeep before fun r hr => hother r (List.mem_append_left _ hr),
    hkeep after fun r hr => hother r (List.mem_append_right _ hr)]

/-! ## What acts do to the ledger -/

theorem busyEntry_of_mem {ended : List Nat} (h : worker ∈ ended) :
    busyEntry ended (worker, job) = (.ended worker, job) := by
  rw [busyEntry, if_pos h]

theorem busyEntry_of_not_mem {ended : List Nat} (h : worker ∉ ended) :
    busyEntry ended (worker, job) = (.running worker, job) := by
  rw [busyEntry, if_neg h]

/-- Entries of other workers do not depend on whether this one's block has ended. -/
theorem map_busyEntry_congr (ended : List Nat) {ended' : List Nat} {l : List (Nat × Job α)}
    (h : ∀ r ∈ l, r.1 ∈ ended' ↔ r.1 ∈ ended) :
    l.map (busyEntry ended') = l.map (busyEntry ended) := by
  refine List.map_congr_left fun r hr => ?_
  unfold busyEntry
  by_cases hmem : r.1 ∈ ended
  · rw [if_pos hmem, if_pos ((h r hr).mpr hmem)]
  · rw [if_neg hmem, if_neg fun hm => hmem ((h r hr).mp hm)]

/-- The entry of a busy worker comes to the front. -/
theorem perm_busy {before after : List (Nat × Job α)} (q f : List (Place × Job α))
    (ended : List Nat) :
    (q ++ ((before ++ (worker, job) :: after).map (busyEntry ended) ++ f)).Perm
      (busyEntry ended (worker, job) :: (q ++ ((before ++ after).map (busyEntry ended) ++ f))) := by
  have hmid : ((before ++ (worker, job) :: after).map (busyEntry ended)).Perm
      (busyEntry ended (worker, job) :: (before ++ after).map (busyEntry ended)) :=
    List.perm_middle.map _
  refine ((hmid.append_right f).append_left q).trans ?_
  exact List.perm_middle

namespace Dispatch

theorem mem_finished {d : Dispatch α} (h : job ∈ d.workers.finished) :
    ((Place.finished, job) : Place × Job α) ∈ d.ledger :=
  List.mem_append_right _ (List.mem_append_right _ (List.mem_map.mpr ⟨job, h, rfl⟩))

/-- The job of a busy worker is one entry, and the others are those without it. -/
theorem ledger_busy {before after : List (Nat × Job α)}
    (hsplit : d.workers.running = before ++ (worker, job) :: after) :
    d.ledger.Perm (busyEntry d.ended (worker, job)
      :: (d.workers.queued.map (fun job => (.queued, job))
        ++ ((before ++ after).map (busyEntry d.ended)
          ++ d.workers.finished.map (fun job => (.finished, job))))) := by
  rw [ledger, hsplit]
  exact perm_busy _ _ _

/-- Taking does nothing, or hands the job at the front to an idle worker. -/
theorem take_cases (d : Dispatch α) (worker : Nat) :
    d.take worker = d ∨ ∃ job rest, worker < d.workers.threads
      ∧ worker ∉ d.workers.running.map (·.1) ∧ d.workers.queued = job :: rest
      ∧ d.workers.take worker = { d.workers with
          queued := rest, running := (worker, job) :: d.workers.running }
      ∧ d.take worker
          = { d with workers := d.workers.take worker, begun := d.begun ++ [job.ticket] } := by
  by_cases hfree : worker < d.workers.threads ∧ (d.workers.job? worker).isNone
  · cases hq : d.workers.queued with
    | nil =>
        left
        rw [take, if_pos hfree, hq]
    | cons job rest =>
        right
        have hidle : worker ∉ d.workers.running.map (·.1) :=
          job?_eq_none_iff.mp (Option.isNone_iff_eq_none.mp hfree.2)
        refine ⟨job, rest, hfree.1, hidle, rfl, ?_, ?_⟩
        · rw [Workers.take, if_pos hfree, hq]
        · rw [take, if_pos hfree, hq]
  · left
    rw [take, if_neg hfree]

/-- Concluding does nothing, or puts what the block came to into its channel. -/
theorem conclude_cases (d : Dispatch α) (worker : Nat) :
    d.conclude worker = d ∨ ∃ job, d.workers.job? worker = some job ∧ worker ∉ d.ended
      ∧ d.conclude worker
          = { d with
              ended := worker :: d.ended
              calls := setCall d.calls job.ticket fun c =>
                { c with result := job.work.channel } } := by
  cases hj : d.workers.job? worker with
  | none =>
      left
      rw [conclude, hj]
  | some job =>
      by_cases he : worker ∈ d.ended
      · left
        rw [conclude, hj]
        exact if_pos he
      · right
        refine ⟨job, rfl, he, ?_⟩
        rw [conclude, hj]
        exact if_neg he

/-- Completing does nothing, or reports a job that has come to its end. -/
theorem complete_cases (d : Dispatch α) (worker : Nat) :
    d.complete worker = d ∨ ∃ job, d.workers.job? worker = some job ∧ worker ∈ d.ended
      ∧ d.complete worker
          = { d with
              workers := d.workers.complete worker
              ended := d.ended.filter fun other => other != worker
              calls := setCall d.calls job.ticket fun c =>
                { c with done := (task job.work).channel } } := by
  cases hj : d.workers.job? worker with
  | none =>
      left
      rw [complete, hj]
  | some job =>
      by_cases he : worker ∈ d.ended
      · right
        refine ⟨job, rfl, he, ?_⟩
        rw [complete, hj]
        exact if_pos he
      · left
        rw [complete, hj]
        exact if_neg he

/-! ## The invariant -/

/-- The pool is in order: its workers, its ledger, and what its callers were told. -/
structure Sound (threads : Nat) (works : List (Ending α)) (d : Dispatch α) : Prop where
  size : d.workers.threads = max threads 1
  next : d.workers.nextTicket = works.length
  kept : Kept works d.ledger d.calls
  /-- The jobs that were begun, and then those that wait, are all in the order of submission. -/
  order : d.begun ++ d.workers.queued.map (·.ticket) = List.range works.length
  apart : (d.workers.running.map (·.1)).Nodup
  within : ∀ r ∈ d.workers.running, r.1 < d.workers.threads
  busy : ∀ worker ∈ d.ended, worker ∈ d.workers.running.map (·.1)
  told : ∀ r ∈ d.runs, ∃ job ∈ d.workers.finished, job.ticket = r.1
    ∧ r.2 = Workers.report job ∧ (d.calls r.1).caller ≠ .waiting
  once : (d.runs.map (·.1)).Nodup
  /-- The workers and their queue went through a run of their own. -/
  model : ∃ events, d.workers = (Workers.start threads).run events

theorem run_snoc (w : Workers α) (events : List (Event α)) (event : Event α) :
    w.run (events ++ [event]) = (w.run events).step event := by
  simp [Workers.run]

theorem sound_start (threads : Nat) : (start threads : Dispatch α).Sound threads [] where
  size := rfl
  next := rfl
  kept := ⟨List.Perm.nil, fun _ h => absurd h (by simp [ledger, start, Workers.start]),
    fun _ h => absurd h (by simp [ledger, start, Workers.start])⟩
  order := rfl
  apart := List.nodup_nil
  within _ h := absurd h (by simp [start, Workers.start])
  busy _ h := absurd h (by simp [start])
  told _ h := absurd h (by simp [start])
  once := List.nodup_nil
  model := ⟨[], rfl⟩

/-- What callers were told stands as long as finished jobs stay finished and their callers stay
where they are. -/
theorem told_of_same (h : d.Sound threads works) (d' : Dispatch α)
    (hruns : d'.runs = d.runs)
    (hfinished : ∀ job ∈ d.workers.finished, job ∈ d'.workers.finished)
    (hcalls : ∀ job ∈ d.workers.finished,
      (d'.calls job.ticket).caller = (d.calls job.ticket).caller) :
    ∀ r ∈ d'.runs, ∃ job ∈ d'.workers.finished, job.ticket = r.1
      ∧ r.2 = Workers.report job ∧ (d'.calls r.1).caller ≠ .waiting := by
  intro r hr
  obtain ⟨job, hj, ht, hreport, hcaller⟩ := h.told r (hruns ▸ hr)
  refine ⟨job, hfinished job hj, ht, hreport, ?_⟩
  rw [← ht, hcalls job hj, ht]
  exact hcaller

theorem Sound.submit (h : d.Sound threads works) (work : Ending α) :
    (d.submit work).Sound threads (works ++ [work]) where
  size := h.size
  next := by
    show d.workers.nextTicket + 1 = _
    rw [h.next, List.length_append, List.length_singleton]
  kept := by
    show Kept _ ((d.workers.queued ++ [Job.mk d.workers.nextTicket work]).map _ ++ _)
      (setCall d.calls d.workers.nextTicket fun _ => .opened)
    rw [h.next, List.map_append, List.append_assoc]
    exact h.kept.submit List.perm_middle
  order := by
    show d.begun ++ (d.workers.queued ++ [Job.mk d.workers.nextTicket work]).map _ = _
    rw [List.map_append, ← List.append_assoc, h.order, h.next, List.length_append,
      List.length_singleton, List.range_succ]
    rfl
  apart := h.apart
  within := h.within
  busy := h.busy
  told := by
    refine told_of_same h _ rfl (fun _ hj => hj) fun job hj => ?_
    -- the new ticket is nobody's yet, so what others were told stands
    have hlt := h.kept.ticket_lt (mem_finished hj)
    have hne : job.ticket ≠ d.workers.nextTicket := by
      rw [h.next]
      exact Nat.ne_of_lt hlt
    exact congrArg Call.caller (setCall_ne hne d.calls fun _ => .opened)
  once := h.once
  model := by
    obtain ⟨events, hrun⟩ := h.model
    refine ⟨events ++ [.submit work], ?_⟩
    rw [run_snoc, ← hrun]
    rfl

theorem Sound.take (h : d.Sound threads works) (worker : Nat) :
    (d.take worker).Sound threads works := by
  rcases take_cases d worker with hsame | ⟨job, rest, hlt, hidle, hq, hworkers, htake⟩
  · rw [hsame]
    exact h
  · obtain ⟨events, hrun⟩ := h.model
    have hmodel : d.workers.take worker = (Workers.start threads).run (events ++ [.take worker]) := by
      rw [run_snoc, ← hrun]
      rfl
    have hnot : worker ∉ d.ended := fun he => hidle (h.busy worker he)
    rw [hworkers] at hmodel htake
    rw [htake]
    refine ⟨h.size, h.next, ?_, ?_, ?_, ?_, ?_, h.told, h.once, ⟨_, hmodel⟩⟩
    · -- the entry goes from the queue to the worker
      have hold : d.ledger.Perm ((.queued, job) :: (rest.map (fun job => (.queued, job))
          ++ (d.workers.running.map (busyEntry d.ended)
            ++ d.workers.finished.map (fun job => (.finished, job))))) := by
        rw [ledger, hq]
        exact List.Perm.refl _
      refine h.kept.move (.running worker) hold ?_ (fun _ _ => rfl) ?_
      · show (_ ++ (((worker, job) :: d.workers.running).map (busyEntry d.ended) ++ _)).Perm _
        rw [List.map_cons, busyEntry_of_not_mem hnot]
        exact List.perm_middle
      · exact h.kept.fits _ (hold.mem_iff.mpr List.mem_cons_self)
    · have horder := h.order
      rw [hq] at horder
      rw [← horder, List.append_assoc]
      rfl
    · exact List.nodup_cons.mpr ⟨hidle, h.apart⟩
    · intro r hr
      rcases List.mem_cons.mp hr with rfl | hr
      · exact hlt
      · exact h.within r hr
    · intro other ho
      exact List.mem_cons_of_mem _ (h.busy other ho)

theorem Sound.conclude (h : d.Sound threads works) (worker : Nat) :
    (d.conclude worker).Sound threads works := by
  rcases conclude_cases d worker with hsame | ⟨job, hjob, hnot, hconclude⟩
  · rw [hsame]
    exact h
  · obtain ⟨before, after, hsplit, hother⟩ := running_split h.apart hjob
    have hcaller : ∀ t, ((d.conclude worker).calls t).caller = (d.calls t).caller := by
      rw [hconclude]
      exact caller_setCall (f := fun c => { c with result := job.work.channel }) (fun _ => rfl)
        d.calls job.ticket
    -- the entry of the worker that ends its task is taken out of the ledger, and goes in anew
    have hold := ledger_busy hsplit
    rw [busyEntry_of_not_mem hnot] at hold
    have htold := told_of_same h (d.conclude worker) (by rw [hconclude])
      (fun _ hj => by rw [hconclude]; exact hj) fun job _ => hcaller job.ticket
    rw [hconclude] at htold ⊢
    refine ⟨h.size, h.next, ?_, h.order, h.apart, h.within, ?_, htold, h.once, h.model⟩
    · refine h.kept.moveSet (.ended worker) hold ?_
        (fun c => { c with result := job.work.channel }) ?_
      · show (_ ++ (d.workers.running.map (busyEntry (worker :: d.ended)) ++ _)).Perm _
        have hrest : (before ++ after).map (busyEntry (worker :: d.ended))
            = (before ++ after).map (busyEntry d.ended) :=
          map_busyEntry_congr _ fun r hr => by simp [hother r hr]
        rw [hsplit, ← hrest, ← busyEntry_of_mem (List.mem_cons_self (l := d.ended))]
        exact perm_busy _ _ _
      · have hfits := h.kept.fits _ (hold.mem_iff.mpr List.mem_cons_self)
        exact ⟨hfits.1, rfl, hfits.2.2⟩
    · intro other ho
      rcases List.mem_cons.mp ho with rfl | ho
      · show other ∈ d.workers.running.map (·.1)
        rw [hsplit]
        simp
      · exact h.busy other ho

theorem Sound.complete (h : d.Sound threads works) (worker : Nat) :
    (d.complete worker).Sound threads works := by
  rcases complete_cases d worker with hsame | ⟨job, hjob, hended, hcomplete⟩
  · rw [hsame]
    exact h
  · obtain ⟨before, after, hsplit, hother⟩ := running_split h.apart hjob
    obtain ⟨events, hrun⟩ := h.model
    have hmodel : d.workers.complete worker
        = (Workers.start threads).run (events ++ [.complete worker]) := by
      rw [run_snoc, ← hrun]
      rfl
    have hworkers : d.workers.complete worker = { d.workers with
        running := before ++ after, finished := job :: d.workers.finished } := by
      rw [Workers.complete, hjob]
      dsimp only
      rw [hsplit, filter_running hother]
    have hcaller : ∀ t, ((d.complete worker).calls t).caller = (d.calls t).caller := by
      rw [hcomplete]
      exact caller_setCall (f := fun c => { c with done := (task job.work).channel })
        (fun _ => rfl) d.calls job.ticket
    have hold := ledger_busy hsplit
    rw [busyEntry_of_mem hended] at hold
    rw [hworkers] at hcomplete hmodel
    have htold := told_of_same h (d.complete worker) (by rw [hcomplete])
      (fun _ hj => by rw [hcomplete]; exact List.mem_cons_of_mem _ hj)
      fun job _ => hcaller job.ticket
    -- with one worker less at work the others are still apart and within the threads
    have hsub : (before ++ after).Sublist d.workers.running := by
      rw [hsplit]
      exact (List.Sublist.refl before).append (List.sublist_cons_self _ _)
    rw [hcomplete] at htold ⊢
    refine ⟨h.size, h.next, ?_, h.order, h.apart.sublist (hsub.map _),
      fun r hr => h.within r (hsub.subset hr), ?_, htold, h.once, ⟨_, hmodel⟩⟩
    · refine h.kept.moveSet .finished hold ?_
        (fun c => { c with done := (task job.work).channel }) ?_
      · show (_ ++ ((before ++ after).map (busyEntry (d.ended.filter _)) ++ _)).Perm _
        rw [map_busyEntry_congr d.ended fun r hr => by simp [hother r hr]]
        refine (List.Perm.append_left _ List.perm_middle).trans ?_
        exact List.perm_middle
      · have hfits := h.kept.fits _ (hold.mem_iff.mpr List.mem_cons_self)
        exact ⟨rfl, hfits.2.1, hfits.2.2.imp id Or.inl⟩
    · -- whoever is still to report is one of the others
      intro other ho
      obtain ⟨hmem, hne⟩ := List.mem_filter.mp ho
      have hbusy := h.busy other hmem
      rw [hsplit] at hbusy
      simpa [show other ≠ worker by simpa using hne] using hbusy

/-! ## Callers that go on -/

/-- Waking does nothing, or the caller learns that its job is over, or it gets the result. -/
theorem wake_cases (d : Dispatch α) (ticket : Nat) :
    d.wake ticket = d
      ∨ (∃ r, ticket < d.workers.nextTicket ∧ (d.calls ticket).caller = .waiting
          ∧ (d.calls ticket).done.ran? = some r
          ∧ d.wake ticket = { d with
              runs := d.runs ++ [(ticket, r)]
              calls := setCall d.calls ticket fun c => { c with caller := .after r } })
      ∨ ∃ r, ticket < d.workers.nextTicket ∧ (d.calls ticket).caller = .collecting
          ∧ (d.calls ticket).result.found? = some r
          ∧ d.wake ticket = { d with
              calls := setCall d.calls ticket fun c => { c with caller := .resolved r } } := by
  by_cases hlt : ticket < d.workers.nextTicket
  · unfold wake
    rw [if_pos hlt]
    cases hcaller : (d.calls ticket).caller with
    | waiting =>
        cases hran : (d.calls ticket).done.ran? with
        | none => exact Or.inl rfl
        | some r => exact Or.inr (Or.inl ⟨r, hlt, rfl, rfl, rfl⟩)
    | collecting =>
        cases hfound : (d.calls ticket).result.found? with
        | none => exact Or.inl rfl
        | some r => exact Or.inr (Or.inr ⟨r, hlt, rfl, rfl, rfl⟩)
    | resolved r => exact Or.inl rfl
    | gone => exact Or.inl rfl
  · left
    rw [wake, if_neg hlt]

/-- Giving up does nothing, or takes a caller away that was not answered yet. -/
theorem abandon_cases (d : Dispatch α) (ticket : Nat) :
    d.abandon ticket = d ∨ (ticket < d.workers.nextTicket ∧ d.abandon ticket = { d with
      calls := setCall d.calls ticket fun c => { c with caller := .gone } }) := by
  by_cases hlt : ticket < d.workers.nextTicket
  · unfold abandon
    rw [if_pos hlt]
    cases (d.calls ticket).caller with
    | resolved r => exact Or.inl rfl
    | _ => exact Or.inr ⟨hlt, rfl⟩
  · left
    rw [abandon, if_neg hlt]

/-- Only a job that is over says so, and it says how its own work ended. -/
theorem report_of_ran? {c : Call α} {r : Except Failure Unit} (hfits : p.Fits job.work c)
    (hran : c.done.ran? = some r) : p = .finished ∧ r = Workers.report job := by
  cases p with
  | finished =>
      refine ⟨rfl, ?_⟩
      rw [hfits.1] at hran
      unfold Workers.report
      cases hw : job.work with
      | returns value =>
          rw [hw] at hran
          exact (Option.some.inj hran).symm
      | unwinds =>
          rw [hw] at hran
          exact (Option.some.inj hran).symm
  | _ =>
      rw [hfits.1] at hran
      exact absurd hran (by simp [Oneshot.ran?])

/-- A caller goes for the result of a job that returned, and the result is there. -/
theorem result_of_collecting {c : Call α} (hfits : p.Fits work c)
    (hcaller : c.caller = .collecting) :
    p = .finished ∧ ∃ value, work = .returns value ∧ c.result = .sent value := by
  cases p with
  | finished =>
      obtain ⟨_, hresult, hwait | hgone | ⟨_, value, rfl⟩ | hresolved⟩ := hfits
      · exact absurd (hcaller.symm.trans hwait) (by simp)
      · exact absurd (hcaller.symm.trans hgone) (by simp)
      · exact ⟨rfl, value, rfl, hresult⟩
      · exact absurd (hcaller.symm.trans hresolved) (by simp)
  | _ =>
      rcases hfits.2.2 with hwait | hgone
      · exact absurd (hcaller.symm.trans hwait) (by simp)
      · exact absurd (hcaller.symm.trans hgone) (by simp)

theorem finished_of_mem (h : ((Place.finished, job) : Place × Job α) ∈ d.ledger) :
    job ∈ d.workers.finished := by
  rcases List.mem_append.mp h with hq | h
  · obtain ⟨own, _, heq⟩ := List.mem_map.mp hq
    exact absurd (congrArg Prod.fst heq) (by simp)
  · rcases List.mem_append.mp h with hr | hf
    · obtain ⟨r, _, heq⟩ := List.mem_map.mp hr
      have hplace := congrArg Prod.fst heq
      unfold busyEntry at hplace
      dsimp only at hplace
      split at hplace <;> exact absurd hplace (by simp)
    · obtain ⟨own, hown, heq⟩ := List.mem_map.mp hf
      obtain rfl : own = job := congrArg Prod.snd heq
      exact hown

/-- What callers were told stands when a caller goes on, for none goes back to waiting. -/
theorem told_of_set (h : d.Sound threads works) {f : Call α → Call α}
    (hf : (f (d.calls ticket)).caller ≠ .waiting) :
    ∀ r ∈ d.runs, ∃ job ∈ d.workers.finished, job.ticket = r.1
      ∧ r.2 = Workers.report job ∧ (setCall d.calls ticket f r.1).caller ≠ .waiting := by
  intro r hr
  obtain ⟨job, hj, ht, hreport, hcaller⟩ := h.told r hr
  refine ⟨job, hj, ht, hreport, ?_⟩
  by_cases hsame : r.1 = ticket
  · rw [hsame, setCall_self]
    exact hf
  · rw [setCall_ne hsame]
    exact hcaller

theorem Sound.wake (h : d.Sound threads works) (ticket : Nat) :
    (d.wake ticket).Sound threads works := by
  rcases wake_cases d ticket with hsame | ⟨r, hlt, hcaller, hran, hwake⟩
    | ⟨r, hlt, hcaller, hfound, hwake⟩
  · rw [hsame]
    exact h
  · obtain ⟨⟨place, job⟩, he, rfl⟩ := h.kept.entry (h.next ▸ hlt)
    have hfits := h.kept.fits _ he
    obtain ⟨rfl, rfl⟩ := report_of_ran? hfits hran
    -- a caller who is told either has a value to collect or knows that there is none
    have hafter : ∃ c, Caller.after (Workers.report job) = c ∧ c ≠ Caller.waiting (α := α)
        ∧ ((c = .collecting ∧ ∃ value, job.work = .returns value)
          ∨ c = .resolved job.work.verdict) := by
      unfold Workers.report
      cases job.work with
      | returns value => exact ⟨_, rfl, by simp [Caller.after], Or.inl ⟨rfl, value, rfl⟩⟩
      | unwinds => exact ⟨_, rfl, by simp [Caller.after], Or.inr rfl⟩
    obtain ⟨c, hc, hnot, hstage⟩ := hafter
    rw [hc] at hwake
    rw [hwake]
    refine ⟨h.size, h.next, ?_, h.order, h.apart, h.within, h.busy, ?_, ?_, h.model⟩
    · exact h.kept.set he (fun call => { call with caller := c })
        ⟨hfits.1, hfits.2.1, Or.inr (Or.inr hstage)⟩
    · intro r hr
      rcases List.mem_append.mp hr with hold | hnew
      · exact told_of_set h (f := fun call => { call with caller := c }) hnot r hold
      · obtain rfl := List.mem_singleton.mp hnew
        refine ⟨job, finished_of_mem he, rfl, rfl, ?_⟩
        show (setCall d.calls job.ticket (fun call => { call with caller := c })
          job.ticket).caller ≠ .waiting
        rw [setCall_self]
        exact hnot
    · -- whoever was told before does not wait any more
      have hfresh : job.ticket ∉ d.runs.map (·.1) := by
        intro hm
        obtain ⟨r, hr, ht⟩ := List.mem_map.mp hm
        obtain ⟨_, _, _, _, htold⟩ := h.told r hr
        exact htold (ht ▸ hcaller)
      show ((d.runs ++ [(job.ticket, Workers.report job)]).map (·.1)).Nodup
      rw [List.map_append]
      exact List.nodup_append_comm.mp (List.nodup_cons.mpr ⟨hfresh, h.once⟩)
  · obtain ⟨⟨place, job⟩, he, rfl⟩ := h.kept.entry (h.next ▸ hlt)
    have hfits := h.kept.fits _ he
    obtain ⟨rfl, value, hwork, hresult⟩ := result_of_collecting hfits hcaller
    rw [hresult] at hfound
    -- what is collected is what the task has returned
    obtain rfl : r = .ok value := (Option.some.inj hfound).symm
    rw [hwake]
    refine ⟨h.size, h.next, ?_, h.order, h.apart, h.within, h.busy, ?_, h.once, h.model⟩
    · refine h.kept.set he (fun c => { c with caller := .resolved (.ok value) })
        ⟨hfits.1, hfits.2.1, Or.inr (Or.inr (Or.inr ?_))⟩
      show Caller.resolved (.ok value) = Caller.resolved job.work.verdict
      rw [show job.work = .returns value from hwork]
      rfl
    · exact told_of_set h (f := fun c => { c with caller := .resolved (.ok value) }) (by simp)

theorem Sound.abandon (h : d.Sound threads works) (ticket : Nat) :
    (d.abandon ticket).Sound threads works := by
  rcases abandon_cases d ticket with hsame | ⟨hlt, habandon⟩
  · rw [hsame]
    exact h
  · obtain ⟨⟨place, job⟩, he, rfl⟩ := h.kept.entry (h.next ▸ hlt)
    have hfits := h.kept.fits _ he
    rw [habandon]
    refine ⟨h.size, h.next, ?_, h.order, h.apart, h.within, h.busy, ?_, h.once, h.model⟩
    · refine h.kept.set he (fun c => { c with caller := .gone }) ?_
      cases place with
      | finished => exact ⟨hfits.1, hfits.2.1, Or.inr (Or.inl rfl)⟩
      | _ => exact ⟨hfits.1, hfits.2.1, Or.inr rfl⟩
    · exact told_of_set h (f := fun c => { c with caller := .gone }) (by simp)

/-! ## Every act, and every run -/

theorem Sound.step (h : d.Sound threads works) (act : Act α) :
    (d.step act).Sound threads (works ++ blocks [act]) := by
  have hsame : works ++ [] = works := List.append_nil works
  cases act with
  | submit work => exact h.submit work
  | take worker => exact hsame.symm ▸ h.take worker
  | conclude worker => exact hsame.symm ▸ h.conclude worker
  | complete worker => exact hsame.symm ▸ h.complete worker
  | wake ticket => exact hsame.symm ▸ h.wake ticket
  | abandon ticket => exact hsame.symm ▸ h.abandon ticket

theorem Sound.perform (h : d.Sound threads works) (acts : List (Act α)) :
    (d.perform acts).Sound threads (works ++ blocks acts) := by
  induction acts generalizing d works with
  | nil =>
      rw [show blocks ([] : List (Act α)) = [] from rfl, List.append_nil]
      exact h
  | cons act rest ih =>
      have hall := ih (h.step act)
      have hblocks : blocks (act :: rest) = blocks [act] ++ blocks rest := by
        cases act <;> rfl
      rw [hblocks, ← List.append_assoc]
      exact hall

/-- A new pool is sound after any acts, with the blocks that they submitted. -/
theorem sound_run (threads : Nat) (acts : List (Act α)) :
    ((start threads).perform acts).Sound threads (blocks acts) := by
  have h := (sound_start threads).perform acts
  rw [List.nil_append] at h
  exact h

end Dispatch

end PooledCrypto.Executor
