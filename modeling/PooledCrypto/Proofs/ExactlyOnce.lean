import PooledCrypto.Proofs.Dispatch

/-!
# Every job is executed once and answered

Whatever callers and workers do and in whatever order, each block that was submitted is in one place,
was executed once or is still to be executed, and its caller is told how this very block ended
(`ExactlyOnce`). Nothing ever gets stuck: a worker that is done takes the next job, also after a
block that unwound, so the pool can always go on until every caller that still waits has its answer.
-/

namespace PooledCrypto.Executor

variable {α : Type}

/-- What holds of a pool and its callers after any acts. -/
structure ExactlyOnce (threads : Nat) (acts : List (Act α)) (d : Dispatch α) : Prop where
  /-- No job takes a worker away. -/
  size : d.workers.threads = max threads 1
  /-- Each block that was submitted is in one place: queued, with one worker, or finished. -/
  one_place : (d.ledger.map (·.2.ticket)).Perm (List.range (blocks acts).length)
  own : ∀ e ∈ d.ledger, (blocks acts)[e.2.ticket]? = some e.2.work
  /-- A worker has one job at a time. -/
  one_job : (d.workers.running.map (·.1)).Nodup
    ∧ ∀ r ∈ d.workers.running, r.1 < d.workers.threads
  /-- No job is executed twice, and those that are not queued any more were executed. -/
  executed : d.begun.Nodup ∧ ∀ e ∈ d.ledger, e.2.ticket ∈ d.begun ↔ e.1 ≠ .queued
  /-- Jobs are begun in the order of submission. -/
  in_order : d.begun = List.range d.begun.length
  /-- Running comes to a success only after the caller's own block returned, and to an error only
  after it unwound. -/
  ran : ∀ r ∈ d.runs, ∃ work, (blocks acts)[r.1]? = some work
    ∧ (.finished, ⟨r.1, work⟩) ∈ d.ledger
    ∧ ((r.2 = .ok () ∧ ∃ value, work = .returns value)
      ∨ (r.2 = .error (.error (.execution .workerUnwound)) ∧ work = .unwinds))
  ran_once : (d.runs.map (·.1)).Nodup
  /-- A caller gets the value of its own block, or the error of it. -/
  answered : ∀ ticket < (blocks acts).length, ∀ r, (d.calls ticket).caller = .resolved r →
    ∃ work, (blocks acts)[ticket]? = some work ∧ r = work.verdict
      ∧ d.workers.answer? ticket = some r
  /-- A caller that goes for its result finds one. -/
  collects : ∀ ticket < (blocks acts).length, (d.calls ticket).caller = .collecting →
    ∃ value, (blocks acts)[ticket]? = some (.returns value)
      ∧ (d.calls ticket).result.found? = some (.ok value)
  /-- However its block ends, a busy worker gets done with its job and is idle again. -/
  frees : ∀ worker job, d.workers.job? worker = some job →
    let after := (d.conclude worker).complete worker
    after.workers.job? worker = none ∧ after.workers.threads = d.workers.threads
      ∧ after.workers.finished = job :: d.workers.finished
  /-- Any idle worker can take the job at the front. -/
  takes : ∀ worker < d.workers.threads, d.workers.job? worker = none →
    ∀ job rest, d.workers.queued = job :: rest →
      (d.take worker).workers.job? worker = some job ∧ (d.take worker).workers.queued = rest
  /-- The pool can go on until all jobs are finished and all callers that wait are answered. -/
  resolves : ∃ more : List (Act α), (∀ act ∈ more, act.goesOn = true)
    ∧ (d.perform more).workers.queued = [] ∧ (d.perform more).workers.running = []
    ∧ ∀ ticket < (blocks acts).length, (d.calls ticket).caller ≠ .gone →
        ∃ work, (blocks acts)[ticket]? = some work
          ∧ ((d.perform more).calls ticket).caller = .resolved work.verdict
  /-- The workers and their queue are as a run of workers leaves them. -/
  model : ∃ events, d.workers = (Workers.start threads).run events

variable {works : List (Ending α)} {job : Job α} {ticket worker : Nat} {d : Dispatch α}
  {threads : Nat} {act : Act α}

namespace Dispatch

/-! ## What was executed -/

theorem map_ticket_ledger (d : Dispatch α) :
    d.ledger.map (·.2.ticket) = d.workers.queued.map (·.ticket)
      ++ (d.workers.running.map (·.2.ticket) ++ d.workers.finished.map (·.ticket)) := by
  unfold ledger
  rw [List.map_append, List.map_append, List.map_map, List.map_map, List.map_map]
  rfl

/-- The jobs that were begun are those that run or are finished. -/
theorem Sound.begun_perm (h : d.Sound threads works) :
    d.begun.Perm (d.workers.running.map (·.2.ticket) ++ d.workers.finished.map (·.ticket)) := by
  have htickets := h.kept.tickets
  rw [map_ticket_ledger, ← h.order] at htickets
  have hsame : (d.begun ++ d.workers.queued.map (·.ticket)).Perm
      ((d.workers.running.map (·.2.ticket) ++ d.workers.finished.map (·.ticket))
        ++ d.workers.queued.map (·.ticket)) :=
    htickets.symm.trans List.perm_append_comm
  exact (List.perm_append_right_iff _).mp hsame

theorem Sound.begun_nodup (h : d.Sound threads works) : d.begun.Nodup := by
  have hall : (d.begun ++ d.workers.queued.map (·.ticket)).Nodup := by
    rw [h.order]
    exact List.nodup_range
  exact (List.nodup_append.mp hall).1

theorem Sound.begun_eq (h : d.Sound threads works) : d.begun = List.range d.begun.length := by
  have hle : d.begun.length ≤ works.length := by
    have hlen := congrArg List.length h.order
    rw [List.length_append, List.length_range] at hlen
    omega
  have htake := congrArg (List.take d.begun.length) h.order
  rw [List.take_left, List.take_range, Nat.min_eq_left hle] at htake
  exact htake

/-- A job was begun exactly if it does not wait any more. -/
theorem Sound.mem_begun_iff (h : d.Sound threads works) {e : Place × Job α} (he : e ∈ d.ledger) :
    e.2.ticket ∈ d.begun ↔ e.1 ≠ .queued := by
  have hnodup : (d.begun ++ d.workers.queued.map (·.ticket)).Nodup := by
    rw [h.order]
    exact List.nodup_range
  -- begun and queued tickets together are all tickets in order, so none is in both
  have hapart := (List.nodup_append.mp hnodup).2.2
  rcases List.mem_append.mp he with hq | hbegun
  · obtain ⟨job, hj, rfl⟩ := List.mem_map.mp hq
    constructor
    · intro hb
      exact absurd rfl (hapart _ hb _ (List.mem_map.mpr ⟨job, hj, rfl⟩))
    · intro hne
      exact absurd rfl hne
  · constructor
    · intro _
      rcases List.mem_append.mp hbegun with hr | hf
      · obtain ⟨r, _, rfl⟩ := List.mem_map.mp hr
        unfold busyEntry
        dsimp only
        split <;> simp
      · obtain ⟨job, _, rfl⟩ := List.mem_map.mp hf
        simp
    · intro _
      refine h.begun_perm.mem_iff.mpr ?_
      rcases List.mem_append.mp hbegun with hr | hf
      · obtain ⟨r, hrun, rfl⟩ := List.mem_map.mp hr
        exact List.mem_append_left _ (List.mem_map.mpr ⟨r, hrun, rfl⟩)
      · obtain ⟨job, hj, rfl⟩ := List.mem_map.mp hf
        exact List.mem_append_right _ (List.mem_map.mpr ⟨job, hj, rfl⟩)

/-! ## What callers are told -/

/-- A finished job is the one that its ticket is looked up to. -/
theorem Sound.find?_finished (h : d.Sound threads works) (hj : job ∈ d.workers.finished) :
    d.workers.finished.find? (fun other => other.ticket == job.ticket) = some job := by
  cases hfind : d.workers.finished.find? (fun other => other.ticket == job.ticket) with
  | none => exact absurd (List.find?_eq_none.mp hfind job hj) (by simp)
  | some other =>
      have hticket : other.ticket = job.ticket := by simpa using List.find?_some hfind
      have hother := h.kept.own _ (mem_finished (List.mem_of_find?_eq_some hfind))
      have hown := h.kept.own _ (mem_finished hj)
      obtain ⟨t, w⟩ := other
      obtain ⟨t', w'⟩ := job
      obtain rfl : t = t' := hticket
      obtain rfl : w = w' := Option.some.inj (hother.symm.trans hown)
      rfl

theorem Sound.answer?_finished (h : d.Sound threads works) (hj : job ∈ d.workers.finished) :
    d.workers.answer? job.ticket = some job.work.verdict := by
  rw [Workers.answer?, h.find?_finished hj]
  unfold Workers.report
  cases hw : job.work with
  | returns value => simp [hw, Ending.value?, Ending.verdict]
  | unwinds => simp [hw, Ending.verdict]

theorem resolved_of_fits {p : Place} {work : Ending α} {c : Call α} {r : Except Failure α}
    (hfits : p.Fits work c) (hcaller : c.caller = .resolved r) :
    p = .finished ∧ r = work.verdict := by
  cases p with
  | finished =>
      obtain ⟨_, _, hwait | hgone | ⟨hcollect, _⟩ | hresolved⟩ := hfits
      · exact absurd (hcaller.symm.trans hwait) (by simp)
      · exact absurd (hcaller.symm.trans hgone) (by simp)
      · exact absurd (hcaller.symm.trans hcollect) (by simp)
      · exact ⟨rfl, Caller.resolved.inj (hcaller.symm.trans hresolved)⟩
  | _ =>
      rcases hfits.2.2 with hwait | hgone
      · exact absurd (hcaller.symm.trans hwait) (by simp)
      · exact absurd (hcaller.symm.trans hgone) (by simp)

/-! ## Going on -/

theorem take_idle (hlt : worker < d.workers.threads) (hidle : d.workers.job? worker = none)
    {rest : List (Job α)} (hq : d.workers.queued = job :: rest) :
    (d.take worker).workers = { d.workers with
      queued := rest, running := (worker, job) :: d.workers.running } := by
  have hfree : worker < d.workers.threads ∧ (d.workers.job? worker).isNone = true :=
    ⟨hlt, by rw [hidle]; rfl⟩
  rw [take, if_pos hfree, hq]
  show d.workers.take worker = _
  rw [Workers.take, if_pos hfree, hq]

/-- A block that has not ended can end, and nothing else changes for the workers. -/
theorem conclude_busy (hjob : d.workers.job? worker = some job) :
    (d.conclude worker).workers = d.workers ∧ worker ∈ (d.conclude worker).ended := by
  rw [conclude, hjob]
  dsimp only
  by_cases he : worker ∈ d.ended
  · rw [if_pos he]
    exact ⟨rfl, he⟩
  · rw [if_neg he]
    exact ⟨rfl, List.mem_cons_self⟩

theorem complete_ended (hjob : d.workers.job? worker = some job) (he : worker ∈ d.ended) :
    (d.complete worker).workers = d.workers.complete worker := by
  rw [complete, hjob]
  dsimp only
  rw [if_pos he]

/-- A busy worker gets done with its job, however the block ends. -/
theorem Sound.finish (h : d.Sound threads works) (hjob : d.workers.job? worker = some job) :
    ∃ before after, d.workers.running = before ++ (worker, job) :: after
      ∧ ((d.conclude worker).complete worker).workers = { d.workers with
          running := before ++ after, finished := job :: d.workers.finished }
      ∧ ((d.conclude worker).complete worker).workers.job? worker = none := by
  obtain ⟨before, after, hsplit, hother⟩ := running_split h.apart hjob
  obtain ⟨hworkers, hended⟩ := conclude_busy hjob
  have hcomplete : ((d.conclude worker).complete worker).workers = { d.workers with
      running := before ++ after, finished := job :: d.workers.finished } := by
    rw [complete_ended (hworkers ▸ hjob) hended, hworkers, Workers.complete, hjob]
    dsimp only
    rw [hsplit, filter_running hother]
  refine ⟨before, after, hsplit, hcomplete, ?_⟩
  rw [hcomplete]
  refine job?_eq_none_iff.mpr fun hm => ?_
  obtain ⟨r, hr, heq⟩ := List.mem_map.mp hm
  exact hother r hr heq

theorem perform_append (d : Dispatch α) (acts more : List (Act α)) :
    d.perform (acts ++ more) = (d.perform acts).perform more := List.foldl_append

/-- The pool can go on until nothing is queued and nobody is busy. Each round ends a block or takes
one out of the queue. -/
theorem Sound.drains (h : d.Sound threads works) :
    ∃ more : List (Act α), (∀ act ∈ more, act.goesOn = true)
      ∧ (d.perform more).workers.queued = [] ∧ (d.perform more).workers.running = []
      ∧ (d.perform more).Sound threads works := by
  -- a queued job weighs two, one at work weighs one, so both kinds of round make it lighter
  generalize hsize : 2 * d.workers.queued.length + d.workers.running.length = size
  induction size using Nat.strongRecOn generalizing d with
  | ind size ih =>
      cases hr : d.workers.running with
      | cons r others =>
          have hjob : d.workers.job? r.1 = some r.2 := by
            rw [Workers.job?, hr, List.find?_cons_of_pos (by simp)]
            rfl
          obtain ⟨before, after, hsplit, hfinish, _⟩ := h.finish hjob
          have hlen := congrArg List.length hsplit
          rw [List.length_append, List.length_cons] at hlen
          have hless : 2 * ((d.conclude r.1).complete r.1).workers.queued.length
              + ((d.conclude r.1).complete r.1).workers.running.length < size := by
            rw [hfinish]
            show 2 * d.workers.queued.length + (before ++ after).length < size
            rw [List.length_append]
            omega
          obtain ⟨more, hgoes, hdone⟩ := ih _ hless ((h.conclude r.1).complete r.1) rfl
          refine ⟨[.conclude r.1, .complete r.1] ++ more,
            List.forall_mem_append.mpr ⟨by simp [Act.goesOn], hgoes⟩, ?_⟩
          rw [perform_append]
          exact hdone
      | nil =>
          cases hq : d.workers.queued with
          | nil => exact ⟨[], by simp, hq, hr, h⟩
          | cons job rest =>
              have hlt : 0 < d.workers.threads := by
                rw [h.size]
                omega
              have hidle : d.workers.job? 0 = none := job?_eq_none_iff.mpr (by simp [hr])
              have htake := take_idle hlt hidle hq
              have hless : 2 * (d.take 0).workers.queued.length
                  + (d.take 0).workers.running.length < size := by
                rw [htake]
                show 2 * rest.length + (d.workers.running.length + 1) < size
                rw [hq, List.length_cons] at hsize
                omega
              obtain ⟨more, hgoes, hdone⟩ := ih _ hless (h.take 0) rfl
              exact ⟨.take 0 :: more, List.forall_mem_cons.mpr ⟨rfl, hgoes⟩, hdone⟩

/-- Nobody gives up while the pool goes on. -/
theorem caller_ne_gone (hgoes : act.goesOn = true) (h : (d.calls ticket).caller ≠ .gone) :
    ((d.step act).calls ticket).caller ≠ .gone := by
  cases act with
  | submit work => exact absurd hgoes (by simp [Act.goesOn])
  | abandon t => exact absurd hgoes (by simp [Act.goesOn])
  | take worker =>
      rcases take_cases d worker with hsame | ⟨job, rest, _, _, _, _, htake⟩
      · rw [step, hsame]
        exact h
      · rw [step, htake]
        exact h
  | conclude worker =>
      rcases conclude_cases d worker with hsame | ⟨job, _, _, hconclude⟩
      · rw [step, hsame]
        exact h
      · rw [step, hconclude]
        have hcaller := caller_setCall (f := fun c => { c with result := job.work.channel })
          (fun _ => rfl) d.calls job.ticket ticket
        exact fun hgone => h (hcaller.symm.trans hgone)
  | complete worker =>
      rcases complete_cases d worker with hsame | ⟨job, _, _, hcomplete⟩
      · rw [step, hsame]
        exact h
      · rw [step, hcomplete]
        have hcaller := caller_setCall (f := fun c => { c with done := (task job.work).channel })
          (fun _ => rfl) d.calls job.ticket ticket
        exact fun hgone => h (hcaller.symm.trans hgone)
  | wake t =>
      have hset : ∀ c : Caller α, c ≠ .gone →
          (setCall d.calls t (fun call => { call with caller := c }) ticket).caller ≠ .gone := by
        intro c hc
        by_cases hsame : ticket = t
        · rw [hsame, setCall_self]
          exact hc
        · rw [setCall_ne hsame]
          exact h
      rcases wake_cases d t with hsame | ⟨r, _, _, _, hwake⟩ | ⟨r, _, _, _, hwake⟩
      · rw [step, hsame]
        exact h
      · rw [step, hwake]
        refine hset (.after r) ?_
        cases r <;> simp [Caller.after]
      · rw [step, hwake]
        exact hset (.resolved r) (by simp)

theorem perform_ne_gone {more : List (Act α)} (hgoes : ∀ act ∈ more, act.goesOn = true)
    (h : (d.calls ticket).caller ≠ .gone) :
    ((d.perform more).calls ticket).caller ≠ .gone := by
  induction more generalizing d with
  | nil => exact h
  | cons act rest ih =>
      exact ih (fun other ho => hgoes other (List.mem_cons_of_mem _ ho))
        (caller_ne_gone (hgoes act List.mem_cons_self) h)

/-! ## The caller of a finished job gets its answer -/

theorem wake_waiting {r : Except Failure Unit} (hlt : ticket < d.workers.nextTicket)
    (hcaller : (d.calls ticket).caller = .waiting)
    (hran : (d.calls ticket).done.ran? = some r) :
    d.wake ticket = { d with
      runs := d.runs ++ [(ticket, r)]
      calls := setCall d.calls ticket fun c => { c with caller := .after r } } := by
  unfold wake
  rw [if_pos hlt, hcaller]
  dsimp only
  rw [hran]

theorem wake_collecting {r : Except Failure α} (hlt : ticket < d.workers.nextTicket)
    (hcaller : (d.calls ticket).caller = .collecting)
    (hfound : (d.calls ticket).result.found? = some r) :
    d.wake ticket = { d with
      calls := setCall d.calls ticket fun c => { c with caller := .resolved r } } := by
  unfold wake
  rw [if_pos hlt, hcaller]
  dsimp only
  rw [hfound]

theorem wake_resolved {r : Except Failure α} (hcaller : (d.calls ticket).caller = .resolved r) :
    d.wake ticket = d := by
  unfold wake
  rw [hcaller]
  by_cases hlt : ticket < d.workers.nextTicket
  · rw [if_pos hlt]
  · rw [if_neg hlt]

/-- A caller that collects the value of a finished job has it at once. -/
theorem resolve_collecting {p : Place} (hlt : job.ticket < d.workers.nextTicket)
    (hfits : p.Fits job.work (d.calls job.ticket))
    (hcaller : (d.calls job.ticket).caller = .collecting) :
    ((d.wake job.ticket).calls job.ticket).caller = .resolved job.work.verdict := by
  obtain ⟨_, value, hwork, hresult⟩ := result_of_collecting hfits hcaller
  have hfound : (d.calls job.ticket).result.found? = some (.ok value) := by
    rw [hresult]
    rfl
  rw [wake_collecting hlt hcaller hfound, hwork]
  exact congrArg Call.caller (setCall_self d.calls job.ticket
    fun c => { c with caller := .resolved (.ok value) })

/-- Two looks are enough once the job is finished: one at each channel. -/
theorem Sound.resolve (h : d.Sound threads works) (hj : job ∈ d.workers.finished)
    (hng : (d.calls job.ticket).caller ≠ .gone) :
    (((d.wake job.ticket).wake job.ticket).calls job.ticket).caller
      = .resolved job.work.verdict := by
  have hfits := h.kept.fits _ (mem_finished hj)
  have hlt : job.ticket < d.workers.nextTicket := by
    rw [h.next]
    exact h.kept.ticket_lt (mem_finished hj)
  obtain ⟨hdone, hresult, hwait | hgone | ⟨hcollect, _⟩ | hresolved⟩ := hfits
  · have hran : (d.calls job.ticket).done.ran? = some (Workers.report job) := by
      rw [hdone]
      unfold Workers.report
      cases job.work <;> rfl
    have hcall : (d.wake job.ticket).calls job.ticket
        = { d.calls job.ticket with caller := .after (Workers.report job) } := by
      rw [wake_waiting hlt hwait hran]
      exact setCall_self d.calls job.ticket
        fun c => { c with caller := .after (Workers.report job) }
    cases hw : job.work with
    | returns value =>
        -- the first look finds that the job is over, the second one the value
        have hcaller : ((d.wake job.ticket).calls job.ticket).caller = .collecting := by
          rw [hcall]
          show Caller.after (Workers.report job) = _
          rw [Workers.report, hw]
          rfl
        have hfinished : job ∈ (d.wake job.ticket).workers.finished := by
          rw [wake_waiting hlt hwait hran]
          exact hj
        have hnext : job.ticket < (d.wake job.ticket).workers.nextTicket := by
          rw [(h.wake job.ticket).next, ← h.next]
          exact hlt
        have hfits := (h.wake job.ticket).kept.fits _ (mem_finished hfinished)
        rw [resolve_collecting hnext hfits hcaller, hw]
    | unwinds =>
        have hcaller : ((d.wake job.ticket).calls job.ticket).caller
            = .resolved (Ending.verdict .unwinds) := by
          rw [hcall]
          show Caller.after (Workers.report job) = _
          rw [Workers.report, hw]
          rfl
        rw [wake_resolved hcaller]
        exact hcaller
  · exact absurd hgone hng
  · have hdone := resolve_collecting hlt (h.kept.fits _ (mem_finished hj)) hcollect
    rw [wake_resolved hdone]
    exact hdone
  · rw [wake_resolved hresolved, wake_resolved hresolved]
    exact hresolved

/-- Waking one caller leaves the workers and all other callers alone. -/
theorem wake_frame (d : Dispatch α) (ticket : Nat) :
    (d.wake ticket).workers = d.workers
      ∧ ∀ t, t ≠ ticket → (d.wake ticket).calls t = d.calls t := by
  rcases wake_cases d ticket with hsame | ⟨r, _, _, _, hwake⟩ | ⟨r, _, _, _, hwake⟩
  · rw [hsame]
    exact ⟨rfl, fun _ _ => rfl⟩
  · rw [hwake]
    exact ⟨rfl, fun t ht => setCall_ne ht d.calls fun c => { c with caller := .after r }⟩
  · rw [hwake]
    exact ⟨rfl, fun t ht => setCall_ne ht d.calls fun c => { c with caller := .resolved r }⟩

/-- Callers of finished jobs are answered one after the other. -/
theorem Sound.answerAll (h : d.Sound threads works) (tickets : List Nat)
    (hfinished : ∀ t ∈ tickets, ∃ job ∈ d.workers.finished, job.ticket = t) :
    ∃ more : List (Act α), (∀ act ∈ more, act.goesOn = true)
      ∧ (d.perform more).workers = d.workers
      ∧ (∀ t r, (d.calls t).caller = .resolved r → ((d.perform more).calls t).caller = .resolved r)
      ∧ ∀ t ∈ tickets, (d.calls t).caller ≠ .gone →
          ∃ r, ((d.perform more).calls t).caller = .resolved r := by
  induction tickets generalizing d with
  | nil => exact ⟨[], by simp, rfl, fun _ _ hr => hr, fun t ht => absurd ht (by simp)⟩
  | cons ticket rest ih =>
      obtain ⟨job, hj, rfl⟩ := hfinished ticket List.mem_cons_self
      have hframe := wake_frame d job.ticket
      have hframe' := wake_frame (d.wake job.ticket) job.ticket
      have hworkers : ((d.wake job.ticket).wake job.ticket).workers = d.workers :=
        hframe'.1.trans hframe.1
      have hkeep : ∀ t r, (d.calls t).caller = .resolved r →
          (((d.wake job.ticket).wake job.ticket).calls t).caller = .resolved r := by
        intro t r hr
        by_cases ht : t = job.ticket
        · subst ht
          rw [wake_resolved hr, wake_resolved hr]
          exact hr
        · rw [hframe'.2 t ht, hframe.2 t ht]
          exact hr
      obtain ⟨more, hgoes, hsame, hold, hnew⟩ := ih ((h.wake job.ticket).wake job.ticket)
        fun t ht => by
          rw [hworkers]
          exact hfinished t (List.mem_cons_of_mem _ ht)
      have hwakes : ∀ act ∈ [Act.wake job.ticket, Act.wake job.ticket],
          (act : Act α).goesOn = true := by
        simp [Act.goesOn]
      refine ⟨[.wake job.ticket, .wake job.ticket] ++ more,
        List.forall_mem_append.mpr ⟨hwakes, hgoes⟩, ?_, ?_, ?_⟩
      · rw [perform_append]
        exact hsame.trans hworkers
      · intro t r hr
        rw [perform_append]
        exact hold t r (hkeep t r hr)
      · intro t ht hng
        rw [perform_append]
        rcases List.mem_cons.mp ht with rfl | ht
        · exact ⟨_, hold _ _ (h.resolve hj hng)⟩
        · exact hnew t ht (perform_ne_gone hwakes hng)

theorem Sound.entry_of_lt (h : d.Sound threads works) (ht : ticket < works.length) :
    ∃ p work, (p, ⟨ticket, work⟩) ∈ d.ledger ∧ works[ticket]? = some work
      ∧ p.Fits work (d.calls ticket) := by
  obtain ⟨⟨p, job⟩, he, rfl⟩ := h.kept.entry ht
  exact ⟨p, job.work, he, h.kept.own _ he, h.kept.fits _ he⟩

/-- With nothing queued and nobody busy all jobs are finished. -/
theorem Sound.finished_of_drained (h : d.Sound threads works) (hq : d.workers.queued = [])
    (hr : d.workers.running = []) (ht : ticket < works.length) :
    ∃ job ∈ d.workers.finished, job.ticket = ticket := by
  obtain ⟨e, he, rfl⟩ := h.kept.entry ht
  rw [ledger, hq, hr] at he
  obtain ⟨job, hj, rfl⟩ := List.mem_map.mp he
  exact ⟨job, hj, rfl⟩

/-- The pool goes on until every caller that still waits is answered for its own block. -/
theorem Sound.resolves (h : d.Sound threads works) :
    ∃ more : List (Act α), (∀ act ∈ more, act.goesOn = true)
      ∧ (d.perform more).workers.queued = [] ∧ (d.perform more).workers.running = []
      ∧ ∀ ticket < works.length, (d.calls ticket).caller ≠ .gone →
          ∃ work, works[ticket]? = some work
            ∧ ((d.perform more).calls ticket).caller = .resolved work.verdict := by
  obtain ⟨first, hfirst, hq, hr, hsound⟩ := h.drains
  obtain ⟨second, hsecond, hworkers, _, hanswered⟩ := hsound.answerAll (List.range works.length)
    fun t ht => hsound.finished_of_drained hq hr (List.mem_range.mp ht)
  have hend : (d.perform (first ++ second)).Sound threads works := by
    have hall := hsound.perform second
    -- to go on submits nothing, so the blocks are still those from before
    have hnone : blocks second = [] := by
      refine List.filterMap_eq_nil_iff.mpr fun act ha => ?_
      cases act with
      | submit work => exact absurd (hsecond _ ha) (by simp [Act.goesOn])
      | _ => rfl
    rw [hnone, List.append_nil] at hall
    rw [perform_append]
    exact hall
  refine ⟨first ++ second, List.forall_mem_append.mpr ⟨hfirst, hsecond⟩, ?_, ?_,
    fun ticket ht hng => ?_⟩
  · rw [perform_append, hworkers]
    exact hq
  · rw [perform_append, hworkers]
    exact hr
  · obtain ⟨r, hresolved⟩ := hanswered ticket (List.mem_range.mpr ht)
      (perform_ne_gone hfirst hng)
    rw [← perform_append] at hresolved
    obtain ⟨p, work, _, hown, hfits⟩ := hend.entry_of_lt ht
    obtain ⟨_, rfl⟩ := resolved_of_fits hfits hresolved
    exact ⟨work, hown, hresolved⟩

/-! ## All of it -/

theorem Sound.exactlyOnce {acts : List (Act α)} (h : d.Sound threads (blocks acts)) :
    ExactlyOnce threads acts d where
  size := h.size
  one_place := h.kept.tickets
  own := h.kept.own
  one_job := ⟨h.apart, h.within⟩
  executed := ⟨h.begun_nodup, fun _ he => h.mem_begun_iff he⟩
  in_order := h.begun_eq
  ran r hr := by
    obtain ⟨⟨ticket, work⟩, hj, hticket, hreport, _⟩ := h.told r hr
    obtain rfl : ticket = r.1 := hticket
    refine ⟨work, h.kept.own _ (mem_finished hj), mem_finished hj, ?_⟩
    rw [hreport]
    cases work with
    | returns value => exact Or.inl ⟨rfl, value, rfl⟩
    | unwinds => exact Or.inr ⟨rfl, rfl⟩
  ran_once := h.once
  answered ticket ht r hresolved := by
    obtain ⟨p, work, he, hown, hfits⟩ := h.entry_of_lt ht
    obtain ⟨rfl, rfl⟩ := resolved_of_fits hfits hresolved
    exact ⟨work, hown, rfl, h.answer?_finished (finished_of_mem he)⟩
  collects ticket ht hcollecting := by
    obtain ⟨p, work, _, hown, hfits⟩ := h.entry_of_lt ht
    obtain ⟨_, value, rfl, hresult⟩ := result_of_collecting hfits hcollecting
    refine ⟨value, hown, ?_⟩
    rw [hresult]
    rfl
  frees worker job hjob := by
    obtain ⟨before, after, _, hfinish, hidle⟩ := h.finish hjob
    refine ⟨hidle, ?_, ?_⟩
    · rw [hfinish]
    · rw [hfinish]
  takes worker hlt hidle job rest hq := by
    rw [take_idle hlt hidle hq]
    refine ⟨?_, rfl⟩
    show ((((worker, job) :: d.workers.running).find? _).map _) = _
    rw [List.find?_cons_of_pos (by simp)]
    rfl
  resolves := h.resolves
  model := h.model

/-- The workers can go through every run of their own. -/
theorem Sound.covers (h : d.Sound threads works) (events : List (Event α)) :
    ∃ acts, (d.perform acts).workers = d.workers.run events := by
  induction events generalizing d works with
  | nil => exact ⟨[], rfl⟩
  | cons event rest ih =>
      cases event with
      | submit work =>
          obtain ⟨acts, hacts⟩ := ih (h.submit work)
          exact ⟨.submit work :: acts, hacts⟩
      | take worker =>
          obtain ⟨acts, hacts⟩ := ih (h.take worker)
          have hsame : (d.take worker).workers = d.workers.take worker := by
            by_cases hfree : worker < d.workers.threads ∧ (d.workers.job? worker).isNone
            · cases hq : d.workers.queued with
              | nil =>
                  rw [Dispatch.take, Workers.take, if_pos hfree, if_pos hfree, hq]
              | cons job others =>
                  rw [Dispatch.take, if_pos hfree, hq]
            · rw [Dispatch.take, Workers.take, if_neg hfree, if_neg hfree]
          refine ⟨.take worker :: acts, hacts.trans ?_⟩
          rw [hsame]
          rfl
      | complete worker =>
          obtain ⟨acts, hacts⟩ := ih ((h.conclude worker).complete worker)
          -- what is one event for the workers are two acts here: the task ends, then its end is
          -- reported
          have hsame : ((d.conclude worker).complete worker).workers
              = d.workers.complete worker := by
            cases hjob : d.workers.job? worker with
            | none =>
                have hstill : d.conclude worker = d := by
                  rw [Dispatch.conclude, hjob]
                rw [hstill, Dispatch.complete, Workers.complete, hjob]
            | some job =>
                obtain ⟨hworkers, hended⟩ := conclude_busy hjob
                rw [complete_ended (hworkers ▸ hjob) hended, hworkers]
          refine ⟨[.conclude worker, .complete worker] ++ acts, ?_⟩
          rw [perform_append]
          refine hacts.trans ?_
          rw [hsame]
          rfl

end Dispatch

/-- The pool with its callers goes through every run of its workers. -/
theorem dispatch_covers (threads : Nat) (events : List (Event α)) :
    ∃ acts, ((Dispatch.start threads).perform acts).workers
      = (Workers.start threads).run events :=
  (Dispatch.sound_start threads).covers events

/-- **Every job is executed once and answered.**

Start a pool with any number of workers. Let callers submit any blocks, let workers take jobs, end
them and report, let callers look for their answers or give up, all of it in any order. -/
theorem jobs_exactly_once (threads : Nat) (acts : List (Act α)) :
    ExactlyOnce threads acts ((Dispatch.start threads).perform acts) :=
  (Dispatch.sound_run threads acts).exactlyOnce

/-- The only worker goes on after a block that unwound. -/
example :
    let d := (Dispatch.start 0).perform [.submit .unwinds, .submit (.returns 7), .take 0,
      .conclude 0, .complete 0, .take 0, .conclude 0, .wake 0, .complete 0, .wake 1, .wake 1]
    (d.calls 0).caller = .resolved (.error (.error (.execution .workerUnwound)))
      ∧ (d.calls 1).caller = .resolved (.ok 7) := ⟨rfl, rfl⟩

end PooledCrypto.Executor
