import PooledCrypto.Proofs.ExactlyOnce

/-!
# One contract for all adaptors

Whichever adaptor runs the blocks of an executor, a caller is promised the value of a block that
returns and an execution error for one that unwinds (`Ending.promise`). An adaptor keeps the promise
if it notices how its task ended (`Adaptor.Reports`), be it by the handle of a thread or by a channel
that was dropped. The blocks of a pool may run side by side, and still each caller has the result
that its block has alone (`Dispatch.Sound.resolved_eq_execute`).

Running in the caller's place falls short of this. Nothing stands between the block and the caller,
so a block that unwinds takes the caller along.
-/

namespace PooledCrypto.Executor

variable {α : Type}

/-- What the caller of a block is promised: its value, or the kind of the error. -/
def Ending.promise : Ending α → Except String α
  | .returns value => .ok value
  | .unwinds => .error "Execution"

/-- What a caller is told: a value, or the kind of an error. One that unwinds is told nothing. -/
def told? : Except Failure α → Option (Except String α)
  | .ok value => some (.ok value)
  | .error (.error e) => some (.error e.kindName)
  | .error .unwound => none

/-- The callers of all these blocks are told what they were promised. -/
def KeepsPromise (e : Executor) (works : List (Ending α)) : Prop :=
  (e.executeAll works).map told? = works.map fun work => some work.promise

/-- The adaptor runs its tasks and notices how they end. -/
structure Adaptor.Reports (a : Adaptor) (fault : ExecutionFault) : Prop where
  runs : a.runs = true
  returned : a.report (.returns ()) = .ok ()
  unwound : a.report .unwinds = .error (.error (.execution fault))

/-- What holds of blocks on each of the adaptors. -/
structure OneContract (threads : Nat) (works : List (Ending α)) : Prop where
  /-- Away from the caller the promise is kept, so the results are the same. -/
  elsewhere : ∀ a ∈ [Adaptor.blocking, Adaptor.workers threads], KeepsPromise ⟨a⟩ works
  /-- In the caller's place it is kept for the blocks that return, and the caller unwinds with the
  others. -/
  in_place : (inPlace.executeAll works).map told? = works.map fun work => work.value?.map .ok
  in_place_keeps : KeepsPromise inPlace works ↔ .unwinds ∉ works
  /-- On one pool, in whatever order things happen, each caller has the result that the executor
  gives. -/
  pooled : ∀ acts, blocks acts = works → ∀ ticket < works.length, ∀ r,
    (((Dispatch.start threads).perform acts).calls ticket).caller = .resolved r →
      ((⟨.workers threads⟩ : Executor).executeAll works)[ticket]? = some r
  /-- Other blocks on the pool do not matter, and neither does how they end. -/
  others : ∀ acts acts', blocks acts = works → ∀ ticket < works.length,
    (blocks acts')[ticket]? = works[ticket]? → ∀ r r',
      (((Dispatch.start threads).perform acts).calls ticket).caller = .resolved r →
      (((Dispatch.start threads).perform acts').calls ticket).caller = .resolved r' → r = r'
  /-- Whoever waits on the pool has a result in the end. -/
  answered : ∀ acts, blocks acts = works → ∃ more : List (Act α),
    (∀ act ∈ more, act.goesOn = true) ∧ ∀ ticket < works.length,
      (((Dispatch.start threads).perform acts).calls ticket).caller ≠ .gone → ∃ r,
        (((Dispatch.start threads).perform (acts ++ more)).calls ticket).caller = .resolved r
          ∧ ((⟨.workers threads⟩ : Executor).executeAll works)[ticket]? = some r

variable {a : Adaptor} {fault : ExecutionFault} {works : List (Ending α)} {threads ticket : Nat}
  {d : Dispatch α}

/-! ## Away from the caller -/

theorem reports_blocking : Adaptor.blocking.Reports .blockingUnwound := ⟨rfl, rfl, rfl⟩

theorem reports_workers (threads : Nat) : (Adaptor.workers threads).Reports .workerUnwound where
  runs := rfl
  returned := Workers.single_eq threads (.returns ())
  unwound := Workers.single_eq threads .unwinds

/-- A block that unwinds has the adaptor's error for result. -/
theorem Adaptor.Reports.execute_unwinds (h : a.Reports fault) :
    (⟨a⟩ : Executor).execute (.unwinds : Ending α) = .error (.error (.execution fault)) := by
  unfold execute
  rw [task, h.unwound]

theorem Adaptor.Reports.told?_execute (h : a.Reports fault) (work : Ending α) :
    told? ((⟨a⟩ : Executor).execute work) = some work.promise := by
  cases work with
  | returns value =>
      rw [execute_returns ⟨a⟩ value h.runs h.returned]
      rfl
  | unwinds =>
      rw [h.execute_unwinds]
      rfl

theorem Adaptor.Reports.keepsPromise (h : a.Reports fault) (works : List (Ending α)) :
    KeepsPromise ⟨a⟩ works := by
  unfold KeepsPromise executeAll
  rw [List.map_map]
  exact List.map_congr_left fun work _ => h.told?_execute work

/-- Workers give what the caller of a job is owed. -/
theorem execute_workers (threads : Nat) (work : Ending α) :
    (⟨.workers threads⟩ : Executor).execute work = work.verdict := by
  have h := reports_workers threads
  cases work with
  | returns value => exact execute_returns _ value h.runs h.returned
  | unwinds => exact h.execute_unwinds

/-! ## In the caller's place -/

theorem told?_inPlace (work : Ending α) : told? (inPlace.execute work) = work.value?.map .ok := by
  cases work <;> rfl

theorem executeAll_inPlace (works : List (Ending α)) :
    (inPlace.executeAll works).map told? = works.map fun work => work.value?.map .ok := by
  unfold executeAll
  rw [List.map_map]
  exact List.map_congr_left fun work _ => told?_inPlace work

/-- The promise is kept exactly as long as no block unwinds. -/
theorem keepsPromise_inPlace_iff : KeepsPromise inPlace works ↔ .unwinds ∉ works := by
  unfold KeepsPromise
  rw [executeAll_inPlace, List.map_inj_left]
  constructor
  · intro h hmem
    cases h _ hmem
  · intro h work hw
    cases work with
    | returns value => rfl
    | unwinds => exact absurd hw h

/-! ## Callers that share a pool -/

/-- The result of a caller among others is the one that its block has alone. -/
theorem Dispatch.Sound.resolved_eq_execute (h : d.Sound threads works) (ht : ticket < works.length)
    {r : Except Failure α} (hr : (d.calls ticket).caller = .resolved r) :
    ∃ work, works[ticket]? = some work ∧ r = (⟨.workers threads⟩ : Executor).execute work := by
  obtain ⟨p, work, _, hown, hfits⟩ := h.entry_of_lt ht
  obtain ⟨_, hverdict⟩ := resolved_of_fits hfits hr
  exact ⟨work, hown, by rw [hverdict, execute_workers]⟩

theorem getElem?_executeAll (e : Executor) (works : List (Ending α)) (ticket : Nat) :
    (e.executeAll works)[ticket]? = works[ticket]?.map e.execute := List.getElem?_map

/-- **The adaptors and their contract.**

Give any blocks to an executor, some of which unwind. A thread for blocking work and a pool with any
number of workers keep the promise for each of them. In the caller's place it is kept exactly if no
block unwinds. -/
theorem adaptors_one_contract (threads : Nat) (works : List (Ending α)) :
    OneContract threads works where
  elsewhere a ha := by
    rcases List.mem_cons.mp ha with rfl | ha
    · exact reports_blocking.keepsPromise works
    · obtain rfl := List.mem_singleton.mp ha
      exact (reports_workers threads).keepsPromise works
  in_place := executeAll_inPlace works
  in_place_keeps := keepsPromise_inPlace_iff
  pooled acts hacts ticket ht r hr := by
    subst hacts
    obtain ⟨work, hown, rfl⟩ := (Dispatch.sound_run threads acts).resolved_eq_execute ht hr
    rw [getElem?_executeAll, hown]
    rfl
  others acts acts' hacts ticket ht hsame r r' hr hr' := by
    subst hacts
    -- both callers have the result of the block under their ticket, which is the same one
    obtain ⟨work, hown, rfl⟩ := (Dispatch.sound_run threads acts).resolved_eq_execute ht hr
    rw [hown] at hsame
    have ht' : ticket < (blocks acts').length := (List.getElem?_eq_some_iff.mp hsame).1
    obtain ⟨work', hown', rfl⟩ := (Dispatch.sound_run threads acts').resolved_eq_execute ht' hr'
    rw [hsame] at hown'
    obtain rfl : work = work' := Option.some.inj hown'
    rfl
  answered acts hacts := by
    subst hacts
    obtain ⟨more, hgoes, _, _, hresolved⟩ := (Dispatch.sound_run threads acts).resolves
    refine ⟨more, hgoes, fun ticket ht hng => ?_⟩
    obtain ⟨work, hown, hr⟩ := hresolved ticket ht hng
    refine ⟨work.verdict, ?_, ?_⟩
    · rw [Dispatch.perform_append]
      exact hr
    · rw [getElem?_executeAll, hown, ← execute_workers threads work]
      rfl

/-- One block that unwinds between two that return. Two of the adaptors tell its caller of an error,
and the third one lets the caller unwind. -/
theorem in_place_breaks_promise :
    let works : List (Ending Nat) := [.returns 3, .unwinds, .returns 21]
    KeepsPromise ⟨.blocking⟩ works ∧ KeepsPromise ⟨.workers 1⟩ works ∧ ¬KeepsPromise inPlace works
      ∧ inPlace.executeAll works = [.ok 3, .error .unwound, .ok 21] := by
  intro works
  refine ⟨rfl, rfl, ?_, rfl⟩
  rw [keepsPromise_inPlace_iff]
  exact not_not_intro (by simp [works])

end PooledCrypto.Executor
