import PooledCrypto.Provider.Software

/-!
# Starting an executor

A configuration says how work is run, and for two of the three modes something has to be there for
that: a runtime for blocking work, and threads for workers. Whether a state can be set up depends on
nothing else (`ExecutionMode.Starts`). Where it cannot, the error is one of execution; where it can,
its executor runs what it is given and tells how that ended.

The same then holds of providers, which are made of a state without asking for more. The default
registry has one factory, so its default is what that factory makes.
-/

namespace PooledCrypto

open Provider (State)

variable {mode : ExecutionMode} {around : State.Surroundings} {config : Config} {s : State}

/-- What the mode needs is there. -/
def ExecutionMode.Starts (mode : ExecutionMode) (around : State.Surroundings) : Prop :=
  match mode with
  | .inPlace => True
  | .blocking => around.runtime = true
  | .workers count => around.threads.Suffice count

instance (mode : ExecutionMode) (around : State.Surroundings) : Decidable (mode.Starts around) :=
  match mode with
  | .inPlace => inferInstanceAs (Decidable True)
  | .blocking => inferInstanceAs (Decidable (_ = _))
  | .workers count => inferInstanceAs (Decidable (around.threads.Suffice count))

/-- The executor runs the tasks it is given, and says of those that return that they did. -/
structure Executor.Tells (e : Executor) : Prop where
  runs : e.adaptor.runs = true
  report : e.adaptor.report (.returns ()) = .ok ()

/-- An executor that is started tells how its tasks ended, in each of the three modes. -/
theorem ExecutionMode.build_of_starts (h : mode.Starts around) :
    ∃ e, mode.build around.runtime around.threads = .ok e ∧ e.Tells := by
  cases mode with
  | inPlace => exact ⟨_, rfl, rfl, rfl⟩
  | blocking => exact ⟨_, if_pos h, rfl, rfl⟩
  | workers count => exact ⟨_, if_pos h, rfl, Executor.Workers.single_eq count (.returns ())⟩

/-- There is one kind of error for all that may be missing. -/
theorem ExecutionMode.build_of_not_starts (h : ¬mode.Starts around) :
    ∃ why, mode.build around.runtime around.threads = .error (.execution why) := by
  cases mode with
  | inPlace => exact absurd trivial h
  | blocking => exact ⟨_, if_neg h⟩
  | workers count => exact ⟨_, if_neg h⟩

namespace Provider.State

/-- Apart from its executor, a state that is set up is told by configuration and surroundings. -/
theorem ofConfig_of_starts (h : config.execution.Starts around) :
    ∃ e : Executor, e.Tells ∧ ofConfig around config
      = .ok (start e around.entropy (config.effectiveCapacity around.processors)) := by
  obtain ⟨e, hbuild, htells⟩ := ExecutionMode.build_of_starts h
  refine ⟨e, htells, ?_⟩
  unfold ofConfig
  rw [hbuild]
  rfl

theorem ofConfig_of_not_starts (h : ¬config.execution.Starts around) :
    ∃ why, ofConfig around config = .error (.execution why) := by
  obtain ⟨why, hbuild⟩ := ExecutionMode.build_of_not_starts h
  refine ⟨why, ?_⟩
  unfold ofConfig
  rw [hbuild]
  rfl

/-- There is no state but one whose executor was started. -/
theorem ofConfig_eq_ok (h : ofConfig around config = .ok s) :
    config.execution.Starts around ∧ s.executor.Tells
      ∧ s = start s.executor around.entropy (config.effectiveCapacity around.processors) := by
  by_cases hstarts : config.execution.Starts around
  · obtain ⟨e, htells, hstate⟩ := ofConfig_of_starts hstarts
    obtain rfl := Except.ok.inj (hstate.symm.trans h)
    exact ⟨hstarts, htells, rfl⟩
  · obtain ⟨why, herror⟩ := ofConfig_of_not_starts hstarts
    exact absurd (herror.symm.trans h) (by simp)

end Provider.State

/-! ## Providers -/

namespace Provider

variable {v : Json} {e : Error} {p : Provider}

/-- A provider asks for no more than its state does. -/
theorem softwareOfConfig_of_starts (h : config.execution.Starts around) :
    ∃ e : Executor, e.Tells ∧ softwareOfConfig around config
      = .ok (software (.start e around.entropy (config.effectiveCapacity around.processors))) := by
  obtain ⟨e, htells, hstate⟩ := State.ofConfig_of_starts h
  refine ⟨e, htells, ?_⟩
  unfold softwareOfConfig
  rw [hstate]
  rfl

theorem softwareOfConfig_of_not_starts (h : ¬config.execution.Starts around) :
    ∃ why, softwareOfConfig around config = .error (.execution why) := by
  obtain ⟨why, hstate⟩ := State.ofConfig_of_not_starts h
  refine ⟨why, ?_⟩
  unfold softwareOfConfig
  rw [hstate]
  rfl

/-- The factory reads its configuration before anything else, and makes nothing of one that is
refused. -/
theorem softwareFactory_of_error (around : State.Surroundings) (h : Config.ofJson v = .error e) :
    softwareFactory around v = .error e := by
  unfold softwareFactory
  rw [h]
  rfl

theorem softwareFactory_of_ok (h : Config.ofJson v = .ok config) :
    softwareFactory around v = softwareOfConfig around config := by
  unfold softwareFactory
  rw [h]
  rfl

theorem resolveDefault_of_ok (h : softwareFactory around v = .ok p) :
    (defaultRegistry around).resolveDefault v = (.ok p, [softwareName]) := by
  unfold Registry.resolveDefault defaultRegistry Registry.resolveFirst
  dsimp only
  rw [h]

/-- Whatever was wrong, the registry says only that there is no provider left to try. -/
theorem resolveDefault_of_error (h : softwareFactory around v = .error e) :
    (defaultRegistry around).resolveDefault v
      = (.error (.notFound .anyProvider), [softwareName]) := by
  unfold Registry.resolveDefault defaultRegistry Registry.resolveFirst
  dsimp only
  rw [h]
  rfl

end Provider
end PooledCrypto
