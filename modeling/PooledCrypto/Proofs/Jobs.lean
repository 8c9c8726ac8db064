import PooledCrypto.FileTool.Job
import PooledCrypto.Proofs.Actions

/-!
# Jobs that write at their end

A job that makes a file has two parts. The first one finds out what to write: it asks the provider
and reads, and it leaves the files alone (`Finds`). The second one writes it. So there are two ways
for the job to end, and no third: all was written, or nothing was touched (`Ends`).

The first part is made of steps that each find something or report that there is no such thing.
A step may also fail for want of something that is not in the files, such as random bytes; what it
reports then says nothing about what there is to find. So all of this is up to a condition that what
is needed is there. That the files are left alone is not.

`Finds.ends` puts one more step in front, so a job is gone through from its end.
-/

namespace PooledCrypto.FileTool

namespace Files

/-- Something can be written to the path. -/
def Writable (f : Files) (path : String) : Prop := ∃ content g, f.write path content = .ok g

variable {f g : Files} {path other : String} {content : Bytes}

/-- What is written has to have an entry of its own that is no directory. -/
theorem write_eq_ok_iff : f.write path content = .ok g ↔
    ∃ place, f.target path = .ok (.entry place false) ∧ f.node? place ≠ some .directory
      ∧ f.put place (.file content) = g := by
  unfold write
  cases ht : f.target path with
  | error e => simp
  | ok t =>
      cases t with
      | directory => simp
      | entry place slash =>
          cases slash with
          | true => simp
          | false =>
              by_cases hd : f.node? place = some .directory
              · simp [hd]
              · simp [hd]

/-- Writing can be refused for the path, but not for what is written. -/
theorem Writable.write (h : f.Writable path) (content : Bytes) :
    ∃ g, f.write path content = .ok g := by
  obtain ⟨_, g, hwrite⟩ := h
  obtain ⟨place, htarget, hfree, -⟩ := write_eq_ok_iff.mp hwrite
  exact ⟨_, write_eq_ok_iff.mpr ⟨place, htarget, hfree, rfl⟩⟩

/-- Where something can be written it still can be after something else was. -/
theorem Writable.of_write (h : f.Writable other) (hwrite : f.write path content = .ok g) :
    g.Writable other := by
  obtain ⟨place, htarget, hfree, rfl⟩ := write_eq_ok_iff.mp hwrite
  obtain ⟨content', g', hwrite'⟩ := h
  obtain ⟨place', htarget', hfree', -⟩ := write_eq_ok_iff.mp hwrite'
  refine ⟨content', _, write_eq_ok_iff.mpr ⟨place', target_put _ hfree htarget', ?_, rfl⟩⟩
  by_cases hsame : place' = place
  · rw [hsame, node?_put_self f _ (target_entry_ne_nil htarget)]
    simp
  · rw [node?_put_of_ne f _ hsame]
    exact hfree'

/-- A directory is not written to. -/
theorem not_writable_of_directory {place : Place} {slash : Bool}
    (htarget : f.target path = .ok (.entry place slash))
    (hdirectory : f.node? place = some .directory) : ¬f.Writable path := by
  rintro ⟨content, g, hwrite⟩
  obtain ⟨place', htarget', hfree, -⟩ := write_eq_ok_iff.mp hwrite
  obtain ⟨rfl, -⟩ := Target.entry.inj (Except.ok.inj (htarget'.symm.trans htarget))
  exact hfree hdirectory

end Files

namespace Job

variable {α β : Type} {job : Job (StateM Disk) α} {next : α → Job (StateM Disk) β} {b b' : Bench}
  {d d' : Disk} {path headline : String} {noted : Error → Option Output}

/-! ## One step after the other -/

theorem bind_of_ok {x : α} (h : job b d = ((.ok x, b'), d')) :
    (job >>= next) b d = next x b' d' := by
  show (match job b d with
    | ((x, b'), d') => ExceptT.bindCont next x b' d') = next x b' d'
  rw [h]
  rfl

theorem bind_of_error {e : Breakdown} (h : job b d = ((.error e, b'), d')) :
    (job >>= next) b d = ((.error e, b'), d') := by
  show (match job b d with
    | ((x, b'), d') => ExceptT.bindCont next x b' d') = ((.error e, b'), d')
  rw [h]
  rfl

/-- Access to files from within a job. -/
theorem lift_apply (work : StateM Disk α) (b : Bench) (d : Disk) :
    (liftM work : Job (StateM Disk) α) b d = ((.ok (work d).1, b), (work d).2) := rfl

theorem within_of_ok {x : α} (h : job b d = ((.ok x, b'), d')) :
    job.within headline b d = ((.ok x, b'), d') := by
  simp only [within, tryCatch, tryCatchThe, MonadExceptOf.tryCatch, ExceptT.tryCatch, ExceptT.mk,
    bind, StateT.bind, h]
  rfl

theorem within_of_report {r : Report} (h : job b d = ((.error (.report r), b'), d')) :
    job.within headline b d = ((.error (.report (r.within headline)), b'), d') := by
  simp only [within, tryCatch, tryCatchThe, MonadExceptOf.tryCatch, ExceptT.tryCatch, ExceptT.mk,
    bind, StateT.bind, h]
  rfl

theorem put_apply (out : Output) (b : Bench) (d : Disk) :
    (put out : Job (StateM Disk) Unit) b d
      = ((.ok (), { b with output := b.output ++ [out] }), d) := rfl

/-- What the provider answers the job has found. -/
theorem askNoting_of_ok {work : Action Provider α} {x : α} {p : Provider}
    (h : work b.provider = (.ok x, p)) :
    (askNoting noted work : Job (StateM Disk) α) b d = ((.ok x, { b with provider := p }), d) := by
  have hget : (get : Job (StateM Disk) Bench) b d = ((.ok b, b), d) := rfl
  have hset : (set { b with provider := p } : Job (StateM Disk) PUnit) b d
      = ((.ok ⟨⟩, { b with provider := p }), d) := rfl
  unfold askNoting Action.runOn
  rw [bind_of_ok hget, h]
  dsimp only
  rw [bind_of_ok hset]
  rfl

/-- An error of the provider is reported, after it was noted if that is called for. -/
theorem askNoting_of_error {work : Action Provider α} {e : Error} {p : Provider}
    (h : work b.provider = (.error (.error e), p)) :
    (askNoting noted work : Job (StateM Disk) α) b d
      = ((.error (.report (.ofError e)), ⟨p, b.output ++ (noted e).toList⟩), d) := by
  have hget : (get : Job (StateM Disk) Bench) b d = ((.ok b, b), d) := rfl
  have hset : (set { b with provider := p } : Job (StateM Disk) PUnit) b d
      = ((.ok ⟨⟩, { b with provider := p }), d) := rfl
  unfold askNoting Action.runOn
  rw [bind_of_ok hget, h]
  dsimp only
  rw [bind_of_ok hset]
  cases noted e with
  | none =>
      rw [Option.toList_none, List.append_nil]
      rfl
  | some out => exact bind_of_ok (put_apply out _ d)

/-! ## Steps that leave the files alone -/

/-- The job finds something with the property, which may speak of the provider's state after it, or
it reports. If all was ready it reports only where nothing has the property. Either way it leaves the
disk as it is. -/
def Finds (ready : Prop) (job : Job (StateM Disk) α) (b : Bench) (d : Disk)
    (P : α → Provider.State → Prop) : Prop :=
  (∃ x b', P x b'.provider.state ∧ job b d = ((.ok x, b'), d))
    ∨ ∃ r b', (ready → ∀ x s, ¬P x s) ∧ job b d = ((.error (.report r), b'), d)

variable {ready : Prop} {P : α → Provider.State → Prop}

theorem finds_ok {x : α} (hx : P x b'.provider.state) (h : job b d = ((.ok x, b'), d)) :
    Finds ready job b d P := Or.inl ⟨x, b', hx, h⟩

theorem finds_report {r : Report} (hnone : ready → ∀ x s, ¬P x s)
    (h : job b d = ((.error (.report r), b'), d)) : Finds ready job b d P := Or.inr ⟨r, b', hnone, h⟩

/-- A step that is known is left behind. -/
theorem finds_bind_of_ok {Q : β → Provider.State → Prop} {x : α} (h : job b d = ((.ok x, b'), d))
    (hnext : Finds ready (next x) b' d Q) : Finds ready (job >>= next) b d Q := by
  unfold Finds
  rw [bind_of_ok h]
  exact hnext

theorem finds_fail {r : Report} (h : ready → ∀ x s, ¬P x s) : Finds ready (fail r) b d P :=
  finds_report h rfl

theorem finds_expect {result : Except IoFault α}
    (hok : ∀ x, result = .ok x → P x b.provider.state)
    (herror : ∀ f, result = .error f → ∀ x s, ¬P x s) :
    Finds ready (expect headline result) b d P := by
  cases result with
  | ok x => exact finds_ok (hok x rfl) rfl
  | error f => exact finds_fail fun _ => herror f rfl

/-- A question to the provider. -/
theorem finds_ask {work : Action Provider α} {result : Except Error α} {p : Provider}
    (h : work b.provider = (result.mapError .error, p)) (hok : ∀ x, result = .ok x → P x p.state)
    (herror : ∀ e, result = .error e → ready → ∀ x s, ¬P x s) :
    Finds ready (askNoting noted work) b d P := by
  cases result with
  | ok x => exact finds_ok (hok x rfl) (askNoting_of_ok h)
  | error e => exact finds_report (herror e rfl) (askNoting_of_error h)

theorem Finds.within (h : Finds ready job b d P) : Finds ready (job.within headline) b d P := by
  rcases h with ⟨x, b', hx, hjob⟩ | ⟨r, b', hnone, hjob⟩
  · exact finds_ok hx (within_of_ok hjob)
  · exact finds_report hnone (within_of_report hjob)

/-! ## Jobs that write at their end -/

/-- What a job that writes comes to: it wrote something with the property to the path, all of it, or
the disk is as it was. If all was ready, there was nothing to write then or no way to do so. -/
inductive Ends (ready : Prop) (d : Disk) (path : String) (P : Bytes → Prop) :
    (Except Breakdown Unit × Bench) × Disk → Prop
  | all {content : Bytes} {files : Files} {b : Bench} (found : P content)
      (written : d.files.write path content = .ok files) :
      Ends ready d path P ((.ok (), b), { d with files })
  | nothing {r : Report} {b : Bench}
      (none : ready → ∀ content files, P content → d.files.write path content ≠ .ok files) :
      Ends ready d path P ((.error (.report r), b), d)

/-- One more step in front. -/
theorem Finds.ends {next : α → Job (StateM Disk) Unit} {Q : Bytes → Prop}
    (h : Finds ready job b d P)
    (hnext : ∀ x b', P x b'.provider.state → Ends ready d path Q (next x b' d))
    (hnone : (∀ x s, ¬P x s) → ∀ content, ¬Q content) :
    Ends ready d path Q ((job >>= next) b d) := by
  rcases h with ⟨x, b', hx, hjob⟩ | ⟨r, b', hfound, hjob⟩
  · rw [bind_of_ok hjob]
    exact hnext x b' hx
  · rw [bind_of_error hjob]
    exact .nothing fun hready content _ hcontent =>
      absurd hcontent (hnone (hfound hready) content)

/-- Writing either takes all bytes or changes nothing. -/
theorem writeFile_apply (path : String) (content : Bytes) (b : Bench) (d : Disk) :
    (writeFile path content : Job (StateM Disk) Unit) b d
      = match d.files.write path content with
        | .ok files => ((.ok (), b), { d with files })
        | .error f =>
          ((.error (.report ((Report.plain f.text).within s!"Failed to write {path}")), b), d) := by
  have hwrite : (FileAccess.write path content : StateM Disk (Except IoFault Unit)) d
      = match d.files.write path content with
        | .ok files => (.ok (), { d with files })
        | .error e => (.error e, d) := rfl
  unfold writeFile
  rw [bind_of_ok (lift_apply _ b d), hwrite]
  cases d.files.write path content <;> rfl

/-- The last step. -/
theorem ends_write {Q : Bytes → Prop} {content : Bytes} {text : String} (h : Q content) :
    Ends ready d path Q
      ((writeFile path content >>= fun _ => note text : Job (StateM Disk) Unit) b d) := by
  have hwrite := writeFile_apply path content b d
  cases hfiles : d.files.write path content with
  | ok files =>
      rw [hfiles] at hwrite
      rw [bind_of_ok hwrite]
      exact .all h hfiles
  | error f =>
      rw [hfiles] at hwrite
      rw [bind_of_error hwrite]
      refine .nothing fun _ other files _ hother => ?_
      have hwritable : d.files.Writable path := ⟨other, files, hother⟩
      obtain ⟨g, hg⟩ := hwritable.write content
      rw [hfiles] at hg
      exact absurd hg (by simp)

end Job

end PooledCrypto.FileTool
