import PooledCrypto.Streaming.Function

/-!
# The life of a streaming function

A function is started over a backend context, is called in any order, and comes to an end: it is
closed, it is dropped, or it is run to the end of a block. The backend is arbitrary, and so is what
it answers to each call.

Two components have to stay in step, the stage and the context. `Held` says that they do: the
context is there exactly as long as the function is not closed. Whatever refuses a call therefore
does so because of the stage.

What reaches the backend is not read off the function. The backend itself keeps the record: a
`Traced` context notes every call that arrives. `conserved_opened` is the invariant behind the main
result: the one context is either still held or was given out once, and its record is what `drive`
says, which knows of no stages at all.
-/

namespace PooledCrypto.Streaming

/-- A call on a streaming function. -/
inductive Call
  | update (chunk : Bytes)
  | finish (chunk : Bytes)
  | complete
  | close
  deriving DecidableEq, Repr

/-- What a call gives its caller. -/
inductive Answer (κ χ ω : Type)
  | chunk (r : Except Error χ)
  | result (r : Except Error ω)
  /-- What was released, if anything was. -/
  | released (core : Option κ)

/-- The context that was released with an answer. -/
def Answer.core? {κ χ ω : Type} : Answer κ χ ω → Option κ
  | .chunk _ => none
  | .result _ => none
  | .released core => core

/-- The contexts released with answers, in order. -/
def released {κ χ ω : Type} (answers : List (Answer κ χ ω)) : List κ :=
  answers.filterMap Answer.core?

theorem released_cons {κ χ ω : Type} (answer : Answer κ χ ω) (rest : List (Answer κ χ ω)) :
    released (answer :: rest) = answer.core?.toList ++ released rest := by
  cases h : answer.core? <;> simp [released, h]

/-- How a function comes to an end. -/
inductive Ending
  | close
  | drop
  /-- It is run with a block that makes some calls. -/
  | run (block : List Call)

/-- The calls made within an ending. -/
def Ending.calls : Ending → List Call
  | .close => []
  | .drop => []
  | .run block => block

namespace Function

variable {κ χ ω : Type}

/-- Makes a call. -/
def call [Core κ χ ω] (f : Function κ) : Call → Answer κ χ ω × Function κ
  | .update chunk => ((.chunk (f.update chunk).1), (f.update chunk).2)
  | .finish chunk => ((.result (f.finish chunk).1), (f.finish chunk).2)
  | .complete => ((.result f.complete.1), f.complete.2)
  | .close => (.released f.close.1, f.close.2)

/-- Makes calls in order. -/
def callAll [Core κ χ ω] : List Call → Function κ → List (Answer κ χ ω) × Function κ
  | [], f => ([], f)
  | c :: rest, f =>
    let (answer, f) := f.call c
    let (answers, f) := callAll rest f
    (answer :: answers, f)

/-- Brings a function to its end. The block of a run answers with all that its calls gave. -/
def endBy [Core κ χ ω] (f : Function κ) : Ending → List (Answer κ χ ω) × Function κ
  | .close => ([.released f.close.1], f.close.2)
  | .drop => ([], f)
  | .run block =>
    let (answers, core, f) := f.run (callAll block)
    (answers ++ [.released core], f)

/-- Everything a function gives in its life. However it ends, it is dropped at last, and what is
dropped is closed. -/
def life [Core κ χ ω] (core : κ) (calls : List Call) (ending : Ending) : List (Answer κ χ ω) :=
  let (before, f) := callAll calls (start core)
  let (last, f) := f.endBy ending
  before ++ last ++ [.released f.close.1]

/-- The context is held exactly while the function is not closed. -/
def Held (f : Function κ) : Prop := f.core.isSome = true ↔ f.stage ≠ .closed

end Function

/-- A call that reached a backend, and whether it succeeded. -/
inductive Reached
  | update (chunk : Bytes) (ok : Bool)
  | finish (chunk : Bytes) (ok : Bool)
  deriving DecidableEq, Repr

/-- A run of updates that succeed, then possibly one that does not, or one single finish; nothing
after that. -/
def Orderly (trace : List Reached) : Prop :=
  ∃ (chunks : List Bytes) (tail : List Reached),
    trace = chunks.map (fun chunk => .update chunk true) ++ tail
      ∧ (tail = [] ∨ (∃ chunk, tail = [.update chunk false])
          ∨ ∃ chunk ok, tail = [.finish chunk ok])

/-- A context that records the calls that reach it, the latest last. -/
structure Traced (κ : Type) where
  core : κ
  reached : List Reached

namespace Traced

variable {κ χ ω : Type}

/-- A context that no call has reached. -/
def untouched (core : κ) : Traced κ := ⟨core, []⟩

/-- The backend below does the work, and the record grows. -/
instance [Core κ χ ω] : Core (Traced κ) χ ω where
  update t chunk :=
    ((Core.update t.core chunk).1,
      ⟨(Core.update t.core chunk).2,
        t.reached ++ [.update chunk (Core.update t.core chunk).1.isOk]⟩)
  finish t chunk :=
    ((Core.finish t.core chunk).1,
      ⟨(Core.finish t.core chunk).2,
        t.reached ++ [.finish chunk (Core.finish t.core chunk).1.isOk]⟩)

theorem update_eq [Core κ χ ω] (t : Traced κ) (chunk : Bytes) :
    Core.update t chunk =
      ((Core.update t.core chunk).1,
        (⟨(Core.update t.core chunk).2,
          t.reached ++ [.update chunk (Core.update t.core chunk).1.isOk]⟩ : Traced κ)) := rfl

end Traced

/-- What calls do to a backend that is driven by hand: updates up to the first that fails, or else
up to one finish, or else up to a release. Gives what reached it and what became of it. -/
def drive {κ χ ω : Type} [Core κ χ ω] : List Call → κ → List Reached × κ
  | [], core => ([], core)
  | .update chunk :: rest, core =>
    match Core.update core chunk with
    | (.ok _, core) => (.update chunk true :: (drive rest core).1, (drive rest core).2)
    | (.error _, core) => ([.update chunk false], core)
  | .finish chunk :: _, core =>
    ([.finish chunk (Core.finish core chunk).1.isOk], (Core.finish core chunk).2)
  | .complete :: _, core => ([.finish [] (Core.finish core []).1.isOk], (Core.finish core []).2)
  | .close :: _, core => ([], core)

/-! ## The two components stay in step -/

namespace Function

variable {κ χ ω : Type} [Core κ χ ω]

/-- The three shapes of a function whose components are in step. -/
theorem Held.cases {f : Function κ} (h : Held f) :
    (∃ core, f = ⟨.opened, some core⟩) ∨ (∃ core, f = ⟨.finished, some core⟩)
      ∨ f = ⟨.closed, none⟩ := by
  obtain ⟨stage, core⟩ := f
  unfold Held at h
  cases core with
  | none =>
      cases stage with
      | opened => exact absurd (h.mpr (by simp)) (by simp)
      | finished => exact absurd (h.mpr (by simp)) (by simp)
      | closed => exact Or.inr (Or.inr rfl)
  | some core =>
      cases stage with
      | opened => exact Or.inl ⟨core, rfl⟩
      | finished => exact Or.inr (Or.inl ⟨core, rfl⟩)
      | closed => exact absurd rfl (h.mp rfl)

theorem held_start (core : κ) : Held (start core) := by
  simp [Held, start]

/-- What an update does to an open function is up to the backend alone. -/
theorem update_opened (core : κ) (chunk : Bytes) :
    (⟨.opened, some core⟩ : Function κ).update chunk =
      match Core.update core chunk with
      | (.ok out, core) => (.ok out, ⟨.opened, some core⟩)
      | (.error e, core) => (.error e, ⟨.finished, some core⟩) := rfl

theorem finish_opened (core : κ) (chunk : Bytes) :
    (⟨.opened, some core⟩ : Function κ).finish chunk =
      ((Core.finish core chunk).1, ⟨.finished, some (Core.finish core chunk).2⟩) := rfl

theorem held_update {f : Function κ} (h : Held f) (chunk : Bytes) : Held (f.update chunk).2 := by
  rcases h.cases with ⟨core, rfl⟩ | ⟨core, rfl⟩ | rfl
  · rw [update_opened]
    split <;> simp [Held]
  · exact h
  · exact h

theorem held_finish {f : Function κ} (h : Held f) (chunk : Bytes) : Held (f.finish chunk).2 := by
  rcases h.cases with ⟨core, rfl⟩ | ⟨core, rfl⟩ | rfl
  · rw [finish_opened]
    simp [Held]
  · exact h
  · exact h

/-- **Every call keeps the components in step.** -/
theorem held_call {f : Function κ} (h : Held f) (c : Call) : Held (f.call c).2 := by
  cases c with
  | update chunk => exact held_update h chunk
  | finish chunk => exact held_finish h chunk
  | complete => exact held_finish h []
  | close => simp [call, close, Held]

theorem callAll_cons (c : Call) (rest : List Call) (f : Function κ) :
    callAll (c :: rest) f =
      ((f.call c).1 :: (callAll rest (f.call c).2).1, (callAll rest (f.call c).2).2) := rfl

theorem callAll_append (before after : List Call) (f : Function κ) :
    callAll (before ++ after) f =
      ((callAll before f).1 ++ (callAll after (callAll before f).2).1,
        (callAll after (callAll before f).2).2) := by
  induction before generalizing f with
  | nil => rfl
  | cons c rest ih => rw [List.cons_append, callAll_cons, callAll_cons, ih]; rfl

theorem held_callAll {f : Function κ} (h : Held f) (calls : List Call) :
    Held (callAll calls f).2 := by
  induction calls generalizing f with
  | nil => exact h
  | cons c rest ih => exact ih (held_call h c)

/-- An open function always has its context at hand. -/
theorem Held.ready {f : Function κ} (h : Held f) (ho : f.stage = .opened) (name : String) :
    ∃ core, f.ready name = .ok core := by
  rcases h.cases with ⟨core, rfl⟩ | ⟨core, rfl⟩ | rfl
  · exact ⟨core, rfl⟩
  · simp at ho
  · simp at ho

/-! ## Which calls are refused, and where the others lead -/

/-- Unless it is open, a function answers every call but a release with a usage error. It is the
same function afterwards, so no backend was reached. -/
def RefusesUnlessOpen (f : Function κ) : Prop :=
  f.stage ≠ .opened →
    (∀ chunk, ∃ why, f.update chunk = (.error (.usage why), f))
      ∧ (∀ chunk, ∃ why, f.finish chunk = (.error (.usage why), f))
      ∧ ∃ why, f.complete = (.error (.usage why), f)

theorem ready_refused {f : Function κ} (ho : f.stage ≠ .opened) (name : String) :
    ∃ why, f.ready name = .error (.usage why) := by
  unfold ready
  split
  · rename_i h
    exact absurd h ho
  · exact ⟨_, rfl⟩
  · exact ⟨_, rfl⟩

theorem refusesUnlessOpen (f : Function κ) : RefusesUnlessOpen f := by
  intro ho
  have hfinish : ∀ chunk, ∃ why, f.finish chunk = (.error (.usage why), f) := by
    intro chunk
    obtain ⟨why, hr⟩ := ready_refused ho "finish"
    exact ⟨why, by rw [finish, hr]⟩
  refine ⟨?_, hfinish, hfinish []⟩
  intro chunk
  obtain ⟨why, hr⟩ := ready_refused ho "update"
  exact ⟨why, by rw [update, hr]⟩

/-- The stages that calls lead to. -/
structure MovesOn (f : Function κ) : Prop where
  /-- An update that succeeds leaves the function open. -/
  update_ok : f.stage = .opened → ∀ chunk out, (f.update chunk).1 = .ok out →
    (f.update chunk).2.stage = .opened
  /-- An update that fails finishes it. -/
  update_failed : f.stage = .opened → ∀ chunk e, (f.update chunk).1 = .error e →
    (f.update chunk).2.stage = .finished
  /-- So does every finish, whatever the backend says. -/
  finish : f.stage = .opened → ∀ chunk, (f.finish chunk).2.stage = .finished
  /-- And so does completing. -/
  complete : f.stage = .opened → f.complete.2.stage = .finished
  /-- A release closes it in any stage. -/
  close : f.close.2.stage = .closed
  /-- No call opens it again. -/
  never_reopens : f.stage ≠ .opened → ∀ c, (f.call c).2.stage ≠ .opened
  /-- No call leads out of the last stage. -/
  closed_absorbing : f.stage = .closed → ∀ c, (f.call c).2.stage = .closed

/-- A call that is not a release leaves a function that is not open as it is. -/
theorem call_of_not_opened {f : Function κ} (ho : f.stage ≠ .opened) (c : Call) :
    (f.call c).2 = f ∨ (f.call c).2 = ⟨.closed, none⟩ := by
  obtain ⟨hupdate, hfinish, hcomplete⟩ := refusesUnlessOpen f ho
  cases c with
  | update chunk =>
      obtain ⟨why, h⟩ := hupdate chunk
      exact Or.inl (by rw [call, h])
  | finish chunk =>
      obtain ⟨why, h⟩ := hfinish chunk
      exact Or.inl (by rw [call, h])
  | complete =>
      obtain ⟨why, h⟩ := hcomplete
      exact Or.inl (by rw [call, h])
  | close => exact Or.inr rfl

theorem Held.movesOn {f : Function κ} (h : Held f) : MovesOn f where
  update_ok := by
    intro ho chunk out hout
    -- of the three shapes of a function only the first is open
    rcases h.cases with ⟨core, rfl⟩ | ⟨core, rfl⟩ | rfl
    · rw [update_opened] at hout ⊢
      split at hout
      · rfl
      · simp at hout
    · simp at ho
    · simp at ho
  update_failed := by
    intro ho chunk e he
    rcases h.cases with ⟨core, rfl⟩ | ⟨core, rfl⟩ | rfl
    · rw [update_opened] at he ⊢
      split at he
      · simp at he
      · rfl
    · simp at ho
    · simp at ho
  finish := by
    intro ho chunk
    rcases h.cases with ⟨core, rfl⟩ | ⟨core, rfl⟩ | rfl
    · rfl
    · simp at ho
    · simp at ho
  complete := by
    intro ho
    rcases h.cases with ⟨core, rfl⟩ | ⟨core, rfl⟩ | rfl
    · rfl
    · simp at ho
    · simp at ho
  close := rfl
  never_reopens := by
    intro ho c
    rcases call_of_not_opened ho c with hc | hc
    · rw [hc]; exact ho
    · rw [hc]; simp
  closed_absorbing := by
    intro hcl c
    rcases call_of_not_opened (by rw [hcl]; simp) c with hc | hc
    · rw [hc]; exact hcl
    · rw [hc]

end Function

/-! ## What reaches the backend -/

section Drive

variable {κ χ ω : Type} [Core κ χ ω]

theorem orderly_nil : Orderly [] := ⟨[], [], rfl, Or.inl rfl⟩

theorem orderly_finish (chunk : Bytes) (ok : Bool) : Orderly [.finish chunk ok] :=
  ⟨[], [.finish chunk ok], rfl, Or.inr (Or.inr ⟨chunk, ok, rfl⟩)⟩

theorem Orderly.cons_update {trace : List Reached} (h : Orderly trace) (chunk : Bytes) :
    Orderly (.update chunk true :: trace) := by
  obtain ⟨chunks, tail, rfl, ht⟩ := h
  exact ⟨chunk :: chunks, tail, rfl, ht⟩

/-- **A backend that is driven sees updates that succeed, and then at most one call more.** -/
theorem drive_orderly (calls : List Call) (core : κ) : Orderly (drive calls core).1 := by
  induction calls generalizing core with
  | nil => exact orderly_nil
  | cons c rest ih =>
    cases c with
    | update chunk =>
        rw [drive]
        split
        · exact (ih _).cons_update chunk
        · exact ⟨[], _, rfl, Or.inr (Or.inl ⟨chunk, rfl⟩)⟩
    | finish chunk => exact orderly_finish chunk _
    | complete => exact orderly_finish [] _
    | close => exact orderly_nil

/-- Nothing is driven past a release. -/
theorem drive_append_close (calls rest : List Call) (core : κ) :
    drive (calls ++ .close :: rest) core = drive calls core := by
  induction calls generalizing core with
  | nil => rfl
  | cons c more ih =>
    cases c with
    | update chunk =>
        rw [List.cons_append, drive, drive]
        split
        · rw [ih]
        · rfl
    | finish chunk => rfl
    | complete => rfl
    | close => rfl

/-- The context after calls, with what reached it noted behind what is noted already. -/
def Traced.driven (calls : List Call) (t : Traced κ) : Traced κ :=
  ⟨(drive calls t.core).2, t.reached ++ (drive calls t.core).1⟩

theorem Traced.driven_update_ok {t : Traced κ} {chunk : Bytes} {out : χ} {core : κ}
    (h : Core.update t.core chunk = (.ok out, core)) (rest : List Call) :
    t.driven (.update chunk :: rest)
      = Traced.driven rest ⟨core, t.reached ++ [.update chunk true]⟩ := by
  simp [driven, drive, h]

theorem Traced.driven_update_error {t : Traced κ} {chunk : Bytes} {e : Error} {core : κ}
    (h : Core.update t.core chunk = (.error e, core)) (rest : List Call) :
    t.driven (.update chunk :: rest) = ⟨core, t.reached ++ [.update chunk false]⟩ := by
  simp [driven, drive, h]

theorem Traced.update_ok {t : Traced κ} {chunk : Bytes} {out : χ} {core : κ}
    (h : Core.update t.core chunk = (.ok out, core)) :
    Core.update t chunk = (.ok out, ⟨core, t.reached ++ [.update chunk true]⟩) := by
  rw [update_eq, h]
  rfl

theorem Traced.update_error {t : Traced κ} {chunk : Bytes} {e : Error} {core : κ}
    (h : Core.update t.core chunk = (.error e, core)) :
    Core.update t chunk = (.error e, ⟨core, t.reached ++ [.update chunk false]⟩) := by
  rw [update_eq, h]
  rfl

end Drive

/-! ## The one context is released once -/

namespace Function

variable {κ χ ω : Type} [Core κ χ ω]

/-- A closed function has nothing left to give. -/
theorem conserved_closed (calls : List Call) :
    released (callAll calls (⟨.closed, none⟩ : Function κ)).1 = []
      ∧ (callAll calls (⟨.closed, none⟩ : Function κ)).2 = ⟨.closed, none⟩ := by
  induction calls with
  | nil => exact ⟨rfl, rfl⟩
  | cons c rest ih =>
    rw [callAll_cons]
    cases c <;> exact ih

/-- A finished function gives its context as it is. -/
theorem conserved_finished (calls : List Call) (core : κ) :
    released (callAll calls (⟨.finished, some core⟩ : Function κ)).1
      ++ (callAll calls (⟨.finished, some core⟩ : Function κ)).2.core.toList = [core] := by
  induction calls with
  | nil => rfl
  | cons c rest ih =>
    rw [callAll_cons]
    cases c with
    | update chunk => exact ih
    | finish chunk => exact ih
    | complete => exact ih
    | close =>
        rw [released_cons]
        show [core] ++ released (callAll rest (⟨.closed, none⟩ : Function κ)).1
          ++ (callAll rest (⟨.closed, none⟩ : Function κ)).2.core.toList = [core]
        rw [(conserved_closed rest).1, (conserved_closed rest).2]
        rfl

/--
**The one context.** Released or still held, there is one, and its record is what
driving its backend by hand comes to.
-/
theorem conserved_opened (calls : List Call) (t : Traced κ) :
    released (callAll calls (⟨.opened, some t⟩ : Function (Traced κ))).1
      ++ (callAll calls (⟨.opened, some t⟩ : Function (Traced κ))).2.core.toList
      = [t.driven calls] := by
  induction calls generalizing t with
  | nil => simp [callAll, released, Traced.driven, drive]
  | cons c rest ih =>
    rw [callAll_cons]
    cases c with
    | update chunk =>
        rw [released_cons]
        simp only [call, update_opened]
        rcases h : Core.update t.core chunk with ⟨out | e, core⟩
        · rw [Traced.update_error h, Traced.driven_update_error h]
          -- a chunk that was refused is on the record, and nothing after it
          exact conserved_finished rest _
        · rw [Traced.update_ok h, Traced.driven_update_ok h]
          exact ih _
    | finish chunk => exact conserved_finished rest _
    | complete => exact conserved_finished rest _
    | close =>
        rw [released_cons]
        show [t] ++ released (callAll rest (⟨.closed, none⟩ : Function (Traced κ))).1
          ++ (callAll rest (⟨.closed, none⟩ : Function (Traced κ))).2.core.toList = _
        rw [(conserved_closed rest).1, (conserved_closed rest).2]
        simp [Traced.driven, drive]

/-- Without a release, nothing is given out. -/
theorem released_of_no_close (calls : List Call) (hc : Call.close ∉ calls) (f : Function κ) :
    released (callAll calls f).1 = [] := by
  induction calls generalizing f with
  | nil => rfl
  | cons c rest ih =>
    have hrest : Call.close ∉ rest := fun h => hc (List.mem_cons_of_mem c h)
    rw [callAll_cons, released_cons, ih hrest]
    cases c with
    | update chunk => rfl
    | finish chunk => rfl
    | complete => rfl
    | close => exact absurd List.mem_cons_self hc

/-- A life is its calls, those of its end, and releases from then on. -/
theorem life_eq (core : κ) (calls : List Call) (ending : Ending) :
    ∃ n, life core calls ending
      = (callAll (calls ++ ending.calls ++ .close :: List.replicate n .close) (start core)).1 := by
  cases ending with
  | close => exact ⟨1, by simp [life, endBy, callAll_append, Ending.calls, callAll, call]⟩
  | drop => exact ⟨0, by simp [life, endBy, callAll_append, Ending.calls, callAll, call]⟩
  | run block =>
      exact ⟨1, by simp [life, endBy, run, callAll_append, Ending.calls, callAll, call]⟩

/-- **Released exactly once.** What is released in a whole life is the one context, with the record
of just the calls that drive its backend. -/
theorem released_life (core : κ) (calls : List Call) (ending : Ending) :
    released (life (Traced.untouched core) calls ending)
      = [⟨(drive (calls ++ ending.calls) core).2, (drive (calls ++ ending.calls) core).1⟩] := by
  obtain ⟨n, hlife⟩ := life_eq (Traced.untouched core) calls ending
  have hone := conserved_opened (calls ++ ending.calls ++ .close :: List.replicate n .close)
    (Traced.untouched core)
  -- the release at the end leaves nothing that is still held
  have hgone : (callAll (calls ++ ending.calls ++ .close :: List.replicate n .close)
      (start (Traced.untouched core))).2.core = none := by
    rw [callAll_append]
    exact congrArg Function.core (conserved_closed (List.replicate n .close)).2
  rw [hlife]
  rw [start] at hgone ⊢
  rw [hgone, Option.toList_none, List.append_nil, Traced.driven, drive_append_close] at hone
  exact hone

/-! ## Callers do not see the record -/

/-- The function over the backend below. -/
def untraced (f : Function (Traced κ)) : Function κ := ⟨f.stage, f.core.map (·.core)⟩

end Function

/-- The answer with the context below in the place of one with a record. -/
def Answer.untraced {κ χ ω : Type} : Answer (Traced κ) χ ω → Answer κ χ ω
  | .chunk r => .chunk r
  | .result r => .result r
  | .released core => .released (core.map (·.core))

namespace Function

variable {κ χ ω : Type} [Core κ χ ω]

theorem ready_untraced (f : Function (Traced κ)) (name : String) :
    f.untraced.ready name = (f.ready name).map (·.core) := by
  obtain ⟨stage, core⟩ := f
  cases stage with
  | opened => cases core <;> rfl
  | finished => rfl
  | closed => rfl

theorem update_untraced (f : Function (Traced κ)) (chunk : Bytes) :
    f.untraced.update chunk = ((f.update chunk).1, (f.update chunk).2.untraced) := by
  unfold update
  rw [ready_untraced]
  cases hr : f.ready "update" with
  | error e => rfl
  | ok t =>
      simp only [Except.map, Traced.update_eq]
      rcases Core.update t.core chunk with ⟨e | out, core⟩ <;> rfl

theorem finish_untraced (f : Function (Traced κ)) (chunk : Bytes) :
    f.untraced.finish chunk = ((f.finish chunk).1, (f.finish chunk).2.untraced) := by
  unfold finish
  rw [ready_untraced]
  cases hr : f.ready "finish" with
  | error e => rfl
  | ok t => rfl

theorem call_untraced (f : Function (Traced κ)) (c : Call) :
    f.untraced.call c = ((f.call c).1.untraced, (f.call c).2.untraced) := by
  cases c with
  | update chunk => rw [call, call, update_untraced]; rfl
  | finish chunk => rw [call, call, finish_untraced]; rfl
  | complete => rw [call, call, complete, complete, finish_untraced]; rfl
  | close => rfl

theorem callAll_untraced (calls : List Call) (f : Function (Traced κ)) :
    callAll calls f.untraced
      = ((callAll calls f).1.map Answer.untraced, (callAll calls f).2.untraced) := by
  induction calls generalizing f with
  | nil => rfl
  | cons c rest ih => rw [callAll_cons, callAll_cons, call_untraced, ih]; rfl

/-- **The record changes nothing.** A life over a backend that keeps a record gives what the same
life gives over the backend below. -/
theorem life_untraced (core : κ) (calls : List Call) (ending : Ending) :
    (life (Traced.untouched core) calls ending).map Answer.untraced = life core calls ending := by
  have hbefore := callAll_untraced calls (start (Traced.untouched core))
  rw [show (start (Traced.untouched core)).untraced = start core from rfl] at hbefore
  unfold life
  rw [hbefore]
  cases ending with
  | close => simp [endBy, close, Answer.untraced, untraced]
  | drop => simp [endBy, close, Answer.untraced, untraced]
  | run block =>
      simp only [endBy, run, callAll_untraced]
      simp [close, Answer.untraced, untraced]

/-! ## The whole life -/

/--
**The life of a streaming function.** For every backend, every sequence of calls
and every end:

* after the calls the components are in step, and an open function has its
  context at hand;
* a function that is not open refuses what would reach the backend, and stays as
  it is;
* the stages only move on;
* the one context is released once, after a record of updates that succeed and
  at most one call more, and never without a release;
* a run gives what its block gave, and the record that says all this changes
  nothing for callers.
-/
theorem streaming_lifecycle (core : κ) (calls : List Call) (ending : Ending) :
    let f := (callAll calls (start (Traced.untouched core))).2
    let answers := life (Traced.untouched core) calls ending
    let trace := (drive (calls ++ ending.calls) core).1
    (Held f ∧ ∀ name, f.stage = .opened → ∃ t, f.ready name = .ok t)
      ∧ RefusesUnlessOpen f
      ∧ MovesOn f
      ∧ Orderly trace
      ∧ released answers = [⟨(drive (calls ++ ending.calls) core).2, trace⟩]
      ∧ (Call.close ∉ calls → released (callAll calls (start (Traced.untouched core))).1 = [])
      ∧ (∀ (α : Type) (block : Function (Traced κ) → α × Function (Traced κ)),
          (f.run block).1 = (block f).1)
      ∧ answers.map Answer.untraced = life core calls ending := by
  have hheld := held_callAll (held_start (Traced.untouched core)) calls
  refine ⟨⟨hheld, fun name ho => hheld.ready ho name⟩, refusesUnlessOpen _, hheld.movesOn,
    drive_orderly _ core, released_life core calls ending, ?_, fun _ _ => rfl,
    life_untraced core calls ending⟩
  exact fun hc => released_of_no_close calls hc _

end Function

end PooledCrypto.Streaming
