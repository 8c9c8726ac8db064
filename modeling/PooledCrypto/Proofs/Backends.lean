import Mathlib.Data.List.Forall2
import PooledCrypto.Proofs.Lifecycle

/-!
# Backends that answer alike

A backend can be replaced by another one, such as one that keeps books on itself. If the two answer
each call alike, and what relates them survives the call, then no caller can tell them apart in the
whole life of a function, and what was related in the beginning still is when it is released. One
step is `Function.Related.call`; a life is `life_related`.
-/

namespace PooledCrypto.Streaming

variable {κ κ' χ ω : Type} {R : κ → κ' → Prop}

/-- Related contexts answer alike, and are related afterwards. -/
structure Simulates [Core κ χ ω] [Core κ' χ ω] (R : κ → κ' → Prop) : Prop where
  update : ∀ a b chunk, R a b → (Core.update a chunk).1 = (Core.update b chunk).1
    ∧ R (Core.update a chunk).2 (Core.update b chunk).2
  finish : ∀ a b chunk, R a b → (Core.finish a chunk).1 = (Core.finish b chunk).1
    ∧ R (Core.finish a chunk).2 (Core.finish b chunk).2

/-- The answers are the same, but for contexts that are only related. -/
inductive Answer.Matches (R : κ → κ' → Prop) : Answer κ χ ω → Answer κ' χ ω → Prop
  | chunk (r : Except Error χ) : Matches R (.chunk r) (.chunk r)
  | result (r : Except Error ω) : Matches R (.result r) (.result r)
  | released {core : Option κ} {core' : Option κ'} :
      Option.Rel R core core' → Matches R (.released core) (.released core')

namespace Function

/-- The functions are at the same stage and hold related contexts. -/
structure Related (R : κ → κ' → Prop) (f : Function κ) (g : Function κ') : Prop where
  stage : f.stage = g.stage
  core : Option.Rel R f.core g.core

variable [Core κ χ ω] [Core κ' χ ω] {f : Function κ} {g : Function κ'}

omit [Core κ χ ω] [Core κ' χ ω] in
/-- They are ready for the same calls, and refuse all others for the same reason. -/
theorem Related.ready (h : Related R f g) (name : String) :
    (∃ e, f.ready name = .error e ∧ g.ready name = .error e)
      ∨ ∃ a b, f.ready name = .ok a ∧ g.ready name = .ok b ∧ R a b := by
  obtain ⟨stage, core⟩ := f
  obtain ⟨stage', core'⟩ := g
  obtain ⟨rfl, hcore⟩ := h
  cases stage with
  | opened =>
      cases hcore with
      | none => exact Or.inl ⟨_, rfl, rfl⟩
      | some hab => exact Or.inr ⟨_, _, rfl, rfl, hab⟩
  | finished => exact Or.inl ⟨_, rfl, rfl⟩
  | closed => exact Or.inl ⟨_, rfl, rfl⟩

theorem Related.update (hR : Simulates R) (h : Related R f g) (chunk : Bytes) :
    (f.update chunk).1 = (g.update chunk).1
      ∧ Related R (f.update chunk).2 (g.update chunk).2 := by
  rcases h.ready "update" with ⟨e, hf, hg⟩ | ⟨a, b, hf, hg, hab⟩
  · unfold Function.update
    rw [hf, hg]
    exact ⟨rfl, h⟩
  · obtain ⟨hout, hafter⟩ := hR.update a b chunk hab
    unfold Function.update
    rw [hf, hg]
    dsimp only
    -- the answers are equal, so either both contexts refuse the chunk or both take it
    rcases ha : Core.update a chunk with ⟨e | out, a'⟩
    all_goals
      rcases hb : Core.update b chunk with ⟨e' | out', b'⟩
      all_goals
        rw [ha, hb] at hout hafter
        simp only [reduceCtorEq, Except.error.injEq, Except.ok.injEq] at hout
    · exact ⟨congrArg _ hout, rfl, .some hafter⟩
    · exact ⟨congrArg _ hout, rfl, .some hafter⟩

theorem Related.finish (hR : Simulates R) (h : Related R f g) (chunk : Bytes) :
    (f.finish chunk).1 = (g.finish chunk).1
      ∧ Related R (f.finish chunk).2 (g.finish chunk).2 := by
  rcases h.ready "finish" with ⟨e, hf, hg⟩ | ⟨a, b, hf, hg, hab⟩
  · unfold Function.finish
    rw [hf, hg]
    exact ⟨rfl, h⟩
  · obtain ⟨hout, hafter⟩ := hR.finish a b chunk hab
    unfold Function.finish
    rw [hf, hg]
    exact ⟨hout, rfl, .some hafter⟩

omit [Core κ χ ω] [Core κ' χ ω] in
theorem related_closed : Related R (⟨.closed, none⟩ : Function κ) ⟨.closed, none⟩ :=
  ⟨rfl, .none⟩

/-- **One call.** -/
theorem Related.call (hR : Simulates R) (h : Related R f g) (c : Call) :
    (f.call c).1.Matches R (g.call c).1 ∧ Related R (f.call c).2 (g.call c).2 := by
  cases c with
  | update chunk =>
      obtain ⟨hout, hafter⟩ := h.update hR chunk
      refine ⟨?_, hafter⟩
      rw [Function.call, Function.call, hout]
      exact .chunk _
  | finish chunk =>
      obtain ⟨hout, hafter⟩ := h.finish hR chunk
      refine ⟨?_, hafter⟩
      rw [Function.call, Function.call, hout]
      exact .result _
  | complete =>
      obtain ⟨hout, hafter⟩ := h.finish hR []
      refine ⟨?_, hafter⟩
      rw [Function.call, Function.call, Function.complete, Function.complete, hout]
      exact .result _
  | close => exact ⟨.released h.core, related_closed⟩

/-- Any calls. -/
theorem Related.callAll (hR : Simulates R) (calls : List Call) {f : Function κ} {g : Function κ'}
    (h : Related R f g) :
    List.Forall₂ (Answer.Matches R) (Function.callAll calls f).1 (Function.callAll calls g).1
      ∧ Related R (Function.callAll calls f).2 (Function.callAll calls g).2 := by
  induction calls generalizing f g with
  | nil => exact ⟨.nil, h⟩
  | cons c rest ih =>
      obtain ⟨hanswer, hmid⟩ := h.call hR c
      obtain ⟨hanswers, hafter⟩ := ih hmid
      rw [callAll_cons, callAll_cons]
      exact ⟨.cons hanswer hanswers, hafter⟩

/-- **A whole life.** -/
theorem life_related (hR : Simulates R) {a : κ} {b : κ'} (hab : R a b) (calls : List Call)
    (ending : Ending) :
    List.Forall₂ (Answer.Matches R) (life (χ := χ) (ω := ω) a calls ending)
      (life b calls ending) := by
  have hstart : Related R (start a) (start b) := ⟨rfl, .some hab⟩
  obtain ⟨hbefore, hmid⟩ := hstart.callAll hR calls
  -- each ending closes some function, if only one that has been closed before
  have hclosed : ∀ {f : Function κ} {g : Function κ'}, Related R f g →
      List.Forall₂ (Answer.Matches (χ := χ) (ω := ω) R) [.released f.close.1]
        [.released g.close.1] := fun h => .cons (.released h.core) .nil
  unfold life
  cases ending with
  | close =>
      refine List.rel_append (List.rel_append hbefore (hclosed hmid)) ?_
      exact hclosed related_closed
  | drop => exact List.rel_append (List.rel_append hbefore .nil) (hclosed hmid)
  | run block =>
      obtain ⟨hblock, hlast⟩ := hmid.callAll hR block
      refine List.rel_append (List.rel_append hbefore ?_) ?_
      · exact List.rel_append hblock (hclosed hlast)
      · exact hclosed related_closed

end Function
end PooledCrypto.Streaming
