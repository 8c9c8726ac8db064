import PooledCrypto.Parameters.Factory

/-!
# Actions one after the other

An action is taken apart from its front: either the first part gives a value and the rest goes on
from there, or its failure is that of the whole. Asking a factory comes to the same on every route:
it constructs an operation with some parameters, or fails before it has done anything.

`Keeps` is for properties of the state that survive an action however it ends. What is put together
of actions that keep a property keeps it too.
-/

namespace PooledCrypto.Action

variable {σ α β : Type} {a : Action σ α} {f : α → Action σ β} {s s' : σ}

@[simp] theorem mapError_ok (x : α) :
    (Except.ok x : Except Error α).mapError Failure.error = .ok x := rfl

@[simp] theorem mapError_error (e : Error) :
    (Except.error e : Except Error α).mapError Failure.error = .error (.error e) := rfl

theorem bind_of_ok {x : α} (h : a s = (.ok x, s')) : (a >>= f) s = f x s' := by
  show (match a s with
    | (x, s') => ExceptT.bindCont f x s') = f x s'
  rw [h]
  rfl

theorem bind_of_error {e : Failure} (h : a s = (.error e, s')) : (a >>= f) s = (.error e, s') := by
  show (match a s with
    | (x, s') => ExceptT.bindCont f x s') = (.error e, s')
  rw [h]
  rfl

/-- An action that gives a value has had one from its first part. -/
theorem bind_eq_ok {y : β} {s'' : σ} (h : (a >>= f) s = (.ok y, s'')) :
    ∃ x s', a s = (.ok x, s') ∧ f x s' = (.ok y, s'') := by
  rcases ha : a s with ⟨e | x, s'⟩
  · rw [bind_of_error ha] at h
    exact absurd (congrArg Prod.fst h) (by simp)
  · rw [bind_of_ok ha] at h
    exact ⟨x, s', rfl, h⟩

/-- What two actions after each other come to. -/
theorem fst_bind (a : Action σ α) (f : α → Action σ β) (s : σ) :
    ((a >>= f) s).1 = (a s).1.bind fun x => (f x (a s).2).1 := by
  rcases h : a s with ⟨e | x, s'⟩
  · rw [bind_of_error h]
    rfl
  · rw [bind_of_ok h]
    rfl

theorem pure_apply (x : α) (s : σ) : (pure x : Action σ α) s = (.ok x, s) := rfl

/-- A result that does not touch the state. -/
theorem ofExcept_apply (r : Except Error α) (s : σ) :
    ofExcept r s = (r.mapError Failure.error, s) := by
  cases r <;> rfl

theorem ofExcept_eq_ok {r : Except Error α} {x : α} (h : ofExcept r s = (.ok x, s')) :
    r = .ok x ∧ s = s' := by
  rw [ofExcept_apply] at h
  cases r with
  | error e => exact absurd (congrArg Prod.fst h) (by simp)
  | ok y =>
      obtain ⟨hx, rfl⟩ := Prod.mk.inj h
      exact ⟨congrArg Except.ok (Except.ok.inj hx), rfl⟩

/-! ## What an action leaves as it was -/

/-- The property survives the action, whether that gives a value or fails. -/
def Keeps (P : σ → Prop) (a : Action σ α) : Prop := ∀ s, P s → P (a s).2

variable {P : σ → Prop}

theorem keeps_pure (x : α) : Keeps P (pure x : Action σ α) := fun _ hs => hs

theorem keeps_fail (e : Error) : Keeps P (fail e : Action σ α) := fun _ hs => hs

theorem keeps_ofExcept (r : Except Error α) : Keeps P (ofExcept r) := by
  intro s hs
  rw [ofExcept_apply]
  exact hs

theorem Keeps.bind (ha : Keeps P a) (hf : ∀ x, Keeps P (f x)) : Keeps P (a >>= f) := by
  intro s hs
  have hmid := ha s hs
  rcases hout : a s with ⟨e | x, s'⟩
  · rw [bind_of_error hout]
    rw [hout] at hmid
    exact hmid
  · rw [bind_of_ok hout]
    rw [hout] at hmid
    exact hf x s' hmid

end PooledCrypto.Action

namespace PooledCrypto.Factory

variable {σ π ο : Type} [Parameters π]

/-- Whatever the route, a factory constructs with some parameters or refuses the changes. -/
theorem make_cases (f : Factory σ π ο) (route : Route) (changes : π → π) :
    (∃ p, f.make route changes = f.construct p) ∨ ∃ e, f.make route changes = Action.fail e := by
  by_cases hr : route = .create
  · subst hr
    exact Or.inl ⟨f.defaults, rfl⟩
  · rw [make_eq_configure f route changes hr, configure]
    cases hc : f.changed changes with
    | ok p => exact Or.inl ⟨p, rfl⟩
    | error e => exact Or.inr ⟨e, rfl⟩

/-- On every route that heeds changes, it is constructed with what the check makes of them. -/
theorem make_of_changed {f : Factory σ π ο} {route : Route} {changes : π → π} {p : π}
    (heeds : route ≠ .create) (h : f.changed changes = .ok p) :
    f.make route changes = f.construct p := by
  rw [make_eq_configure f route changes heeds, configure, h]

theorem make_of_refused {f : Factory σ π ο} {route : Route} {changes : π → π} {e : Error}
    (heeds : route ≠ .create) (h : f.changed changes = .error e) :
    f.make route changes = Action.fail e := by
  rw [make_eq_configure f route changes heeds, configure, h]

theorem make_eq_ok {f : Factory σ π ο} {route : Route} {changes : π → π} {s s' : σ} {o : ο}
    (h : f.make route changes s = (.ok o, s')) : ∃ p, f.construct p s = (.ok o, s') := by
  rcases make_cases f route changes with ⟨p, hp⟩ | ⟨e, he⟩
  · exact ⟨p, by rw [← hp]; exact h⟩
  · rw [he] at h
    exact absurd (congrArg Prod.fst h) (by simp [Action.fail])

/-- An operation that is asked for in any way keeps what its construction keeps. -/
theorem keeps_make {P : σ → Prop} {f : Factory σ π ο} (hf : ∀ p, Action.Keeps P (f.construct p))
    (route : Route) (changes : π → π) : Action.Keeps P (f.make route changes) := by
  rcases make_cases f route changes with ⟨p, hp⟩ | ⟨e, he⟩
  · rw [hp]
    exact hf p
  · rw [he]
    exact Action.keeps_fail e

end PooledCrypto.Factory
