import Mathlib.Data.List.Forall2
import PooledCrypto.Proofs.Continuity
import PooledCrypto.Proofs.PoolsByName

/-!
# Failing without a trace

A factory that fails has been called, and that is all that a pool remembers of it: no handle was
made and none was taken. `Directory.Undisturbed` compares two directories up to such calls. The
pools are the same, in the same places, of the same types, and with the same idle handles.

`Action.Spares` says of a property that an action which fails leaves it alone. What such an action
does when it succeeds is left open, so the check that may fail has to come before what is done.
-/

namespace PooledCrypto.Pool

variable {α τ : Type} {carrier : τ → Type}

/-- The pool after so many calls of its factory that gave nothing. -/
def askedInVain (p : Pool α) (calls : Nat) : Pool α := { p with attempts := p.attempts + calls }

/-- The entry is the same but for calls of its factory that gave nothing. -/
def Entry.Undisturbed (e e' : Entry τ carrier) : Prop :=
  ∃ calls, e' = { e with pool := e.pool.askedInVain calls }

/-- So is every entry, and there are no others. -/
structure Directory.Undisturbed (d d' : Directory τ carrier) : Prop where
  capacity : d'.capacity = d.capacity
  entries : List.Forall₂ Entry.Undisturbed d.entries d'.entries

/-- A checkout that fails has called the factory and done nothing else. -/
theorem checkout_error {p p' : Pool α} {e : Error} (h : p.checkout = (.error e, p')) :
    p' = p.askedInVain 1 := by
  rcases checkout_cases p with ⟨handle, rest, _, hout⟩ | ⟨_, v, _, hout⟩ | ⟨_, e', _, hout⟩
  · rw [hout] at h
    exact absurd (congrArg Prod.fst h) (by simp)
  · rw [hout] at h
    exact absurd (congrArg Prod.fst h) (by simp)
  · rw [hout] at h
    exact (congrArg Prod.snd h).symm

theorem Entry.undisturbed_refl (e : Entry τ carrier) : e.Undisturbed e := ⟨0, rfl⟩

namespace Directory

variable {d d' : Directory τ carrier} {name : String} {t : τ}

theorem undisturbed_refl (d : Directory τ carrier) : d.Undisturbed d where
  capacity := rfl
  entries := List.forall₂_same.mpr fun e _ => e.undisturbed_refl

variable [DecidableEq τ]

/-- A pool whose factory was called in vain goes back to its place. -/
theorem undisturbed_replace {p : Pool (carrier t)} (honce : d.names.Nodup)
    (hp : d.pool? name t = some p) (calls : Nat) :
    d.Undisturbed (d.replace name t (p.askedInVain calls)) := by
  unfold pool? at hp
  obtain ⟨own, hown, hp⟩ := Option.bind_eq_some_iff.mp hp
  refine ⟨rfl, ?_⟩
  rw [replace, List.forall₂_map_right_iff, List.forall₂_same]
  intro e he
  split
  · -- a name has one entry, so this is the one that was found
    rename_i hsame
    obtain rfl : e = own := entry_unique honce he (List.mem_of_find?_eq_some hown)
      (hsame.1.trans (name_of_find? hown).symm)
    obtain ⟨_, rfl⟩ := hsame
    obtain rfl : e.pool = p := by simpa [Entry.pool?] using hp
    exact ⟨calls, rfl⟩
  · exact e.undisturbed_refl

/-- Asking for a pool makes it, or else leaves the directory as it is. -/
theorem getOrCreate_error {size : Nat} {factory : Nat → Except Error (carrier t)} {f : Failure}
    (h : (d.getOrCreate name t size factory).1 = .error f) :
    (d.getOrCreate name t size factory).2 = d := by
  cases hf : d.find? name with
  | some e => rw [getOrCreate_found hf]
  | none =>
      by_cases room : d.capacity * size ≤ Room.most
      · rw [getOrCreate_new hf room] at h
        exact absurd h (by simp)
      · rw [getOrCreate_short hf room]

/-- Nor does a pool of one type show under another. -/
theorem pool?_replace_type {other : String} {u : τ} {p : Pool (carrier t)} (h : u ≠ t) :
    (d.replace name t p).pool? other u = d.pool? other u := by
  unfold pool?
  rw [find?_replace]
  cases hf : d.find? other with
  | none => rfl
  | some e =>
      by_cases he : e.name = name ∧ e.type = t
      · simp [he, Entry.pool?, h.symm]
      · simp [he]

/-- A name keeps its one pool. -/
theorem nodup_getOrCreate {size : Nat} {factory : Nat → Except Error (carrier t)}
    (honce : d.names.Nodup) : (d.getOrCreate name t size factory).2.names.Nodup := by
  rcases getOrCreate_cases d name t size factory with hsame | ⟨hnone, hadded⟩
  · rw [hsame]
    exact honce
  · have hnames : (d.getOrCreate name t size factory).2.names = d.names ++ [name] := by
      rw [hadded]
      simp [names]
    rw [hnames]
    exact List.nodup_append_comm.mp
      (List.nodup_cons.mpr ⟨find?_eq_none_iff.mp hnone, honce⟩)

end Directory
end PooledCrypto.Pool

namespace PooledCrypto.Action

variable {σ α β : Type} {P : σ → Prop} {a : Action σ α} {f : α → Action σ β}

/-- The property survives the action if that fails. -/
def Spares (P : σ → Prop) (a : Action σ α) : Prop :=
  ∀ s s' e, P s → a s = (.error e, s') → P s'

/-- The action does not fail. -/
def Sure (a : Action σ α) : Prop := ∀ s, ∃ x s', a s = (.ok x, s')

theorem sure_pure (x : α) : Sure (pure x : Action σ α) := fun s => ⟨x, s, rfl⟩

theorem Sure.bind (ha : Sure a) (hf : ∀ x, Sure (f x)) : Sure (a >>= f) := by
  intro s
  obtain ⟨x, s', hx⟩ := ha s
  obtain ⟨y, s'', hy⟩ := hf x s'
  exact ⟨y, s'', (bind_of_ok hx).trans hy⟩

theorem Keeps.spares (ha : Keeps P a) : Spares P a := by
  intro s s' e hs hout
  have hkept := ha s hs
  rwa [hout] at hkept

theorem Sure.spares (ha : Sure a) : Spares P a := by
  intro s s' e _ hout
  obtain ⟨x, s'', hx⟩ := ha s
  rw [hx] at hout
  exact absurd (congrArg Prod.fst hout) (by simp)

/-- What comes first keeps the property in any case, and what comes then if it fails. -/
theorem Keeps.spares_bind (ha : Keeps P a) (hf : ∀ x, Spares P (f x)) : Spares P (a >>= f) := by
  intro s s' e hs hout
  have hkept := ha s hs
  rcases hmid : a s with ⟨e' | x, s''⟩
  · rw [hmid] at hkept
    rw [bind_of_error hmid] at hout
    obtain rfl : s'' = s' := congrArg Prod.snd hout
    exact hkept
  · rw [hmid] at hkept
    rw [bind_of_ok hmid] at hout
    exact hf x s'' s' e hkept hout

/-- What comes first keeps the property if it fails, and nothing fails afterwards. -/
theorem Spares.bind_sure (ha : Spares P a) (hf : ∀ x, Sure (f x)) : Spares P (a >>= f) := by
  intro s s' e hs hout
  rcases hmid : a s with ⟨e' | x, s''⟩
  · rw [bind_of_error hmid] at hout
    obtain rfl : s'' = s' := congrArg Prod.snd hout
    exact ha s s'' e' hs hmid
  · rw [bind_of_ok hmid] at hout
    obtain ⟨y, last, hy⟩ := hf x s''
    rw [hy] at hout
    exact absurd (congrArg Prod.fst hout) (by simp)

/-- A factory fails before it has done anything, or as its construction fails. -/
theorem spares_make {π ο : Type} [Parameters π] {f : Factory σ π ο}
    (hf : ∀ p, Spares P (f.construct p)) (route : Factory.Route) (changes : π → π) :
    Spares P (f.make route changes) := by
  rcases Factory.make_cases f route changes with ⟨p, hp⟩ | ⟨e, he⟩
  · rw [hp]
    exact hf p
  · rw [he]
    exact (keeps_fail e).spares

end PooledCrypto.Action

namespace PooledCrypto.Provider

open PooledCrypto.Action (Keeps Spares Sure)

variable {κ : Type} {st st' : State} {source : Source} {d : Pools}

theorem durable_pools (d : Pools) : Durable fun st => st.pools = d where
  draw _ _ h := h
  openMacPool kind key st h := by
    unfold openMacPool
    dsimp only
    split
    · exact h
    · exact h

theorem sure_operation (core : κ) : Sure (Operation.make core) := fun st => ⟨_, st, rfl⟩

theorem spares_openDigestPool (kind : Digest.Kind) :
    Spares (fun st : State => st.pools = d) (openDigestPool kind) := by
  intro st st' f h hout
  obtain ⟨hresult, rfl⟩ := Prod.mk.inj hout
  exact (Pool.Directory.getOrCreate_error hresult).trans h

/-- Keys on a curve go by a digest, which is checked before its pool is opened. -/
theorem spares_openSha2 (algorithm digest : String) (core : Digest.Kind → κ) :
    Spares (fun st : State => st.pools = d) (do
      let kind ← Action.ofExcept (requireSha2 algorithm digest)
      openDigestPool kind
      Operation.make (core kind)) :=
  (Action.keeps_ofExcept _).spares_bind fun kind =>
    (spares_openDigestPool kind).bind_sure fun _ => sure_operation _

/-- Nothing to borrow: a factory was called in vain, or there was none to call. -/
theorem undisturbed_borrow {f : Failure} (honce : st.pools.names.Nodup)
    (h : borrow source st = (.error f, st')) : st.pools.Undisturbed st'.pools := by
  obtain rfl : (checkout source st).2 = st' := by
    rw [← snd_borrow, h]
  have herror : ∃ e, (checkout source st).1 = .error e := by
    rcases hc : checkout source st with ⟨e | loan, mid⟩
    · exact ⟨e, rfl⟩
    · rw [borrow, Action.bind_of_ok hc] at h
      exact absurd (congrArg Prod.fst h) (by simp [Action.pure_apply])
  obtain ⟨e, he⟩ := herror
  cases source with
  | digest kind =>
      cases hpool : st.pools.pool? kind.name .digest with
      | none =>
          rw [checkout_digest_none hpool]
          exact Pool.Directory.undisturbed_refl _
      | some pool =>
          rw [checkout_digest hpool] at he ⊢
          rcases hout : pool.checkout with ⟨e' | handle, new⟩
          · obtain rfl := Pool.checkout_error hout
            -- the factory was asked once more and failed, which only the count of attempts shows
            exact Pool.Directory.undisturbed_replace honce hpool 1
          · rw [hout] at he
            exact absurd he (by simp [Except.map])
  | mac number =>
      cases hpool : st.macPools[number]? with
      | none =>
          rw [checkout_mac_none hpool]
          exact Pool.Directory.undisturbed_refl _
      | some pool =>
          rw [checkout_mac hpool]
          exact Pool.Directory.undisturbed_refl _

end PooledCrypto.Provider
