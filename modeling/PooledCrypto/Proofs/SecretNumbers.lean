import Mathlib.Data.Finset.Card
import Mathlib.Logic.Function.Iterate
import PooledCrypto.Curve.P256.Ecdsa

/-!
# Secret numbers

The generator of secret numbers is asked until a number is in range. Nobody can say how often that
will be, and still the search has an end: a generator is told by 64 bytes, so there are only so many,
and from the first one that comes up again everything repeats (`exists_iterate_eq`). A number that
did not come up among so many never does. So what is drawn is the first number in range of all that
the generator would ever give (`derive?_eq_some_iff`).
-/

namespace PooledCrypto.Curve.P256.Nonce

variable {α : Type} {f : α → α} {x : α} {code : α → Nat} {N : Nat}

/-- Where there are `N` codes, something comes again within `N` steps. -/
theorem exists_lt_iterate_eq (below : ∀ n, code (f^[n] x) < N)
    (apart : ∀ m n, code (f^[m] x) = code (f^[n] x) → f^[m] x = f^[n] x) :
    ∃ i j, i < j ∧ j ≤ N ∧ f^[i] x = f^[j] x := by
  have hmaps : ∀ n ∈ Finset.range (N + 1), code (f^[n] x) ∈ Finset.range N :=
    fun n _ => Finset.mem_range.mpr (below n)
  have hcard : (Finset.range N).card < (Finset.range (N + 1)).card := by
    simp only [Finset.card_range]
    omega
  obtain ⟨i, hi, j, hj, hne, hcode⟩ := Finset.exists_ne_map_eq_of_card_lt_of_maps_to hcard hmaps
  rw [Finset.mem_range] at hi hj
  rcases Nat.lt_or_gt_of_ne hne with hlt | hgt
  · exact ⟨i, j, hlt, Nat.le_of_lt_succ hj, apart i j hcode⟩
  · exact ⟨j, i, hgt, Nat.le_of_lt_succ hi, apart j i hcode.symm⟩

/-- So whatever is reached by iterating is reached in less than `N` steps. -/
theorem exists_iterate_eq (below : ∀ n, code (f^[n] x) < N)
    (apart : ∀ m n, code (f^[m] x) = code (f^[n] x) → f^[m] x = f^[n] x) (n : Nat) :
    ∃ m < N, f^[n] x = f^[m] x := by
  obtain ⟨i, j, hij, hj, hsame⟩ := exists_lt_iterate_eq below apart
  induction n using Nat.strong_induction_on with
  | _ n ih =>
      by_cases hn : n < N
      · exact ⟨n, hn, rfl⟩
      · -- from the second time on it goes as it went from the first
        have hback : f^[n] x = f^[n - j + i] x := by
          calc f^[n] x = f^[n - j + j] x := by rw [Nat.sub_add_cancel (by omega)]
            _ = f^[n - j] (f^[i] x) := by rw [Function.iterate_add_apply, hsame]
            _ = f^[n - j + i] x := (Function.iterate_add_apply f _ _ x).symm
        obtain ⟨m, hm, hreached⟩ := ih (n - j + i) (by omega)
        exact ⟨m, hm, hback.trans hreached⟩

namespace Generator

variable {g g' : Generator} {k : PrivateKey} {n : Nat}

/-- Both parts are as long as codes. -/
structure Sized (g : Generator) : Prop where
  key : g.key.length = 32
  value : g.value.length = 32

theorem sized_stir (g : Generator) (data : Bytes) : (g.stir data).Sized :=
  ⟨Digest.Kind.length_digest .sha256 _, Digest.Kind.length_digest .sha256 _⟩

theorem Sized.iterate (h : g.Sized) (n : Nat) : (retry^[n] g).Sized := by
  cases n with
  | zero => exact h
  | succ n =>
      rw [Function.iterate_succ_apply']
      exact sized_stir _ _

/-- The bytes of a generator as one number. -/
def index (g : Generator) : Nat := Bytes.toNatBE (g.key ++ g.value)

theorem Sized.index_lt (h : g.Sized) : g.index < generators := by
  have hlt := Bytes.toNatBE_lt (g.key ++ g.value)
  rw [List.length_append, h.key, h.value] at hlt
  exact hlt

theorem Sized.index_inj (h : g.Sized) (h' : g'.Sized) (heq : g.index = g'.index) : g = g' := by
  have hbytes : g.key ++ g.value = g'.key ++ g'.value := by
    rw [← Bytes.ofNatBE_toNatBE (g.key ++ g.value), ← Bytes.ofNatBE_toNatBE (g'.key ++ g'.value)]
    simp only [index] at heq
    rw [heq, List.length_append, List.length_append, h.key, h.value, h'.key, h'.value]
  obtain ⟨key, value⟩ := g
  obtain ⟨key', value'⟩ := g'
  obtain ⟨rfl, rfl⟩ := List.append_inj hbytes (h.key.trans h'.key.symm)
  rfl

/-- The first of so many numbers. -/
theorem search_eq_some_iff : g.search n = some k ↔ ∃ i < n, (retry^[i] g).number? = some k
    ∧ ∀ j < i, (retry^[j] g).number? = none := by
  induction n generalizing g with
  | zero => simp [search]
  | succ n ih =>
      unfold search
      cases hnumber : g.number? with
      | some k' =>
          constructor
          · intro h
            exact ⟨0, Nat.succ_pos n, hnumber.trans h, fun j hj => absurd hj (Nat.not_lt_zero j)⟩
          · rintro ⟨i, -, hi, hbefore⟩
            cases i with
            | zero => exact hnumber.symm.trans hi
            | succ i => exact absurd (hnumber.symm.trans (hbefore 0 (Nat.succ_pos i))) (by simp)
      | none =>
          -- nothing here: the search goes on from the next state, with all indices one less
          rw [ih]
          constructor
          · rintro ⟨i, hi, hfound, hbefore⟩
            refine ⟨i + 1, Nat.succ_lt_succ hi, hfound, fun j hj => ?_⟩
            cases j with
            | zero => exact hnumber
            | succ j => exact hbefore j (Nat.lt_of_succ_lt_succ hj)
          · rintro ⟨i, hi, hfound, hbefore⟩
            cases i with
            | zero => exact absurd (hnumber.symm.trans hfound) (by simp)
            | succ i =>
                exact ⟨i, Nat.lt_of_succ_lt_succ hi, hfound,
                  fun j hj => hbefore (j + 1) (Nat.succ_lt_succ hj)⟩

theorem sized_start (key : PrivateKey) (digest : Bytes) : (start key digest).Sized :=
  sized_stir _ _

end Generator

open Generator

/-- **What is drawn is the first number in range, if there ever is one.** -/
theorem derive?_eq_some_iff {key k : PrivateKey} {digest : Bytes} : derive? key digest = some k
    ↔ ∃ i, (retry^[i] (start key digest)).number? = some k
      ∧ ∀ j < i, (retry^[j] (start key digest)).number? = none := by
  have hsized := sized_start key digest
  refine search_eq_some_iff.trans ⟨fun ⟨i, _, h⟩ => ⟨i, h⟩, fun ⟨i, hfound, hbefore⟩ => ?_⟩
  obtain ⟨m, hm, hsame⟩ := exists_iterate_eq (fun n => (hsized.iterate n).index_lt)
    (fun m n => (hsized.iterate m).index_inj (hsized.iterate n)) i
  -- before that step there is no number, so the step comes early enough
  have hle : i ≤ m := Nat.le_of_not_lt fun hlt => by
    have hnone := hbefore m hlt
    rw [← hsame, hfound] at hnone
    exact absurd hnone (by simp)
  exact ⟨i, Nat.lt_of_le_of_lt hle hm, hfound, hbefore⟩

end PooledCrypto.Curve.P256.Nonce
