import PooledCrypto.Proofs.Lifecycle

/-!
# Backends that take every chunk

A backend may take in whatever it is fed and decide only at the end. A function over such a backend
stays open as long as it is fed, and where its input was cut does not show: what it gives at the end
is what the backend makes of all chunks together.
-/

namespace PooledCrypto.Streaming

variable {κ χ ω : Type} [Core κ χ ω]

/-- Every update succeeds with the same output, and takes the chunk in. -/
def Absorbs (out : χ) (take : κ → Bytes → κ) : Prop :=
  ∀ (core : κ) (chunk : Bytes), Core.update core chunk = (.ok out, take core chunk)

namespace Function

variable {out : χ} {take : κ → Bytes → κ}

/-- Feeding chunks leaves the function open, with all of them taken in. -/
theorem updateAll_of_absorbs (h : Absorbs out take) (chunks : List Bytes) (core : κ) :
    updateAll chunks (⟨.opened, some core⟩ : Function κ)
      = (.ok (chunks.map fun _ => out), ⟨.opened, some (chunks.foldl take core)⟩) := by
  induction chunks generalizing core with
  | nil => rfl
  | cons chunk rest ih =>
    rw [updateAll, update_opened, h core chunk]
    dsimp only
    rw [ih (take core chunk)]
    rfl

/-- Feeding chunks and a final one ends as the backend says that has taken in the chunks. -/
theorem feed_of_absorbs (h : Absorbs out take) (chunks : List Bytes) (last : Bytes) (core : κ) :
    feed chunks last (⟨.opened, some core⟩ : Function κ)
      = ((Core.finish (chunks.foldl take core) last).1.map fun result =>
            (chunks.map (fun _ => out), result),
          ⟨.finished, some (Core.finish (chunks.foldl take core) last).2⟩) := by
  rw [feed, updateAll_of_absorbs h]
  dsimp only
  rw [finish_opened]

end Function
end PooledCrypto.Streaming
