import PooledCrypto.Error

/-!
# Room in memory

What is kept in one piece takes room in memory, and there is a most that one piece can have. Whoever
asks for more than that unwinds (`reserve_eq_ok_iff`); nobody is told to ask for less.
-/

namespace PooledCrypto.Room

/-- The most bytes that one piece can have. -/
def most : Nat := (1 <<< 63) - 1

/-- Sets room for so many bytes aside. -/
def reserve (bytes : Nat) : Except Failure Unit :=
  if bytes ≤ most then .ok () else .error .unwound

/-- Room is there exactly for what does not go beyond the most. -/
theorem reserve_eq_ok_iff {bytes : Nat} : reserve bytes = .ok () ↔ bytes ≤ most := by
  unfold reserve
  split <;> simp [*]

/-- Whoever asks for more than there is unwinds. -/
theorem reserve_eq_unwound {bytes : Nat} (h : ¬bytes ≤ most) : reserve bytes = .error .unwound :=
  if_neg h

end PooledCrypto.Room
