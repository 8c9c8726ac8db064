import PooledCrypto.Word.Grid

/-!
# ChaCha20

The keystream block of a key, a counter and a nonce is a grid of sixteen words, mixed by twenty
rounds and added to itself. `subkey` is the same mixing without the addition; it turns a key and the
front of a longer nonce into a fresh key.
-/

namespace PooledCrypto.Aead.ChaCha20

open Word

/-- How far words are rotated. -/
def turns : Rotations := ⟨16, 20, 24, 25⟩

/-- Two rounds: one on the columns and one on the diagonals. -/
def doubleRound (g : Grid 32) : Grid 32 :=
  (g.mixColumns turns .zero .zero).mixDiagonals turns .zero .zero

/-- Twenty rounds. -/
def mix (g : Grid 32) : Grid 32 := (List.range 10).foldl (fun g _ => doubleRound g) g

/-- The grid of a key and sixteen more bytes. -/
def grid (key tail : Bytes) : Grid 32 :=
  .ofList (listLE 32 (Bytes.ofText "expand 32-byte k" ++ key ++ tail))

/-- The keystream block of a key, a counter and a nonce of twelve bytes. -/
def block (key nonce : Bytes) (counter : Nat) : Bytes :=
  let start := grid key (Bytes.ofNatLE 4 counter ++ nonce)
  ((mix start).add start).toList.flatMap toBytesLE

/-- A fresh key from a key and sixteen bytes of a nonce. -/
def subkey (key front : Bytes) : Bytes :=
  let g := mix (grid key front)
  (g.a.toList ++ g.d.toList).flatMap toBytesLE

theorem length_block (key nonce : Bytes) (counter : Nat) :
    (block key nonce counter).length = 64 := by
  simp [block, Grid.toList, Row.toList]

end PooledCrypto.Aead.ChaCha20
