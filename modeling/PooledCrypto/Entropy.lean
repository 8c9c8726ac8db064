import PooledCrypto.Aead.ChaCha20
import PooledCrypto.Room

/-!
# Entropy

Random bytes come from a source of blocks. Each draw starts at a block of its own, so no byte is
given out twice.

A draw can fail, for a reason that the source gives, and the next one may succeed again. There is no
other source to turn to. No source lasts for ever either: from some block on, every draw fails. So
whoever draws again and again comes to an end without a bound of his own (`Entropy.drawUntil`).

A source is made from a seed, which has to be unpredictable, by running a stream cipher with the
seed as its key.
-/

namespace PooledCrypto

/-- A source of random bytes. -/
structure Entropy where
  /-- The blocks of the source. -/
  block : Nat → Bytes
  /-- The first block that is not used up. -/
  next : Nat
  /-- Why a draw that starts at a block fails, if it does. -/
  fault : Nat → Option String
  /-- From here on every draw fails. -/
  last : Nat
  length_block : ∀ i, (block i).length = 64
  fault_of_last : ∀ i, last ≤ i → fault i ≠ none

namespace Entropy

variable {e e' : Entropy} {len : Nat}

/-- The next draw does not fail. -/
def Works (e : Entropy) : Prop := e.fault e.next = none

/-- Draws bytes. -/
def draw (e : Entropy) (len : Nat) : Bytes × Entropy :=
  (Bytes.ofBlocks 64 (fun i => e.block (e.next + i)) len,
    { e with next := e.next + len / 64 + 1 })

/-- Passes over a block. -/
def skip (e : Entropy) : Entropy := { e with next := e.next + 1 }

/-- Draws bytes into room that is set aside for them first. For no bytes the source is not asked. -/
def bytes (e : Entropy) (len : Nat) : Except Failure Bytes × Entropy :=
  match Room.reserve len with
  | .error f => (.error f, e)
  | .ok () =>
    if len = 0 then (.ok [], e)
    else
      match e.fault e.next with
      | some why => (.error (.error (.randomSource why)), e.skip)
      | none =>
        let (drawn, e) := e.draw len
        (.ok drawn, e)

@[simp] theorem length_draw (e : Entropy) (len : Nat) : (e.draw len).1.length = len :=
  Bytes.length_ofBlocks (by decide) (fun i => e.length_block (e.next + i)) len

/-- Where there is room, as many bytes are drawn as are asked for, or the source does not work and
says why. -/
theorem bytes_cases (e : Entropy) (hroom : len ≤ Room.most) :
    (∃ drawn e', e.bytes len = (.ok drawn, e') ∧ drawn.length = len)
      ∨ ¬e.Works ∧ ∃ why e', e.bytes len = (.error (.error (.randomSource why)), e') := by
  unfold bytes Works
  rw [Room.reserve_eq_ok_iff.mpr hroom]
  dsimp only
  split
  next hzero => exact Or.inl ⟨[], e, rfl, hzero.symm⟩
  next =>
    cases hfault : e.fault e.next with
    | none => exact Or.inl ⟨_, _, rfl, e.length_draw len⟩
    | some why => exact Or.inr ⟨Option.some_ne_none why, why, _, rfl⟩

/-- Bytes that are drawn are as many as were asked for, and there was room for them. -/
theorem length_of_bytes {drawn : Bytes} (h : e.bytes len = (.ok drawn, e')) :
    drawn.length = len ∧ len ≤ Room.most := by
  unfold bytes at h
  by_cases hroom : len ≤ Room.most
  · rw [Room.reserve_eq_ok_iff.mpr hroom] at h
    dsimp only at h
    split at h
    next hzero =>
      obtain rfl := Except.ok.inj (congrArg Prod.fst h)
      exact ⟨hzero.symm, hroom⟩
    next =>
      split at h
      next => exact absurd (congrArg Prod.fst h) (by simp)
      next =>
        obtain rfl := Except.ok.inj (congrArg Prod.fst h)
        exact ⟨e.length_draw len, hroom⟩
  · rw [Room.reserve_eq_unwound hroom] at h
    exact absurd (congrArg Prod.fst h) (by simp)

/-- Each draw that succeeds takes the source nearer to its end. -/
theorem left_of_bytes {drawn : Bytes} (pos : 0 < len) (h : e.bytes len = (.ok drawn, e')) :
    e'.last - e'.next < e.last - e.next := by
  have hroom := (length_of_bytes h).2
  unfold bytes at h
  rw [Room.reserve_eq_ok_iff.mpr hroom] at h
  dsimp only at h
  rw [if_neg (Nat.ne_of_gt pos)] at h
  split at h
  next => exact absurd (congrArg Prod.fst h) (by simp)
  next hworks =>
    obtain rfl := congrArg Prod.snd h
    -- the source does not fail where it stands, so that is before its last block
    have hleft : e.next < e.last := Nat.lt_of_not_le fun hle => e.fault_of_last _ hle hworks
    simp only [draw]
    omega

/-- Draws until a draw is accepted. Nothing but a failure ends it before that. -/
def drawUntil {α : Type} (e : Entropy) (len : Nat) (pos : 0 < len) (accept : Bytes → Option α) :
    Except Failure α × Entropy :=
  match h : e.bytes len with
  | (.error f, e') => (.error f, e')
  | (.ok drawn, e') =>
    have := left_of_bytes pos h
    match accept drawn with
    | some found => (.ok found, e')
    | none => e'.drawUntil len pos accept
termination_by e.last - e.next

/-- Why draws fail where a source of blocks alone is at its end. -/
def exhausted : String := "no blocks left"

/-- The source of so many blocks, none of which it refuses. -/
def ofBlocks (block : Nat → Bytes) (length_block : ∀ i, (block i).length = 64) (count : Nat) :
    Entropy where
  block
  next := 0
  fault i := if i < count then none else some exhausted
  last := count
  length_block
  fault_of_last i h := by rw [if_neg (Nat.not_lt.mpr h)]; exact Option.some_ne_none _

/-- The source of a seed of 32 bytes. Blocks beyond the reach of the cipher's counter change its
nonce. -/
def seeded (seed : Bytes) : Entropy :=
  ofBlocks (fun i => Aead.ChaCha20.block seed (Bytes.ofNatLE 12 (i >>> 32)) i)
    (fun _ => Aead.ChaCha20.length_block _ _ _) (1 <<< 128)

end Entropy
end PooledCrypto
