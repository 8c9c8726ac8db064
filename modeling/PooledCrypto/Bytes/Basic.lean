/-!
# Byte strings

A byte string is a list of bytes. The numbers that the algorithms work on are written into byte
strings with the least significant byte first (`ofNatLE`) or last (`ofNatBE`), always at a fixed
length. Reading back what was written gives the number again, up to the length
(`toNatLE_ofNatLE`, `toNatBE_ofNatBE`), and writing what was read gives the bytes again
(`ofNatLE_toNatLE`, `ofNatBE_toNatBE`).
-/

namespace PooledCrypto

/-- A string of bytes. -/
abbrev Bytes := List UInt8

namespace Bytes

/-- The UTF-8 form of a text. -/
def ofText (text : String) : Bytes := text.toUTF8.toList

/-- `len` zero bytes. -/
def zeros (len : Nat) : Bytes := List.replicate len 0

/-- The low `len` bytes of a number, least significant first. -/
def ofNatLE : Nat → Nat → Bytes
  | 0, _ => []
  | len + 1, n => UInt8.ofNat n :: ofNatLE len (n / 256)

/-- The number whose bytes these are, least significant first. -/
def toNatLE : Bytes → Nat
  | [] => 0
  | b :: rest => b.toNat + 256 * toNatLE rest

/-- The low `len` bytes of a number, most significant first. -/
def ofNatBE (len n : Nat) : Bytes := (ofNatLE len n).reverse

/-- The number whose bytes these are, most significant first. -/
def toNatBE (bytes : Bytes) : Nat := toNatLE bytes.reverse

/-- Byte by byte exclusive or, as long as the shorter of the two. -/
def xor (a b : Bytes) : Bytes := List.zipWith (· ^^^ ·) a b

/-- Pads with zero bytes up to the next multiple of `block` bytes. -/
def padTo (block : Nat) (bytes : Bytes) : Bytes :=
  bytes ++ zeros ((block - bytes.length % block) % block)

/-- Cuts into pieces of `size` bytes, the last one possibly shorter. A size of 0 is taken as 1. -/
def pieces (size : Nat) : Bytes → List Bytes
  | [] => []
  | b :: rest => (b :: rest.take (size - 1)) :: pieces size (rest.drop (size - 1))
termination_by bytes => bytes.length
decreasing_by simp only [List.length_cons, List.length_drop]; omega

/-- The first `len` bytes of blocks of `size` bytes that follow each other without end. -/
def ofBlocks (size : Nat) (block : Nat → Bytes) (len : Nat) : Bytes :=
  ((List.range (len / size + 1)).flatMap block).take len

@[simp] theorem length_zeros (len : Nat) : (zeros len).length = len := by simp [zeros]

@[simp] theorem length_ofNatLE (len n : Nat) : (ofNatLE len n).length = len := by
  induction len generalizing n with
  | zero => rfl
  | succ len ih => simp [ofNatLE, ih]

@[simp] theorem length_ofNatBE (len n : Nat) : (ofNatBE len n).length = len := by
  simp [ofNatBE]

theorem pow_succ_eq (base n : Nat) : Nat.pow base (n + 1) = base * Nat.pow base n :=
  Nat.mul_comm _ _

theorem toNatLE_ofNatLE (len n : Nat) : toNatLE (ofNatLE len n) = n % Nat.pow 256 len := by
  induction len generalizing n with
  | zero => simp [ofNatLE, toNatLE, Nat.mod_one]
  | succ len ih =>
    rw [ofNatLE, toNatLE, ih, pow_succ_eq, Nat.mod_mul]
    simp

theorem ofNatLE_toNatLE (bytes : Bytes) : ofNatLE bytes.length (toNatLE bytes) = bytes := by
  induction bytes with
  | nil => rfl
  | cons b rest ih =>
    have hb := b.toNat_lt
    have hdiv : (b.toNat + 256 * toNatLE rest) / 256 = toNatLE rest := by omega
    have hmod : UInt8.ofNat (b.toNat + 256 * toNatLE rest) = b := by
      apply UInt8.toNat_inj.mp
      simp
    rw [List.length_cons, toNatLE, ofNatLE, hdiv, hmod, ih]

theorem toNatLE_lt (bytes : Bytes) : toNatLE bytes < Nat.pow 256 bytes.length := by
  induction bytes with
  | nil => simp [toNatLE]
  | cons b rest ih =>
    have hb := b.toNat_lt
    rw [toNatLE, List.length_cons, pow_succ_eq]
    omega

theorem toNatBE_ofNatBE (len n : Nat) : toNatBE (ofNatBE len n) = n % Nat.pow 256 len := by
  simp [toNatBE, ofNatBE, toNatLE_ofNatLE]

theorem ofNatBE_toNatBE (bytes : Bytes) : ofNatBE bytes.length (toNatBE bytes) = bytes := by
  have h := ofNatLE_toNatLE bytes.reverse
  rw [List.length_reverse] at h
  rw [ofNatBE, toNatBE, h, List.reverse_reverse]

theorem toNatBE_lt (bytes : Bytes) : toNatBE bytes < Nat.pow 256 bytes.length := by
  simpa [toNatBE] using toNatLE_lt bytes.reverse

theorem flatten_pieces (size : Nat) (bytes : Bytes) : (pieces size bytes).flatten = bytes := by
  fun_induction pieces size bytes with
  | case1 => rfl
  | case2 b rest ih => simp [ih]

theorem length_of_mem_pieces {size : Nat} {bytes piece : Bytes} (h : piece ∈ pieces size bytes) :
    0 < piece.length ∧ piece.length ≤ max size 1 := by
  fun_induction pieces size bytes with
  | case1 => simp at h
  | case2 b rest ih =>
    rcases List.mem_cons.mp h with rfl | h
    · simp only [List.length_cons, List.length_take]
      omega
    · exact ih h

theorem length_flatMap_blocks {size : Nat} {block : Nat → Bytes}
    (sized : ∀ i, (block i).length = size) (count : Nat) :
    ((List.range count).flatMap block).length = count * size := by
  induction count with
  | zero => simp
  | succ count ih => simp [List.range_succ, ih, sized, Nat.succ_mul]

theorem length_ofBlocks {size : Nat} {block : Nat → Bytes} (positive : 0 < size)
    (sized : ∀ i, (block i).length = size) (len : Nat) :
    (ofBlocks size block len).length = len := by
  have enough : len ≤ (len / size + 1) * size := by
    have split := Nat.div_add_mod len size
    have small := Nat.mod_lt len positive
    rw [Nat.succ_mul, Nat.mul_comm]
    omega
  rw [ofBlocks, List.length_take, length_flatMap_blocks sized]
  omega

@[simp] theorem length_xor (a b : Bytes) : (xor a b).length = min a.length b.length := by
  simp [xor]

/-- Applying a mask at least as long as the text twice gives the text back. -/
theorem xor_xor_cancel {text mask : Bytes} (h : text.length ≤ mask.length) :
    xor (xor text mask) mask = text := by
  induction text generalizing mask with
  | nil => simp [xor]
  | cons t text ih =>
    cases mask with
    | nil => simp at h
    | cons m mask =>
      have ht := ih (by simpa using h)
      simp only [xor, List.zipWith_cons_cons] at ht ⊢
      rw [ht, UInt8.xor_assoc, UInt8.xor_self, UInt8.xor_zero]

end Bytes
end PooledCrypto
