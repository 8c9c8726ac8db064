import PooledCrypto.Bytes.Basic

/-!
# Words

The algorithms compute with words of a fixed number of bits. This module says how words are read
from byte strings and written to them, in either byte order. A word of `w` bits takes `w / 8` bytes.
-/

namespace PooledCrypto.Word

variable {w : Nat}

/-- Reads a word whose least significant byte comes first. -/
def ofBytesLE (w : Nat) (bytes : Bytes) : BitVec w := BitVec.ofNat w bytes.toNatLE

/-- Reads a word whose most significant byte comes first. -/
def ofBytesBE (w : Nat) (bytes : Bytes) : BitVec w := BitVec.ofNat w bytes.toNatBE

/-- Writes a word with its least significant byte first. -/
def toBytesLE (word : BitVec w) : Bytes := Bytes.ofNatLE (w / 8) word.toNat

/-- Writes a word with its most significant byte first. -/
def toBytesBE (word : BitVec w) : Bytes := Bytes.ofNatBE (w / 8) word.toNat

/-- Reads words one after the other, each with its least significant byte first. -/
def listLE (w : Nat) (bytes : Bytes) : List (BitVec w) := (bytes.pieces (w / 8)).map (ofBytesLE w)

/-- Reads words one after the other, each with its most significant byte first. -/
def listBE (w : Nat) (bytes : Bytes) : List (BitVec w) := (bytes.pieces (w / 8)).map (ofBytesBE w)

@[simp] theorem length_toBytesLE (word : BitVec w) : (toBytesLE word).length = w / 8 := by
  simp [toBytesLE]

@[simp] theorem length_toBytesBE (word : BitVec w) : (toBytesBE word).length = w / 8 := by
  simp [toBytesBE]

end PooledCrypto.Word
