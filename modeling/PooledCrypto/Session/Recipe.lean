import PooledCrypto.Room
import PooledCrypto.Session.Slots

/-!
# Recipes for bytes

The bytes that a command works on are given by a recipe: they are written out, or follow a rule, or
are taken from a slot, or are put together from other bytes. A recipe that asks for something that
is not there gives nothing.

A recipe is short however many bytes it asks for, and there may be no room for them (`fits`).
-/

namespace PooledCrypto.Session

/-- How bytes come about. -/
inductive Recipe
  /-- They are written out. -/
  | plain (bytes : Bytes)
  /-- They are the same bytes again and again. -/
  | repeated (bytes : Bytes) (times : Nat)
  /-- They count up from 0, over and over, without the last five values. -/
  | counting (count : Nat)
  /-- They are those in a slot; of a box, its flat form. -/
  | slot (name : String)
  /-- They are put together. -/
  | concat (parts : List Recipe)
  /-- They are those from one index up to another, as far as there are that many. -/
  | cut (whole : Recipe) (start : Nat) (stop : Option Nat)
  /-- One byte is changed by a mask; a negative index counts from the end. -/
  | flip (whole : Recipe) (index : Int) (mask : UInt8)

namespace Recipe

/-- Bytes again and again. -/
def repeatBytes (bytes : Bytes) (times : Nat) : Bytes :=
  if bytes.isEmpty then [] else (List.replicate times bytes).flatten

/-- Bytes that count up. -/
def countBytes (count : Nat) : Bytes := (List.range count).map fun i => UInt8.ofNat (i % 251)

/-- The part of bytes from an index up to another. -/
def cutBytes (bytes : Bytes) (start : Nat) (stop : Option Nat) : Bytes :=
  let stop := min (stop.getD bytes.length) bytes.length
  (bytes.take stop).drop (min start stop)

/-- Bytes with one of them changed, if there is one at the index. -/
def flipByte (bytes : Bytes) (index : Int) (mask : UInt8) : Option Bytes :=
  let place := if index < 0 then index + bytes.length else index
  if 0 ≤ place ∧ place < bytes.length then
    some (bytes.modify place.toNat (· ^^^ mask))
  else none

mutual

/-- Whether there is room for all that is put together on the way. -/
def fits : Recipe → Bool
  | .plain _ => true
  | .repeated bytes times => bytes.length * times ≤ Room.most
  | .counting count => count ≤ Room.most
  | .slot _ => true
  | .concat parts => allFit parts
  | .cut whole _ _ => fits whole
  | .flip whole _ _ => fits whole

/-- Whether there is room for each of some recipes. -/
def allFit : List Recipe → Bool
  | [] => true
  | part :: rest => fits part && allFit rest

end

mutual

/-- The bytes of a recipe. -/
def eval (slots : Slots) : Recipe → Option Datum
  | .plain bytes => some ⟨bytes, false⟩
  | .repeated bytes times => some ⟨repeatBytes bytes times, false⟩
  | .counting count => some ⟨countBytes count, false⟩
  | .slot name =>
    match slots.get? name with
    | some (.data d) => some d
    | some (.box b drawn) => some ⟨b.toFlat, drawn⟩
    | _ => none
  | .concat parts => evalAll slots parts
  | .cut whole start stop =>
    (eval slots whole).map fun d => ⟨cutBytes d.bytes start stop, d.drawn⟩
  | .flip whole index mask =>
    (eval slots whole).bind fun d =>
      (flipByte d.bytes index mask).map fun bytes => ⟨bytes, d.drawn⟩

/-- The bytes of recipes, one after the other. -/
def evalAll (slots : Slots) : List Recipe → Option Datum
  | [] => some ⟨[], false⟩
  | part :: rest =>
    match eval slots part, evalAll slots rest with
    | some d, some others => some ⟨d.bytes ++ others.bytes, d.drawn || others.drawn⟩
    | _, _ => none

end

/-- The bytes of a recipe that asks for no slot, if there is room for them. -/
def bytes? (r : Recipe) : Option Bytes := if r.fits then (r.eval []).map (·.bytes) else none

@[simp] theorem length_countBytes (count : Nat) : (countBytes count).length = count := by
  simp [countBytes]

@[simp] theorem length_repeatBytes (bytes : Bytes) (times : Nat) :
    (repeatBytes bytes times).length = bytes.length * times := by
  unfold repeatBytes
  split
  · rename_i none
    simp [List.isEmpty_iff.mp none]
  · simp [Nat.mul_comm]

end Recipe
end PooledCrypto.Session
