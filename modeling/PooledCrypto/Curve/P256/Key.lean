import PooledCrypto.Curve.P256.Point
import PooledCrypto.Error

/-!
# Keys on P-256

A private key is a number from 1 on and below the number of points. A public key is a point of the
curve other than infinity; the type says that it lies on the curve.

A public key is written with both coordinates in full. It is also read from its first coordinate
alone, with a mark for which of the two values the second one has: by its parity, or the smaller of
the two. However it was written, the key read is the same.
-/

namespace PooledCrypto.Curve.P256

/-- The length of a coordinate and of a private key in bytes. -/
def scalarSize : Nat := 32

/-- A public key. -/
structure PublicKey where
  x : Coordinate
  y : Coordinate
  on_curve : onCurve x y
  deriving DecidableEq

namespace PublicKey

/-- The key's point. -/
def point (key : PublicKey) : Point := .affine key.x key.y

/-- The key at a point, if it is one of the curve and not infinity. -/
def ofPoint? : Point → Option PublicKey
  | .infinity => none
  | .affine x y => if h : onCurve x y then some ⟨x, y, h⟩ else none

/-- A coordinate from 32 bytes. -/
def readCoordinate? (bytes : Bytes) : Option Coordinate :=
  let n := Bytes.toNatBE bytes
  if h : bytes.length = scalarSize ∧ n < fieldOrder then some ⟨n, h.2⟩ else none

/-- Which of the two values of the second coordinate is meant. -/
inductive Choice
  | even
  | odd
  | smaller
  deriving DecidableEq, Repr

/-- The value that is meant, of a root and its negative. -/
def Choice.pick (c : Choice) (root : Coordinate) : Coordinate :=
  let other := -root
  match c with
  | .even => if root.val % 2 = 0 then root else other
  | .odd => if root.val % 2 = 1 then root else other
  | .smaller => if root.val ≤ other.val then root else other

/-- The key with a first coordinate. -/
def ofFirst? (c : Choice) (bytes : Bytes) : Option PublicKey := do
  let x ← readCoordinate? bytes
  let root ← Modular.sqrt? (square x)
  ofPoint? (.affine x (c.pick root))

/-- Reads a public key. The first byte says what follows: 4 both coordinates, 2 and 3 the first one
with an even and an odd second one, 5 the first one with the smaller second one. -/
def ofBytes? : Bytes → Option PublicKey
  | 4 :: rest => do
    let x ← readCoordinate? (rest.take scalarSize)
    let y ← readCoordinate? (rest.drop scalarSize)
    ofPoint? (.affine x y)
  | 2 :: rest => ofFirst? .even rest
  | 3 :: rest => ofFirst? .odd rest
  | 5 :: rest => ofFirst? .smaller rest
  | _ => none

/-- Reads a public key, or says that it is none. -/
def ofBytes (bytes : Bytes) : Except Error PublicKey :=
  match ofBytes? bytes with
  | some key => .ok key
  | none => .error (.invalidInput .point)

/-- The key with both coordinates in full. -/
def toBytes (key : PublicKey) : Bytes :=
  4 :: Bytes.ofNatBE scalarSize key.x.val ++ Bytes.ofNatBE scalarSize key.y.val

@[simp] theorem length_toBytes (key : PublicKey) : key.toBytes.length = 65 := by
  simp [toBytes, scalarSize]

theorem readCoordinate?_ofNatBE (x : Coordinate) :
    readCoordinate? (Bytes.ofNatBE scalarSize x.val) = some x := by
  have small : x.val < Nat.pow 256 scalarSize := Nat.lt_trans x.isLt (by decide)
  have back : Bytes.toNatBE (Bytes.ofNatBE scalarSize x.val) = x.val := by
    rw [Bytes.toNatBE_ofNatBE, Nat.mod_eq_of_lt small]
  simp [readCoordinate?, back, x.isLt]

/-- What was written is read as the same key. -/
theorem ofBytes?_toBytes (key : PublicKey) : ofBytes? key.toBytes = some key := by
  have front : List.take scalarSize
      (Bytes.ofNatBE scalarSize key.x.val ++ Bytes.ofNatBE scalarSize key.y.val) =
      Bytes.ofNatBE scalarSize key.x.val := List.take_left' (by simp)
  have back : List.drop scalarSize
      (Bytes.ofNatBE scalarSize key.x.val ++ Bytes.ofNatBE scalarSize key.y.val) =
      Bytes.ofNatBE scalarSize key.y.val := List.drop_left' (by simp)
  simp [toBytes, ofBytes?, front, back, readCoordinate?_ofNatBE, ofPoint?, key.on_curve]

end PublicKey

/-- A private key. -/
structure PrivateKey where
  scalar : Nat
  scalar_pos : 0 < scalar
  scalar_lt : scalar < groupOrder
  deriving DecidableEq

namespace PrivateKey

/-- The key of a number, if it is in range. -/
def ofScalar? (n : Nat) : Option PrivateKey :=
  if h : 0 < n ∧ n < groupOrder then some ⟨n, h.1, h.2⟩ else none

/-- Reads a private key. -/
def ofBytes (bytes : Bytes) : Except Error PrivateKey :=
  if bytes.length = scalarSize then
    match ofScalar? (Bytes.toNatBE bytes) with
    | some key => .ok key
    | none => .error (.invalidInput .scalarRange)
  else .error (.invalidInput (.scalarLength scalarSize bytes.length))

/-- The key as bytes. -/
def toBytes (key : PrivateKey) : Bytes := Bytes.ofNatBE scalarSize key.scalar

@[simp] theorem length_toBytes (key : PrivateKey) : key.toBytes.length = 32 := by
  simp [toBytes, scalarSize]

/-- What was written is read as the same key. -/
theorem ofBytes_toBytes (key : PrivateKey) : ofBytes key.toBytes = .ok key := by
  have small : key.scalar < Nat.pow 256 scalarSize := Nat.lt_trans key.scalar_lt (by decide)
  have back : Bytes.toNatBE key.toBytes = key.scalar := by
    rw [toBytes, Bytes.toNatBE_ofNatBE, Nat.mod_eq_of_lt small]
  simp [ofBytes, back, ofScalar?, key.scalar_pos, key.scalar_lt, scalarSize]

/-- The public key that belongs to the key. -/
def publicKey? (key : PrivateKey) : Option PublicKey :=
  PublicKey.ofPoint? (Point.multiply key.scalar .base)

/-- The secret that the key shares with the holder of another one: the first coordinate of the
multiple of the other's point. -/
def agree (key : PrivateKey) (peer : PublicKey) : Bytes :=
  Bytes.ofNatBE scalarSize (Point.multiply key.scalar peer.point).first.val

end PrivateKey

/-- A private key and its public key. -/
structure KeyPair where
  privateKey : PrivateKey
  publicKey : PublicKey
  belongs : privateKey.publicKey? = some publicKey

/-- The key pair of a number, if it is in range. -/
def KeyPair.ofScalar? (n : Nat) : Option KeyPair :=
  match PrivateKey.ofScalar? n with
  | none => none
  | some key =>
    match h : key.publicKey? with
    | some shared => some ⟨key, shared, h⟩
    | none => none

end PooledCrypto.Curve.P256
