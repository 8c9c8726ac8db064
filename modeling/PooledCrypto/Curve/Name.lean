import PooledCrypto.Json.Schema

/-!
# Named elliptic curves

The curves a key can be asked for. A provider need not implement all of them.
-/

namespace PooledCrypto

/-- A named elliptic curve. -/
inductive Curve
  | p256
  | p384
  | p521
  deriving DecidableEq, Repr

namespace Curve

/-- Every curve. -/
def all : List Curve := [.p256, .p384, .p521]

/-- The curve's name. -/
def name : Curve → String
  | .p256 => "P-256"
  | .p384 => "P-384"
  | .p521 => "P-521"

/-- The curve's name without punctuation, as diagnostics show it. -/
def plainName : Curve → String
  | .p256 => "P256"
  | .p384 => "P384"
  | .p521 => "P521"

/-- The length of a field element in bytes. -/
def fieldSize : Curve → Nat
  | .p256 => 32
  | .p384 => 48
  | .p521 => 66

/-- Reads a curve from JSON. -/
def ofJson (value : Json) : Except Json.SchemaFault Curve :=
  Json.asPlainName (all.map fun c => (c.name, c)) value

end Curve
end PooledCrypto
