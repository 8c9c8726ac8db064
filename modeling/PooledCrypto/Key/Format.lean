import PooledCrypto.Json.Schema

/-!
# Interchange formats of keys

A key leaves or enters a provider as bytes tagged with a format. The formats are only named here;
which of them a provider can write and read is up to the provider.
-/

namespace PooledCrypto

/-- The format that a key's bytes are in. -/
inductive KeyFormat
  | raw
  | der
  | pem
  | jwk
  deriving DecidableEq, Repr

namespace KeyFormat

/-- Every format. -/
def all : List KeyFormat := [.raw, .der, .pem, .jwk]

/-- The name shown to people. -/
def name : KeyFormat → String
  | .raw => "RAW"
  | .der => "DER"
  | .pem => "PEM"
  | .jwk => "JWK"

/-- The name used in JSON. -/
def jsonName : KeyFormat → String
  | .raw => "raw"
  | .der => "der"
  | .pem => "pem"
  | .jwk => "jwk"

/-- Reads a format from JSON. -/
def ofJson (value : Json) : Except Json.SchemaFault KeyFormat :=
  Json.asPlainName (all.map fun f => (f.jsonName, f)) value

end KeyFormat
end PooledCrypto
