import PooledCrypto.Provider.Agreement
import PooledCrypto.Provider.Catalogue
import PooledCrypto.Provider.Enciphering
import PooledCrypto.Provider.Hashing
import PooledCrypto.Provider.Registry
import PooledCrypto.Provider.Signing

/-!
# The provider in software

The provider has every digest and cipher that is implemented, the message authentication code, and
signatures and key agreement on one curve. It is the one provider that a registry knows by default.
-/

namespace PooledCrypto

namespace Provider

/-- What the instance of an algorithm consists of, by family. -/
abbrev Implemented : Family → Type
  | .digest => Digest.Kind
  | .hmac => Unit
  | .aead => Aead.Kind
  | .ecdsa => Unit
  | .ecdh => Unit

/-- Algorithms by name and family. -/
abbrev Algorithms := Catalogue Family Implemented

/-- The algorithms implemented in software, in the order in which they are listed. -/
def softwareTable : Table Family Implemented :=
  let digests : List (TableEntry Family Implemented) :=
    Digest.Kind.all.map fun k => ⟨k.name, .digest, fun _ => k⟩
  let ciphers : List (TableEntry Family Implemented) :=
    Aead.Kind.all.map fun k => ⟨k.name, .aead, fun _ => k⟩
  ⟨digests ++ [⟨Algorithm.hmac, .hmac, fun _ => ()⟩] ++ ciphers ++
    [⟨Algorithm.ecdsa, .ecdsa, fun _ => ()⟩, ⟨Algorithm.ecdh, .ecdh, fun _ => ()⟩]⟩

/-- The name of the provider in software. -/
def softwareName : String := "software"

end Provider

/-- A provider: its algorithms, and what their operations share. -/
structure Provider where
  algorithms : Provider.Algorithms
  state : Provider.State

namespace Provider

/-- The provider's name. -/
def name (p : Provider) : String := p.algorithms.provider

/-- The names of the algorithms in the order in which they were entered. -/
def algorithmNames (p : Provider) : List String := p.algorithms.table.names

/-- The provider as diagnostics show it. -/
def debug (p : Provider) : String :=
  Text.record "Provider" [("name", Text.quoted p.name),
    ("algorithms", Text.bracketed (p.algorithmNames.map Text.quoted)), ("state", p.state.debug)]

/-- The provider in software with a given state. -/
def software (state : State) : Provider := ⟨.ofTable softwareName softwareTable, state⟩

/-- The provider in software with a configuration. -/
def softwareOfConfig (around : State.Surroundings) (config : Config) : Except Error Provider := do
  let state ← State.ofConfig around config
  return software state

/-- A provider without algorithms. -/
def bare (around : State.Surroundings) (name : String) (config : Config) :
    Except Error Provider := do
  let state ← State.ofConfig around config
  return ⟨.ofTable name .empty, state⟩

/-- Makes the provider in software from a configuration in JSON. -/
def softwareFactory (around : State.Surroundings) : ProviderFactory Provider := fun json => do
  let config ← Config.ofJson json
  softwareOfConfig around config

/-- The registry that knows the provider in software. -/
def defaultRegistry (around : State.Surroundings) : Registry Provider :=
  ⟨[(softwareName, softwareFactory around)]⟩

/-- The algorithm of a name and a family, with the serial of its instance. -/
def locate (f : Family) (name : String) : Action Provider (Found (Implemented f)) := fun p =>
  let (found, algorithms) := p.algorithms.lookup f name
  let p := { p with algorithms }
  match found with
  | .ok algorithm => (.ok algorithm, p)
  | .error e => (.error (.error e), p)

/-- The algorithm of a name and a family. -/
def get (f : Family) (name : String) : Action Provider (Implemented f) := do
  let found ← locate f name
  return found.value

/-- Work on the state of a provider. -/
def onState {α : Type} (work : Action State α) : Action Provider α := fun p =>
  let (result, state) := work p.state
  (result, { p with state })

end Provider
end PooledCrypto
