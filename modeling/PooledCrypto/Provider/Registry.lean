import PooledCrypto.Error

/-!
# Registries of providers

A registry knows providers by name, each by a factory that makes it from a configuration. The order
in which they were entered is the order in which they are preferred. Resolving reports which
factories were called, in order.
-/

namespace PooledCrypto.Provider

/-- Makes a provider of type `π` from a configuration. -/
abbrev ProviderFactory (π : Type) := Json → Except Error π

/-- Factories of providers by name, the most preferred in front. -/
structure Registry (π : Type) where
  factories : List (String × ProviderFactory π)

namespace Registry

variable {π : Type}

/-- A registry that knows no provider. -/
def empty : Registry π := ⟨[]⟩

/-- The names in order of preference. -/
def providers (r : Registry π) : List String := r.factories.map (·.1)

/-- Whether a name is known. -/
def hasProvider (r : Registry π) (name : String) : Bool := r.factories.any fun f => f.1 == name

/-- Enters a factory with the lowest preference, unless its name is taken. -/
def register (r : Registry π) (name : String) (factory : ProviderFactory π) :
    Except Error (Registry π) :=
  if r.hasProvider name then .error (.alreadyExists (.provider name))
  else .ok ⟨r.factories ++ [(name, factory)]⟩

/-- Makes the provider of a name. -/
def resolve (r : Registry π) (name : String) (config : Json) : Except Error π × List String :=
  match r.factories.find? fun f => f.1 == name with
  | some f => (f.2 config, [f.1])
  | none => (.error (.notFound (.provider name)), [])

/-- Makes the first provider whose factory does not fail. -/
def resolveFirst (config : Json) :
    List (String × ProviderFactory π) → Except Error π × List String
  | [] => (.error (.notFound .anyProvider), [])
  | (name, factory) :: rest =>
    match factory config with
    | .ok provider => (.ok provider, [name])
    | .error _ =>
      let (result, tried) := resolveFirst config rest
      (result, name :: tried)

/-- Makes the most preferred provider whose factory does not fail. -/
def resolveDefault (r : Registry π) (config : Json) : Except Error π × List String :=
  resolveFirst config r.factories

end Registry
end PooledCrypto.Provider
