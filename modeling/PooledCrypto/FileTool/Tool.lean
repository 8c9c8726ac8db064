import PooledCrypto.FileTool.Enciphering
import PooledCrypto.FileTool.Hashing

/-!
# The tool

The tool works with the default provider. It lists the algorithms, hashes a file, generates a key,
or encrypts or decrypts a file, as its command line says.
-/

namespace PooledCrypto.FileTool

variable {m : Type → Type} [Monad m] [FileAccess m]

/-- A provider and its algorithms, and the digests that it lacks. -/
def listing (provider : Provider) : List String :=
  let missing := Algorithm.digests.filter fun name => !provider.algorithms.supports name
  [s!"Provider: {provider.name}", s!"Executor: {provider.state.executor.name}", "Algorithms:"] ++
    provider.algorithmNames.map ("  " ++ ·) ++
    if missing.isEmpty then [] else ["Not available: " ++ Text.commaSeparated missing]

/-- Lists the algorithms. -/
def listAlgorithms : Job m Unit := do
  let bench ← get
  (listing bench.provider).forM Job.print

/-- Carries out a command. -/
def carryOut : Command → Job m Unit
  | .algorithms => listAlgorithms
  | .hash algorithm file => hashFile algorithm file
  | .keygen bits => generateKey bits
  | .encrypt job => encryptFile job
  | .decrypt job => decryptFile job

/-- The configuration of the provider for a number of workers. -/
def configurationFor (workers : Option Nat) : Json :=
  match workers with
  | some threads => Json.ofFields [("execution", (ExecutionMode.workers threads).toJson)]
  | none => .null

/-- The name of the tool and its version. -/
def versionText : String := "cryptofacade 0.1.0"

/-- How the tool is used. -/
def helpText : List String :=
  ["Hashing and authenticated encryption of files", "",
    "Usage: cryptofacade [-v] [-w WORKERS] COMMAND", "",
    "Commands:",
    "  algorithms                                        List the algorithms",
    "  hash [-a ALGORITHM] FILE                          Hash a file",
    "  keygen [-b BITS]                                  Generate a key",
    "  encrypt -k KEY -i INPUT -o OUTPUT [--aad TEXT]    Encrypt a file",
    "  decrypt -k KEY -i INPUT -o OUTPUT [--aad TEXT]    Decrypt a file"]

/-- What is shown before a command is carried out. -/
def openingNotes (provider : Provider) (workers : Option Nat) : List Output :=
  let started :=
    match workers with
    | some threads => [.note .info s!"Worker pool started threads={max threads 1}"]
    | none => []
  started ++ [.note .debug s!"Provider ready provider={provider.name}"]

/-- What is noted of the factories that make no provider. -/
def refusals (registry : Provider.Registry Provider) (config : Json) : List Output :=
  registry.factories.filterMap fun f =>
    match f.2 config with
    | .ok _ => none
    | .error e => some (.note .warn s!"Provider unavailable: {e.message} provider={f.1}")

/-- Carries out what a command line says. -/
def invoke (around : Provider.State.Surroundings) (i : Invocation) : m Outcome := do
  let registry := Provider.defaultRegistry around
  let config := configurationFor i.workers
  match (registry.resolveDefault config).1 with
  | .error e =>
    let report := (Report.ofError e).within "No crypto provider available"
    return ⟨Outcome.failed, refusals registry config, report.text⟩
  | .ok provider =>
    let bench : Bench := ⟨provider, openingNotes provider i.workers⟩
    let (result, bench) ← (carryOut i.command).run.run bench
    let output := bench.output.filter (Output.isShown i.verbose)
    match result with
    | .ok () => return ⟨Outcome.success, output, ""⟩
    | .error (.report r) => return ⟨Outcome.failed, output, r.text⟩
    | .error .unwound => return ⟨Outcome.unwound, output, ""⟩

/-- Runs the tool with the arguments of a command line. -/
def run (around : Provider.State.Surroundings) (args : List String) : m Outcome :=
  match readArguments args with
  | .ok i => invoke around i
  | .error .help => return ⟨Outcome.success, helpText.map .line, ""⟩
  | .error .version => return ⟨Outcome.success, [.line versionText], ""⟩
  | .error .misuse =>
    return ⟨Outcome.misused, [], "error: the arguments make no sense; try --help\n"⟩

end PooledCrypto.FileTool
