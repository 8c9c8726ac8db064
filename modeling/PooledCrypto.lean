import PooledCrypto.Action
import PooledCrypto.Aead.Aes
import PooledCrypto.Aead.Box
import PooledCrypto.Aead.ChaCha20
import PooledCrypto.Aead.Cipher
import PooledCrypto.Aead.Engine
import PooledCrypto.Aead.Entries
import PooledCrypto.Aead.Gcm
import PooledCrypto.Aead.Kind
import PooledCrypto.Aead.Poly1305
import PooledCrypto.Algorithm.Name
import PooledCrypto.Bytes.Base64
import PooledCrypto.Bytes.Basic
import PooledCrypto.Bytes.Hex
import PooledCrypto.Config
import PooledCrypto.Curve.Modular
import PooledCrypto.Curve.Name
import PooledCrypto.Curve.P256.Ecdsa
import PooledCrypto.Curve.P256.Key
import PooledCrypto.Curve.P256.Point
import PooledCrypto.Curve.P256.Signature
import PooledCrypto.Decimal.Shortest
import PooledCrypto.Digest.Blake2
import PooledCrypto.Digest.Block
import PooledCrypto.Digest.Context
import PooledCrypto.Digest.Kind
import PooledCrypto.Digest.Roots
import PooledCrypto.Digest.Sha2
import PooledCrypto.Entropy
import PooledCrypto.Error
import PooledCrypto.Executor.Basic
import PooledCrypto.Executor.Workers
import PooledCrypto.FileTool.Arguments
import PooledCrypto.FileTool.Enciphering
import PooledCrypto.FileTool.Files
import PooledCrypto.FileTool.Hashing
import PooledCrypto.FileTool.Job
import PooledCrypto.FileTool.Report
import PooledCrypto.FileTool.Tool
import PooledCrypto.Json.Basic
import PooledCrypto.Json.Fields
import PooledCrypto.Json.Printer
import PooledCrypto.Json.Reader
import PooledCrypto.Json.Schema
import PooledCrypto.Json.Syntax
import PooledCrypto.Key.Format
import PooledCrypto.Mac.Hmac
import PooledCrypto.Main
import PooledCrypto.Parameters.Basic
import PooledCrypto.Parameters.Factory
import PooledCrypto.Pool.Basic
import PooledCrypto.Pool.Directory
import PooledCrypto.Pool.Loans
import PooledCrypto.Proofs.Absorbing
import PooledCrypto.Proofs.Accounts
import PooledCrypto.Proofs.Actions
import PooledCrypto.Proofs.Adaptors
import PooledCrypto.Proofs.Backends
import PooledCrypto.Proofs.Balance
import PooledCrypto.Proofs.Base64Text
import PooledCrypto.Proofs.BoundedStack
import PooledCrypto.Proofs.BuildOnce
import PooledCrypto.Proofs.CipherStreams
import PooledCrypto.Proofs.CommandLines
import PooledCrypto.Proofs.Completeness
import PooledCrypto.Proofs.Configurations
import PooledCrypto.Proofs.Continuity
import PooledCrypto.Proofs.Counting
import PooledCrypto.Proofs.DeclaredSizes
import PooledCrypto.Proofs.Decomposition
import PooledCrypto.Proofs.Dispatch
import PooledCrypto.Proofs.Durability
import PooledCrypto.Proofs.EngineEntries
import PooledCrypto.Proofs.ExactlyOnce
import PooledCrypto.Proofs.FailedCalls
import PooledCrypto.Proofs.Feeding
import PooledCrypto.Proofs.FileEncryption
import PooledCrypto.Proofs.FileHashing
import PooledCrypto.Proofs.FlatForms
import PooledCrypto.Proofs.GroupLaw
import PooledCrypto.Proofs.Isolation
import PooledCrypto.Proofs.Jobs
import PooledCrypto.Proofs.JsonContents
import PooledCrypto.Proofs.KeyPools
import PooledCrypto.Proofs.KeyedContexts
import PooledCrypto.Proofs.Ledger
import PooledCrypto.Proofs.Lifecycle
import PooledCrypto.Proofs.Lockstep
import PooledCrypto.Proofs.NestedUse
import PooledCrypto.Proofs.PeakUse
import PooledCrypto.Proofs.PoolCapacity
import PooledCrypto.Proofs.PoolOrder
import PooledCrypto.Proofs.PoolsByName
import PooledCrypto.Proofs.Preparation
import PooledCrypto.Proofs.PrimeOrders
import PooledCrypto.Proofs.PriorityList
import PooledCrypto.Proofs.PublicImports
import PooledCrypto.Proofs.PublicPoints
import PooledCrypto.Proofs.ReadLoops
import PooledCrypto.Proofs.Registration
import PooledCrypto.Proofs.Reimport
import PooledCrypto.Proofs.Residues
import PooledCrypto.Proofs.Sealing
import PooledCrypto.Proofs.SecondCoordinates
import PooledCrypto.Proofs.SecretNumbers
import PooledCrypto.Proofs.SharedSecrets
import PooledCrypto.Proofs.SignatureForms
import PooledCrypto.Proofs.Startup
import PooledCrypto.Proofs.Steadiness
import PooledCrypto.Proofs.SupportedNames
import PooledCrypto.Proofs.TagAndKeySizes
import PooledCrypto.Proofs.Tracking
import PooledCrypto.Proofs.Transitions
import PooledCrypto.Proofs.TwoForms
import PooledCrypto.Proofs.TwoRuns
import PooledCrypto.Proofs.TwoSessions
import PooledCrypto.Proofs.Undisturbed
import PooledCrypto.Proofs.UniformPools
import PooledCrypto.Proofs.Verdicts
import PooledCrypto.Proofs.Watching
import PooledCrypto.Provider.Agreement
import PooledCrypto.Provider.Catalogue
import PooledCrypto.Provider.Context
import PooledCrypto.Provider.Enciphering
import PooledCrypto.Provider.Hashing
import PooledCrypto.Provider.Key
import PooledCrypto.Provider.Registry
import PooledCrypto.Provider.Signing
import PooledCrypto.Provider.Software
import PooledCrypto.Provider.State
import PooledCrypto.Provider.Table
import PooledCrypto.Room
import PooledCrypto.Session.Command
import PooledCrypto.Session.Recipe
import PooledCrypto.Session.Report
import PooledCrypto.Session.Script
import PooledCrypto.Session.Slots
import PooledCrypto.Session.Step
import PooledCrypto.Session.Work
import PooledCrypto.Streaming.Function
import PooledCrypto.Text.Printable
import PooledCrypto.Text.Quoted
import PooledCrypto.Word.Basic
import PooledCrypto.Word.Grid
