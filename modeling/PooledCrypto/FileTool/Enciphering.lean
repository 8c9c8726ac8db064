import PooledCrypto.Bytes.Base64
import PooledCrypto.FileTool.Arguments
import PooledCrypto.FileTool.Job

/-!
# Encrypting and decrypting a file

Keys are given and printed in Base64. An encrypted file has the flat form of a cipher, with a nonce
that is drawn for the file.

What can fail comes before the writing: the output file is written last, and only if all went well.
-/

namespace PooledCrypto.FileTool

variable {m : Type → Type} [Monad m] [FileAccess m]

/-- The cipher that files are encrypted with. -/
def fileCipher : Job m Aead.Kind := Job.ask (Provider.get .aead (Aead.Kind.name .aesGcm))

/-- Bytes as Base64 text. -/
def base64Text (bytes : Bytes) : String :=
  String.ofList ((Base64.encode bytes).map fun b => Char.ofNat b.toNat)

/-- Generates a key and prints it. -/
def generateKey (bits : Nat) : Job m Unit := do
  let kind ← fileCipher
  let factory := Provider.aeadGenerator kind
  let generator ←
    (Job.askState (factory.configure fun _ => ⟨bits⟩)).within "Unsupported key size"
  let key ← Job.askState (generator.call .offloaded generator.core)
  let raw ← Job.ask (Action.ofExcept ((Provider.Key.aead key).encode .raw))
  Job.note s!"Generated {key.bits}-bit {kind.name} key"
  Job.print (base64Text raw)

/-- The cipher of a key in Base64, which may have blanks around it. -/
def loadCipher (key : String) : Job m (Provider.Operation Aead.Cipher) := do
  match Base64.decode (Bytes.ofText (Text.trimmed key)) with
  | .error f => Job.fail ((Report.plain f.text).within "Key is not valid base64")
  | .ok raw =>
    let kind ← fileCipher
    let decoded := Action.ofExcept (Provider.decodeAeadKey kind .raw raw)
    let key ← (Job.ask decoded).within s!"Invalid {kind.name} key"
    Job.askState (Provider.cipherFactory key).create

/-- The content of a file. -/
def readWhole (path : String) : Job m Bytes := do
  let result ← Job.readFile path
  let whole := (result.map List.flatten).mapError ReadFault.fault
  Job.expect s!"Failed to read {path}" whole

/-- The associated data of a job. Leaving it out is the same as giving none. -/
def CipherJob.associatedData (job : CipherJob) : Bytes :=
  (job.associated.map Bytes.ofText).getD []

/-- Encrypts a file. -/
def encryptFile (job : CipherJob) : Job m Unit := do
  let cipher ← loadCipher job.key
  let plaintext ← readWhole job.input
  let work := Provider.Enciphering.encrypt cipher.core none job.associatedData plaintext
  let sealed ← (Job.askState (cipher.call .offloaded work)).within "Encryption failed"
  Job.writeFile job.output sealed
  Job.note s!"Encrypted {plaintext.length} bytes into {sealed.length} bytes"

/-- Decrypts a file. -/
def decryptFile (job : CipherJob) : Job m Unit := do
  let cipher ← loadCipher job.key
  let sealed ← readWhole job.input
  let work := Action.ofExcept (cipher.core.decrypt sealed job.associatedData)
  let plaintext ← (Job.askState (cipher.call .offloaded work)).within "Decryption failed"
  Job.writeFile job.output plaintext
  Job.note s!"Decrypted {plaintext.length} bytes"

end PooledCrypto.FileTool
