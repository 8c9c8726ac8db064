import PooledCrypto.FileTool.Tool
import PooledCrypto.Proofs.Base64Text
import PooledCrypto.Proofs.CommandLines
import PooledCrypto.Proofs.Jobs
import PooledCrypto.Proofs.KeyedContexts
import PooledCrypto.Proofs.Sealing
import PooledCrypto.Proofs.Startup

/-!
# Encrypting files and decrypting them

The tool takes a key as text, reads the input, has it encrypted or decrypted, and writes the output.
What a run comes to can be said without these steps. There is something to write if key and input
are in order: of an input that is encrypted, what the cipher makes of it under some nonce
(`Seals`); of one that is decrypted, what it was made of (`Opens`). The two are one relation, read
in either direction (`IsSealed`). And what there is to write is written as a whole, or nothing is
touched (`AllOrNothing`).

A write can be refused for its path, and then nothing has happened. That it breaks off half-way, as
on a disk that is full, is not among the faults that files have here.

A run needs the workers that it was told to have, and one that encrypts needs a nonce. If it has
these, it fails only where there is nothing to write, or no way to write it. A text has to be within
the limit of the cipher for there to be something; what lies beyond it is refused
(`round_trips_refused`).

Both jobs have the same form, so they are gone through once (`ends_cipherJob`). That encrypting and
decrypting are inverse to each other is then a matter of the relation alone (`RoundTrip.runs`).
-/

namespace PooledCrypto.FileTool

open Aead (Cipher)
open Session (Reports)

/-- Runs the tool on a disk. -/
def ran (around : Provider.State.Surroundings) (args : List String) (d : Disk) : Outcome × Disk :=
  (run around args : StateM Disk Outcome) d

/-- The workers that a run is to have can be started. -/
def Staffed (around : Provider.State.Surroundings) (workers : Option Nat) : Prop :=
  ∀ count, workers = some count → around.threads.Suffice count

/-- A run that is to write something to the path either succeeded and wrote it, all of it, or failed
and left the disk as it was. If all was ready it did not fail where there was something to write and
a way to do so. -/
def AllOrNothing (ready : Prop) (d : Disk) (path : String) (P : Bytes → Prop)
    (after : Outcome × Disk) : Prop :=
  (after.1.status = Outcome.success ∧ ∃ content files, P content
      ∧ d.files.write path content = .ok files ∧ after.2 = { d with files })
    ∨ (after.1.status = Outcome.failed ∧ after.2 = d
      ∧ (ready → ∀ content files, P content → d.files.write path content ≠ .ok files))

/-! ## Keys and ciphers -/

/-- The cipher of a key for files. Its tags have sixteen bytes. -/
def cipherOf (raw : Bytes) : Cipher := ⟨Aead.Gcm.engine raw 16 (Nat.le_refl 16), 12, 16, rfl, rfl⟩

/-- The text gives the bytes for a key. -/
def Gives (text : String) (raw : Bytes) : Prop :=
  Spells text raw ∧ raw.length ∈ Aead.Kind.keySizes .aesGcm

/-- The bytes are what the cipher makes of a text under some nonce. -/
def IsSealed (c : Cipher) (associated plaintext flat : Bytes) : Prop :=
  ∃ nonce, nonce.length = c.nonceSize ∧ c.encrypt nonce associated plaintext = .ok flat

/-- There are a key and an input, and the cipher of the key and the input fit together. -/
def CipherJob.Fits (job : CipherJob) (files : Files) (R : Cipher → Bytes → Prop) : Prop :=
  ∃ raw content, Gives job.key raw ∧ files.read job.input = .ok content ∧ R (cipherOf raw) content

/-- The bytes are what encrypting can make of the input. -/
def CipherJob.Seals (job : CipherJob) (files : Files) (sealed : Bytes) : Prop :=
  job.Fits files fun c content => IsSealed c job.associatedData content sealed

/-- The bytes are what the input was made of. -/
def CipherJob.Opens (job : CipherJob) (files : Files) (plaintext : Bytes) : Prop :=
  job.Fits files fun c content => IsSealed c job.associatedData plaintext content

/-- A file that is encrypted by one job can be decrypted by the other. All paths may be the same. -/
structure RoundTrip (d : Disk) (content : Bytes) (job job' : CipherJob) : Prop where
  key : ∃ raw, Gives job.key raw ∧ Gives job'.key raw
  associated : job'.associatedData = job.associatedData
  input : d.files.read job.input = .ok content
  between : job'.input = job.output
  writable : d.files.Writable job.output ∧ d.files.Writable job'.output
  /-- The cipher takes texts up to its own limit. -/
  within : content.length ≤ Aead.Gcm.maxLength
    ∧ job.associatedData.length ≤ Aead.Gcm.maxLength

/-- How files are encrypted and decrypted. -/
structure EnciphersFiles : Prop where
  /-- Every file can be asked for, with or without workers. -/
  asked : ∀ verbose workers job, (∀ threads, workers = some threads → threads < 1 <<< 64) →
    job.input ≠ "" → job.output ≠ "" →
      (∃ args, readArguments args = .ok ⟨verbose, workers, .encrypt job⟩)
        ∧ ∃ args, readArguments args = .ok ⟨verbose, workers, .decrypt job⟩
  /-- Leaving the associated data out is the same as giving an empty text. -/
  omitted : ∀ key input output,
    CipherJob.associatedData ⟨key, input, output, none⟩
      = CipherJob.associatedData ⟨key, input, output, some ""⟩
  /-- Decrypting gives back what was encrypted, whatever was drawn for either run. What is between
  is 28 bytes longer. -/
  round : ∀ around around' args args' verbose verbose' workers workers' job job' d content,
    readArguments args = .ok ⟨verbose, workers, .encrypt job⟩ →
    readArguments args' = .ok ⟨verbose', workers', .decrypt job'⟩ →
    Staffed around workers → around.entropy.Works → Staffed around' workers' →
    RoundTrip d content job job' →
      ∃ o o' d₁ d₂ sealed, ran around args d = (o, d₁) ∧ o.status = Outcome.success
        ∧ d₁.files.read job.output = .ok sealed ∧ sealed.length = content.length + 28
        ∧ ran around' args' d₁ = (o', d₂) ∧ o'.status = Outcome.success
        ∧ d₂.files.read job'.output = .ok content
  /-- A run that encrypts writes what can be made of the input, or nothing. -/
  encrypts : ∀ around args verbose workers job d,
    readArguments args = .ok ⟨verbose, workers, .encrypt job⟩ →
      AllOrNothing (Staffed around workers ∧ around.entropy.Works) d job.output
        (job.Seals d.files) (ran around args d)
  /-- A run that decrypts writes what the input was made of, or nothing. -/
  decrypts : ∀ around args verbose workers job d,
    readArguments args = .ok ⟨verbose, workers, .decrypt job⟩ →
      AllOrNothing (Staffed around workers) d job.output (job.Opens d.files) (ran around args d)
  /-- Without its workers a run fails before it has looked at any file. -/
  unstaffed : ∀ around args verbose workers command d,
    readArguments args = .ok ⟨verbose, workers, command⟩ → ¬Staffed around workers →
      ∃ o, ran around args d = (o, d) ∧ o.status = Outcome.failed
  /-- A run that does not succeed leaves every file as it was. -/
  untouched : ∀ around args verbose workers command job d,
    readArguments args = .ok ⟨verbose, workers, command⟩ →
    command = .encrypt job ∨ command = .decrypt job →
    (ran around args d).1.status ≠ Outcome.success → (ran around args d).2 = d
  /-- A text that is Base64 gives a key exactly if the bytes are as many as AES takes. -/
  keys : ∀ text raw, Spells text raw → ((∃ raw', Gives text raw') ↔ raw.length ∈ [16, 24, 32])
  /-- Without a key or an input there is nothing to write. -/
  missing : ∀ (job : CipherJob) files, (∀ raw, ¬Gives job.key raw)
    ∨ (∃ f, files.read job.input = .error f) → ∀ out, ¬job.Seals files out ∧ ¬job.Opens files out
  /-- There is something to write of an input up to the limit of the cipher, and of no other. -/
  limit : ∀ (job : CipherJob) files raw content, Gives job.key raw →
    files.read job.input = .ok content → ((∃ out, job.Seals files out)
      ↔ content.length ≤ Aead.Gcm.maxLength ∧ job.associatedData.length ≤ Aead.Gcm.maxLength)
  /-- There is nothing to write of an input that is too short or not authentic. -/
  rejected : ∀ (job : CipherJob) files raw content, Gives job.key raw →
    files.read job.input = .ok content →
    content.length < 28 ∨ (∃ e, (cipherOf raw).decrypt content job.associatedData = .error e) →
      ∀ out, ¬job.Opens files out

/-- A text gives one key at most. -/
theorem Gives.unique {text : String} {raw raw' : Bytes} (h : Gives text raw)
    (h' : Gives text raw') : raw = raw' := h.1.unique h'.1

/-- With one key and one input there is one cipher and one content to fit it. -/
theorem CipherJob.Fits.holds {job : CipherJob} {files : Files} {R : Cipher → Bytes → Prop}
    {raw content : Bytes} (h : job.Fits files R) (hgives : Gives job.key raw)
    (hread : files.read job.input = .ok content) : R (cipherOf raw) content := by
  obtain ⟨raw', content', hgives', hread', hfits⟩ := h
  obtain rfl := hgives'.unique hgives
  obtain rfl := Except.ok.inj (hread'.symm.trans hread)
  exact hfits

variable {b : Bench} {d : Disk} {state : Provider.State} {output : List Output} {job : CipherJob}
  {ready : Prop}

open Job

theorem decodeAeadKey_of_mem {raw : Bytes} (h : raw.length ∈ Aead.Kind.keySizes .aesGcm) :
    Provider.decodeAeadKey .aesGcm .raw raw = .ok ⟨.aesGcm, raw, h⟩ := by
  show Aead.Key.ofBytes .aesGcm raw = .ok ⟨.aesGcm, raw, h⟩
  rw [Aead.Key.ofBytes, dif_pos h]

theorem decodeAeadKey_of_not_mem {raw : Bytes} (h : raw.length ∉ Aead.Kind.keySizes .aesGcm) :
    Provider.decodeAeadKey .aesGcm .raw raw
      = .error (.invalidInput (.keyLength (Aead.Kind.name .aesGcm) raw.length)) := by
  show Aead.Key.ofBytes .aesGcm raw
    = .error (.invalidInput (.keyLength (Aead.Kind.name .aesGcm) raw.length))
  rw [Aead.Key.ofBytes, dif_neg h]

/-- The cipher for files is the one that the key has by default. -/
theorem create_cipherOf {raw : Bytes} (h : raw.length ∈ Aead.Kind.keySizes .aesGcm)
    (state : Provider.State) : (Provider.cipherFactory ⟨.aesGcm, raw, h⟩).create state
      = (.ok ⟨cipherOf raw, state.executor⟩, state) := by
  have hengine : Aead.Key.engine ⟨.aesGcm, raw, h⟩ 16
      = .ok (Aead.Gcm.engine raw 16 (Nat.le_refl 16)) := by
    refine if_pos ?_
    simpa [Aead.Kind.keySizes] using h
  have hcipher : Action.ofExcept (Aead.Key.cipher ⟨.aesGcm, raw, h⟩ 16) state
      = (.ok (cipherOf raw), state) := by
    rw [Aead.Key.cipher_of_engine hengine]
    rfl
  exact Action.bind_of_ok hcipher

/-- The cipher of the key, on the executor of the provider. -/
theorem finds_loadCipher (key : String) (state : Provider.State) (output : List Output) (d : Disk) :
    Finds ready (loadCipher key) ⟨Provider.software state, output⟩ d
      fun o s => (∃ raw, Gives key raw ∧ o = ⟨cipherOf raw, state.executor⟩) ∧ s = state := by
  unfold loadCipher
  cases hread : Base64.decode (Bytes.ofText (Text.trimmed key)) with
  | error f =>
      refine finds_fail ?_
      rintro - _ _ ⟨⟨raw, ⟨hspells, -⟩, -⟩, -⟩
      rw [decode_trimmed_iff.mpr hspells] at hread
      exact absurd hread (by simp)
  | ok raw =>
      have hspells : Spells key raw := decode_trimmed_iff.mp hread
      obtain ⟨algorithms, hkind⟩ : ∃ algorithms, (fileCipher : Job (StateM Disk) Aead.Kind)
          ⟨Provider.software state, output⟩ d = ((.ok .aesGcm, ⟨⟨algorithms, state⟩, output⟩), d) :=
        ⟨_, rfl⟩
      refine finds_bind_of_ok hkind ?_
      by_cases hsize : raw.length ∈ Aead.Kind.keySizes .aesGcm
      · let key : Aead.Key := ⟨.aesGcm, raw, hsize⟩
        have hdecoded : Action.ofExcept (Provider.decodeAeadKey .aesGcm .raw raw)
            (⟨algorithms, state⟩ : Provider) = (.ok key, ⟨algorithms, state⟩) := by
          rw [decodeAeadKey_of_mem hsize]
          rfl
        have hcreated : Provider.onState (Provider.cipherFactory key).create ⟨algorithms, state⟩
            = (.ok ⟨cipherOf raw, state.executor⟩, ⟨algorithms, state⟩) := by
          unfold Provider.onState
          rw [create_cipherOf hsize]
        refine finds_bind_of_ok (within_of_ok (askNoting_of_ok hdecoded)) ?_
        exact finds_ok ⟨⟨raw, ⟨hspells, hsize⟩, rfl⟩, rfl⟩ (askNoting_of_ok hcreated)
      · have hrefused : Action.ofExcept (Provider.decodeAeadKey .aesGcm .raw raw)
            (⟨algorithms, state⟩ : Provider) = (.error (.error (.invalidInput
              (.keyLength (Aead.Kind.name .aesGcm) raw.length))), ⟨algorithms, state⟩) := by
          rw [decodeAeadKey_of_not_mem hsize]
          rfl
        refine finds_report ?_ (bind_of_error (within_of_report (askNoting_of_error hrefused)))
        rintro - _ _ ⟨⟨raw', ⟨hspells', hsize'⟩, -⟩, -⟩
        rw [hspells'.unique hspells] at hsize'
        exact hsize hsize'

theorem finds_readWhole (path : String) (b : Bench) (d : Disk) :
    Finds ready (readWhole path) b d
      fun content s => d.files.read path = .ok content ∧ s = b.provider.state := by
  have hread : (readFile path : Job (StateM Disk) (Except ReadFault (List Bytes))) b d
      = ((.ok ((d.files.read path).map (d.reader.cut bufferSize)), b), d) := rfl
  refine finds_bind_of_ok hread (finds_expect ?_ ?_)
  · intro content hwhole
    cases hfile : d.files.read path with
    | error f =>
        rw [hfile] at hwhole
        exact nomatch hwhole
    | ok read =>
        rw [hfile] at hwhole
        -- the pieces that the reader gives are the content again
        rw [← Except.ok.inj hwhole, d.reader.flatten_cut bufferSize read (by decide)]
        exact ⟨rfl, rfl⟩
  · rintro f hwhole content _ ⟨hfile, -⟩
    rw [hfile] at hwhole
    exact nomatch hwhole

variable {α κ : Type} {o : Provider.Operation κ} {P : α → Provider.State → Prop}

/-- A call that the executor answers. -/
theorem finds_call {work : Action Provider.State α} {result : Except Error α}
    (hr : Reports o .offloaded) (hwork : (work b.provider.state).1 = result.mapError .error)
    (hok : ∀ x s, result = .ok x → P x s)
    (herror : ∀ e : Error, result = .error e → ready → ∀ x s, ¬P x s) :
    Finds ready (askState (o.call .offloaded work)) b d P := by
  refine finds_ask (Prod.ext (?_ : _ = result.mapError Failure.error) rfl) (fun x => hok x _) herror
  exact Session.fst_call_of_result hr hwork

/-- Under whichever nonce is drawn. -/
theorem finds_encrypt {o : Provider.Operation Cipher} (hr : Reports o .offloaded)
    (hroom : o.core.nonceSize ≤ Room.most) (hready : ready → b.provider.state.entropy.Works)
    (associated plaintext : Bytes) :
    Finds ready (askState (o.call .offloaded
      (Provider.Enciphering.encrypt o.core none associated plaintext))) b d
      fun sealed _ => IsSealed o.core associated plaintext sealed := by
  rcases Provider.encrypt_drawn_cases hroom b.provider.state associated plaintext with
    ⟨nonce, entropy, hn, hwork⟩ | ⟨hbroken, why, entropy, hwork⟩
  · refine finds_call hr (congrArg Prod.fst hwork) (fun sealed _ h => ⟨nonce, hn, h⟩) ?_
    rintro e herror - sealed _ ⟨nonce', hn', h⟩
    obtain ⟨flat, hflat⟩ := Cipher.encrypt_of_admits hn (Cipher.encrypt_eq_ok h).1
    rw [hflat] at herror
    exact absurd herror (by simp)
  · have hfailed := Action.mapError_error (α := Bytes) (Error.randomSource why)
    refine finds_call hr ((congrArg Prod.fst hwork).trans hfailed.symm) ?_ ?_
    · exact fun _ _ h => absurd h (by simp)
    · exact fun _ _ h => absurd (hready h) hbroken

theorem finds_decrypt {o : Provider.Operation Cipher} (hr : Reports o .offloaded)
    (flat associated : Bytes) :
    Finds ready (askState (o.call .offloaded (Action.ofExcept (o.core.decrypt flat associated)))) b d
      fun plaintext _ => IsSealed o.core associated plaintext flat := by
  have hwork := congrArg Prod.fst
    (Action.ofExcept_apply (o.core.decrypt flat associated) b.provider.state)
  refine finds_call hr hwork (fun plaintext _ h => Cipher.decrypt_eq_ok_iff.mp h) ?_
  intro e herror _ plaintext _ h
  rw [Cipher.decrypt_eq_ok_iff.mpr h] at herror
  exact absurd herror (by simp)

/-! ## The jobs -/

/-- Two jobs of one form: what they do with cipher and input is all that they differ in. -/
theorem ends_cipherJob {step : Provider.Operation Cipher → Bytes → Job (StateM Disk) Bytes}
    {R : Cipher → Bytes → Bytes → Prop} {headline : String} {text : Bytes → Bytes → String}
    (hstep : ∀ raw content b, b.provider.state = state →
      Finds ready (step ⟨cipherOf raw, state.executor⟩ content) b d
        fun out _ => R (cipherOf raw) content out) (job : CipherJob) (output : List Output) :
    Ends ready d job.output (fun out => job.Fits d.files fun c content => R c content out)
      ((loadCipher job.key >>= fun o => readWhole job.input >>= fun content =>
        (step o content).within headline >>= fun out =>
          writeFile job.output out >>= fun _ => note (text content out) : Job (StateM Disk) Unit)
        ⟨Provider.software state, output⟩ d) := by
  refine (finds_loadCipher job.key state output d).ends ?_ ?_
  · rintro _ b ⟨⟨raw, hgives, rfl⟩, hstate⟩
    refine (finds_readWhole job.input b d).ends ?_ ?_
    · rintro content b' ⟨hread, hsame⟩
      refine (hstep raw content b' (hsame.trans hstate)).within.ends ?_ ?_
      · intro out b hout
        exact ends_write ⟨raw, content, hgives, hread, hout⟩
      · intro hnone out hfits
        exact hnone out state (hfits.holds hgives hread)
    · rintro hnone out ⟨_, content, _, hread, _⟩
      exact hnone content _ ⟨hread, rfl⟩
  · rintro hnone out ⟨raw, _, hgives, _⟩
    exact hnone _ _ ⟨⟨raw, hgives, rfl⟩, rfl⟩

variable (hr : ∀ core, Reports (⟨core, state.executor⟩ : Provider.Operation Cipher) .offloaded)

include hr

theorem ends_encryptFile (hready : ready → state.entropy.Works) (job : CipherJob)
    (output : List Output) (d : Disk) :
    Ends ready d job.output (job.Seals d.files)
      ((encryptFile job : Job (StateM Disk) Unit) ⟨Provider.software state, output⟩ d) := by
  have hroom (raw : Bytes) : (cipherOf raw).nonceSize ≤ Room.most := by
    show 12 ≤ Room.most
    decide
  refine ends_cipherJob (fun raw content b hstate => ?_) job output
  rw [← hstate] at hready
  exact finds_encrypt (hr _) (hroom raw) hready job.associatedData content

theorem ends_decryptFile (job : CipherJob) (output : List Output) (d : Disk) :
    Ends ready d job.output (job.Opens d.files)
      ((decryptFile job : Job (StateM Disk) Unit) ⟨Provider.software state, output⟩ d) :=
  ends_cipherJob (fun _ content _ _ => finds_decrypt (hr _) content job.associatedData) job output

omit hr

/-! ## Runs of the tool -/

theorem configurationFor_some (threads : Nat) :
    configurationFor (some threads) = .object
      [("execution", .object [("mode", .string "workers"), ("threads", Json.nat threads)])] := by
  have hafter : ¬"threads" < "mode" := by decide
  simp [configurationFor, Json.ofFields, ExecutionMode.toJson, Json.putField, hafter]

/-- The configuration says what work is run on, and nothing of capacities. -/
theorem ofJson_configurationFor (workers : Option Nat) : Config.ofJson (configurationFor workers)
    = .ok ⟨none, workers.elim .inPlace .workers⟩ := by
  cases workers with
  | none => rfl
  | some count =>
      rw [configurationFor_some]
      rfl

variable {around around' : Provider.State.Surroundings} {args args' : List String}
  {verbose verbose' : Bool} {workers workers' : Option Nat} {job' : CipherJob}

theorem starts_iff_staffed : ExecutionMode.Starts (workers.elim .inPlace .workers) around
    ↔ Staffed around workers := by
  cases workers with
  | none => exact iff_of_true trivial fun _ h => absurd h (by simp)
  | some count =>
      constructor
      · intro h _ hcount
        rwa [← Option.some.inj hcount]
      · intro h
        exact h count rfl

/-- With its workers a run has a new provider of the default capacity. -/
theorem resolved (h : Staffed around workers) : ∃ e : Executor, e.Tells
    ∧ ((Provider.defaultRegistry around).resolveDefault (configurationFor workers)).1
      = .ok (Provider.software (.start e around.entropy
          (Config.defaultCapacity around.processors))) := by
  let config : Config := ⟨none, workers.elim .inPlace .workers⟩
  have hstarts : config.execution.Starts around := starts_iff_staffed.mpr h
  obtain ⟨e, htells, hprovider⟩ := Provider.softwareOfConfig_of_starts hstarts
  rw [← Provider.softwareFactory_of_ok (ofJson_configurationFor workers)] at hprovider
  exact ⟨e, htells, congrArg Prod.fst (Provider.resolveDefault_of_ok hprovider)⟩

theorem resolved_of_not_staffed (h : ¬Staffed around workers) :
    ((Provider.defaultRegistry around).resolveDefault (configurationFor workers)).1
      = .error (.notFound .anyProvider) := by
  let config : Config := ⟨none, workers.elim .inPlace .workers⟩
  have hstarts : ¬config.execution.Starts around := mt starts_iff_staffed.mp h
  obtain ⟨why, herror⟩ := Provider.softwareOfConfig_of_not_starts hstarts
  rw [← Provider.softwareFactory_of_ok (ofJson_configurationFor workers)] at herror
  exact congrArg Prod.fst (Provider.resolveDefault_of_error herror)

theorem state_bind_apply {σ β : Type} (x : StateM σ α) (f : α → StateM σ β) (s : σ) :
    (x >>= f) s = f (x s).1 (x s).2 := rfl

theorem ran_of_not_staffed {command : Command}
    (hargs : readArguments args = .ok ⟨verbose, workers, command⟩)
    (h : ¬Staffed around workers) (d : Disk) :
    ∃ o, ran around args d = (o, d) ∧ o.status = Outcome.failed := by
  unfold ran run
  rw [hargs]
  dsimp only
  unfold invoke
  dsimp only
  rw [resolved_of_not_staffed h]
  exact ⟨_, rfl, rfl⟩

/-- A command that is understood is carried out if there are the workers for it. -/
theorem allOrNothing_of_ends {command : Command} {path : String} {P : Bytes → Prop}
    (hargs : readArguments args = .ok ⟨verbose, workers, command⟩)
    (hready : ready → Staffed around workers)
    (hends : ∀ (e : Executor) output, e.Tells → Ends ready d path P
      ((carryOut command : Job (StateM Disk) Unit) ⟨Provider.software (.start e around.entropy
        (Config.defaultCapacity around.processors)), output⟩ d)) :
    AllOrNothing ready d path P (ran around args d) := by
  by_cases hstaffed : Staffed around workers
  · obtain ⟨e, htells, hresolved⟩ := resolved hstaffed
    let p := Provider.software (.start e around.entropy (Config.defaultCapacity around.processors))
    have hjob := hends e (openingNotes p workers) htells
    unfold ran run
    rw [hargs]
    dsimp only
    unfold invoke
    dsimp only
    rw [hresolved]
    dsimp only
    rw [state_bind_apply]
    -- the outcome and the disk depend on how the job ends and on nothing else
    change Ends ready d path P
      (((carryOut command).run.run ⟨p, openingNotes p workers⟩ : StateM Disk _) d) at hjob
    generalize ((carryOut command).run.run ⟨p, openingNotes p workers⟩ : StateM Disk _) d
      = ended at hjob
    cases hjob with
    | all hfound hwritten => exact Or.inl ⟨rfl, _, _, hfound, hwritten, rfl⟩
    | nothing hnone => exact Or.inr ⟨rfl, rfl, hnone⟩
  · obtain ⟨o, hran, hfailed⟩ := ran_of_not_staffed hargs hstaffed d
    rw [hran]
    exact Or.inr ⟨hfailed, rfl, fun h => absurd (hready h) hstaffed⟩

/-! ## What is sealed and what is opened -/

variable {raw content associated plaintext flat : Bytes}

theorem isSealed_iff {c : Cipher} :
    IsSealed c associated plaintext flat ↔ c.decrypt flat associated = .ok plaintext :=
  Cipher.decrypt_eq_ok_iff.symm

/-- The nonce has twelve bytes and the tag sixteen. -/
theorem IsSealed.length_eq (h : IsSealed (cipherOf raw) associated plaintext flat) :
    flat.length = plaintext.length + 28 := by
  obtain ⟨nonce, -, he⟩ := h
  have hlength : flat.length = 12 + plaintext.length + 16 := (Cipher.encrypt_eq_ok he).2
  omega

theorem exists_isSealed_iff (raw associated plaintext : Bytes) :
    (∃ flat, IsSealed (cipherOf raw) associated plaintext flat)
      ↔ plaintext.length ≤ Aead.Gcm.maxLength ∧ associated.length ≤ Aead.Gcm.maxLength := by
  have hadmits : (cipherOf raw).engine.admits associated.length plaintext.length = true
      ↔ plaintext.length ≤ Aead.Gcm.maxLength ∧ associated.length ≤ Aead.Gcm.maxLength := by
    show (decide (associated.length ≤ Aead.Gcm.maxLength)
      && decide (plaintext.length ≤ Aead.Gcm.maxLength)) = true ↔ _
    rw [Bool.and_eq_true, decide_eq_true_eq, decide_eq_true_eq, and_comm]
  rw [← hadmits]
  constructor
  · rintro ⟨flat, nonce, -, he⟩
    exact (Cipher.encrypt_eq_ok he).1
  · intro h
    have hn : (Bytes.zeros 12).length = (cipherOf raw).nonceSize := rfl
    obtain ⟨flat, hflat⟩ := Cipher.encrypt_of_admits hn h
    exact ⟨flat, _, hn, hflat⟩

/-- An input is opened as one text at most. -/
theorem CipherJob.Opens.unique {files : Files} {out out' : Bytes} (h : job.Opens files out)
    (h' : job.Opens files out') : out = out' := by
  obtain ⟨raw, content, hgives, hread, hsealed⟩ := h
  have hsealed' := h'.holds hgives hread
  rw [isSealed_iff] at hsealed hsealed'
  exact Except.ok.inj (hsealed.symm.trans hsealed')

/-! ## Runs that encrypt and runs that decrypt -/

theorem allOrNothing_encrypt (hargs : readArguments args = .ok ⟨verbose, workers, .encrypt job⟩) :
    AllOrNothing (Staffed around workers ∧ around.entropy.Works) d job.output (job.Seals d.files)
      (ran around args d) :=
  allOrNothing_of_ends hargs And.left fun e output htells =>
    have hready : Staffed around workers ∧ around.entropy.Works →
        (Provider.State.start e around.entropy
          (Config.defaultCapacity around.processors)).entropy.Works := And.right
    ends_encryptFile (fun _ => Session.reports_of_tells htells _) hready job output d

theorem allOrNothing_decrypt (hargs : readArguments args = .ok ⟨verbose, workers, .decrypt job⟩) :
    AllOrNothing (Staffed around workers) d job.output (job.Opens d.files) (ran around args d) :=
  allOrNothing_of_ends hargs id fun _ output htells =>
    ends_decryptFile (fun _ => Session.reports_of_tells htells _) job output d

variable {path : String} {P : Bytes → Prop} {after : Outcome × Disk}

/-- Where there is something to write and a way to do so, a run succeeds. -/
theorem AllOrNothing.succeeds (h : AllOrNothing ready d path P after) (hready : ready)
    {content : Bytes} (hfound : P content) (hwritable : d.files.Writable path) :
    after.1.status = Outcome.success ∧ ∃ content files, P content
      ∧ d.files.write path content = .ok files ∧ after.2 = { d with files } := by
  rcases h with hall | ⟨-, -, hnone⟩
  · exact hall
  · obtain ⟨files, hfiles⟩ := hwritable.write content
    exact absurd hfiles (hnone hready content files hfound)

/-- Where there is nothing to write, or no way to do so, it fails. -/
theorem AllOrNothing.fails (h : AllOrNothing ready d path P after)
    (hnone : ∀ content files, P content → d.files.write path content ≠ .ok files) :
    after.1.status = Outcome.failed := by
  rcases h with ⟨-, content, files, hfound, hwrite, -⟩ | ⟨hfailed, -⟩
  · exact absurd hwrite (hnone content files hfound)
  · exact hfailed

theorem AllOrNothing.untouched (h : AllOrNothing ready d path P after)
    (hfailed : after.1.status ≠ Outcome.success) : after.2 = d := by
  rcases h with ⟨hsuccess, -⟩ | ⟨-, hsame, -⟩
  · exact absurd hsuccess hfailed
  · exact hsame

theorem RoundTrip.runs (h : RoundTrip d content job job')
    (hargs : readArguments args = .ok ⟨verbose, workers, .encrypt job⟩)
    (hargs' : readArguments args' = .ok ⟨verbose', workers', .decrypt job'⟩)
    (hready : Staffed around workers ∧ around.entropy.Works) (hready' : Staffed around' workers') :
    ∃ o o' d₁ d₂ sealed, ran around args d = (o, d₁) ∧ o.status = Outcome.success
      ∧ d₁.files.read job.output = .ok sealed ∧ sealed.length = content.length + 28
      ∧ ran around' args' d₁ = (o', d₂) ∧ o'.status = Outcome.success
      ∧ d₂.files.read job'.output = .ok content := by
  obtain ⟨raw, hgives, hgives'⟩ := h.key
  -- the first run finds something to write, and writes it
  obtain ⟨flat, hflat⟩ := (exists_isSealed_iff raw _ _).mpr h.within
  have hseals : job.Seals d.files flat := ⟨raw, content, hgives, h.input, hflat⟩
  obtain ⟨hstatus, sealed, files, hsealed, hwrite, hdisk⟩ :=
    (allOrNothing_encrypt hargs).succeeds hready hseals h.writable.1
  have hsealed' : IsSealed (cipherOf raw) job.associatedData content sealed :=
    hsealed.holds hgives h.input
  have hread := Files.read_write_self hwrite
  -- the second run reads what the first one wrote
  let d₁ : Disk := { d with files }
  have hopens : job'.Opens d₁.files content := by
    refine ⟨raw, sealed, hgives', ?_, ?_⟩
    · rw [h.between]
      exact hread
    · rw [h.associated]
      exact hsealed'
  have hwritable : d₁.files.Writable job'.output := h.writable.2.of_write hwrite
  obtain ⟨hstatus', plaintext, files', hplaintext, hwrite', hdisk'⟩ :=
    (allOrNothing_decrypt hargs').succeeds hready' hopens hwritable
  obtain rfl := hplaintext.unique hopens
  refine ⟨_, _, d₁, { d₁ with files := files' }, sealed, Prod.ext rfl hdisk, hstatus, hread,
    hsealed'.length_eq, Prod.ext rfl hdisk', hstatus', Files.read_write_self hwrite'⟩

/-- **Encrypted files.**

Take any files, any key that AES has, and any text and associated data within the limit of the
cipher. What is encrypted and then decrypted is as it was, if the source gives a nonce and the
workers that are asked for can be started, and the result may take the place of the input. The output
is written last and as a whole: a run that fails, for whatever reason, has touched nothing. -/
theorem files_enciphered : EnciphersFiles where
  asked verbose workers job hworkers hinput houtput :=
    have hread := readArguments_cipherArguments verbose hworkers hinput houtput
    ⟨⟨_, hread.1⟩, ⟨_, hread.2⟩⟩
  omitted _ _ _ := by
    have hempty : Bytes.ofText "" = [] := Bytes.ofText_eq ""
    exact hempty.symm
  round _ _ _ _ _ _ _ _ _ _ _ _ hargs hargs' hstaffed hworks hstaffed' h :=
    h.runs hargs hargs' ⟨hstaffed, hworks⟩ hstaffed'
  encrypts _ _ _ _ _ _ hargs := allOrNothing_encrypt hargs
  decrypts _ _ _ _ _ _ hargs := allOrNothing_decrypt hargs
  unstaffed _ _ _ _ _ d hargs h := ran_of_not_staffed hargs h d
  untouched around args verbose workers command job d hargs hcommand hfailed := by
    rcases hcommand with rfl | rfl
    · exact (allOrNothing_encrypt hargs).untouched hfailed
    · exact (allOrNothing_decrypt hargs).untouched hfailed
  keys text raw hspells := by
    constructor
    · rintro ⟨raw', hspells', hsize⟩
      rwa [hspells'.unique hspells] at hsize
    · intro hsize
      exact ⟨raw, hspells, hsize⟩
  missing job files h out := by
    have hnone : ∀ R, ¬job.Fits files R := by
      rintro R ⟨raw, content, hgives, hread, -⟩
      rcases h with hkey | ⟨f, hinput⟩
      · exact hkey raw hgives
      · rw [hinput] at hread
        exact absurd hread (by simp)
    exact ⟨hnone _, hnone _⟩
  limit job files raw content hgives hread := by
    rw [← exists_isSealed_iff raw]
    constructor
    · rintro ⟨out, hseals⟩
      exact ⟨out, hseals.holds hgives hread⟩
    · rintro ⟨out, hsealed⟩
      exact ⟨out, raw, content, hgives, hread, hsealed⟩
  rejected job files raw content hgives hread h out hopens := by
    have hsealed : IsSealed (cipherOf raw) job.associatedData out content :=
      hopens.holds hgives hread
    rcases h with hshort | ⟨e, hforged⟩
    · have hlength := hsealed.length_eq
      omega
    · rw [isSealed_iff, hforged] at hsealed
      exact absurd hsealed (by simp)

/-! ## Round trips that are refused -/

/-- Nothing is made of a text beyond the limit of the cipher. -/
theorem fails_of_long (hargs : readArguments args = .ok ⟨verbose, workers, .encrypt job⟩)
    (hgives : Gives job.key raw) (hread : d.files.read job.input = .ok content)
    (hlong : Aead.Gcm.maxLength < content.length) :
    (ran around args d).1.status = Outcome.failed := by
  refine (allOrNothing_encrypt hargs).fails fun out _ hseals => ?_
  have hwithin := (exists_isSealed_iff raw _ _).mp ⟨out, hseals.holds hgives hread⟩
  exact absurd hwithin.1 (Nat.not_le.mpr hlong)

theorem fails_of_not_writable (hargs : readArguments args = .ok ⟨verbose, workers, .encrypt job⟩)
    (h : ¬d.files.Writable job.output) : (ran around args d).1.status = Outcome.failed :=
  (allOrNothing_encrypt hargs).fails fun out files _ hwrite => h ⟨out, files, hwrite⟩

theorem fails_of_not_staffed {command : Command}
    (hargs : readArguments args = .ok ⟨verbose, workers, command⟩) (h : ¬Staffed around workers) :
    (ran around args d).1.status = Outcome.failed := by
  obtain ⟨o, hran, hfailed⟩ := ran_of_not_staffed hargs h d
  rw [hran]
  exact hfailed

/-- The path of a letter leads to an entry of the directory where paths start. -/
theorem target_letter {files : Files} {name : String} (h : name = "a" ∨ name = "d") :
    files.target name = .ok (.entry (files.here ++ [name]) false) := by
  have hnames : name.splitOn "/" = [name] := by
    unfold String.splitOn
    rw [if_neg (by decide)]
    rcases h with rfl | rfl
    all_goals
      -- one step over the letter, and one at the end
      unfold String.splitOnAux
      rw [if_neg (by decide)]
      dsimp only
      rw [if_neg (by decide)]
      unfold String.splitOnAux
      rw [if_pos (by decide)]
      decide
  have habsolute : name.startsWith "/" = false := by rcases h with rfl | rfl <;> decide +kernel
  have hslash : name.endsWith "/" = false := by rcases h with rfl | rfl <;> decide +kernel
  have hpath : Path.ofText name = .ok ⟨false, [], some name, false⟩ := by
    unfold Path.ofText
    rw [hnames, habsolute, hslash]
    rcases h with rfl | rfl <;> rfl
  have hsize : ¬maxNameSize < name.utf8ByteSize := by rcases h with rfl | rfl <;> decide
  unfold Files.target
  rw [hpath]
  simp [Files.descend, hsize]

/-- The key, the input and the associated data are fine, and still there is no round trip: with one
byte more than the cipher takes, with a directory where the output should go, and with two workers
where one can be started. -/
theorem round_trips_refused :
    let job (output : String) : CipherJob := ⟨"AAAAAAAAAAAAAAAAAAAAAA==", "a", output, none⟩
    let long : Disk := ⟨⟨[], [(["a"], .file (Bytes.zeros (Aead.Gcm.maxLength + 1)))]⟩, .full⟩
    let short : Disk := ⟨⟨[], [(["a"], .file [104, 101, 108, 108, 111]), (["d"], .directory)]⟩, .full⟩
    let around : Provider.State.Surroundings := ⟨.seeded [], 1, false, ⟨1, "no more threads"⟩⟩
    let status workers output d :=
      (ran around (cipherArguments false workers .encrypt (job output)) d).1.status
    Gives (job "b").key (Bytes.zeros 16)
      ∧ long.files.read "a" = .ok (Bytes.zeros (Aead.Gcm.maxLength + 1))
      ∧ short.files.read "a" = .ok [104, 101, 108, 108, 111]
      ∧ status none "b" long = Outcome.failed
      ∧ status none "d" short = Outcome.failed
      ∧ status (some 2) "b" short = Outcome.failed := by
  intro job long short around status
  have hgives : Gives "AAAAAAAAAAAAAAAAAAAAAA==" (Bytes.zeros 16) :=
    ⟨⟨[], [], by simp, by simp, by decide⟩, by decide⟩
  have hlong : long.files.read "a" = .ok (Bytes.zeros (Aead.Gcm.maxLength + 1)) := by
    unfold Files.read
    rw [target_letter (Or.inl rfl)]
    rfl
  have hshort : short.files.read "a" = .ok [104, 101, 108, 108, 111] := by
    unfold Files.read
    rw [target_letter (Or.inl rfl)]
    rfl
  have hargs (workers : Option Nat) (hworkers : ∀ n, workers = some n → n < 1 <<< 64)
      (output : String) (houtput : output ≠ "") :
      readArguments (cipherArguments false workers .encrypt (job output))
        = .ok ⟨false, workers, .encrypt (job output)⟩ := by
    have hinput : (job output).input ≠ "" := (by decide : "a" ≠ "")
    exact (readArguments_cipherArguments false hworkers hinput houtput).1
  have hnone (n : Nat) (h : none = some n) : n < 1 <<< 64 := nomatch h
  refine ⟨hgives, hlong, hshort, ?_, ?_, ?_⟩
  · refine fails_of_long (hargs none hnone "b" (by decide)) hgives hlong ?_
    rw [Bytes.length_zeros]
    exact Nat.lt_succ_self _
  · exact fails_of_not_writable (hargs none hnone "d" (by decide))
      (Files.not_writable_of_directory (target_letter (Or.inr rfl)) rfl)
  · have htwo (n : Nat) (h : some 2 = some n) : n < 1 <<< 64 := by
      rw [← Option.some.inj h]
      decide
    have hstaffed : ¬Staffed around (some 2) := fun h => absurd (h 2 rfl) (by decide)
    exact fails_of_not_staffed (hargs (some 2) htwo "b" (by decide)) hstaffed

end PooledCrypto.FileTool
