import PooledCrypto.Proofs.FileEncryption
import PooledCrypto.Proofs.ReadLoops
import PooledCrypto.Proofs.TwoForms

/-!
# Hashing files

A run that hashes a file looks the digest up by its name, asks the provider for it, has a hasher
made, and only then opens the file. So a name that nobody knows, or a digest that the provider
lacks, is refused before that. `hashFile_unknown` and `hashFile_lacking` say so for every kind of
access to files there may be: the job is an answer that was there from the start.

Where the file can be read, the pieces in which it is read do not show. From the hasher on the job
does what it would do with the content in one call (`hashFile_apply`), so all that is left is what a
hasher of a new provider gives, and that is the digest (`ran_hash`).
-/

namespace PooledCrypto

/-! ## Names and texts -/

namespace Algorithm

/-- Two names of digests differ in more than the case of letters. -/
theorem digests_distinct : ∀ name ∈ digests, ∀ other ∈ digests,
    Text.equalUpToCase name other = true → name = other := by
  decide

/-- The digest of a name is the one that has the name up to case, and there is no other. -/
theorem digestByName?_eq_some {given name : String} : digestByName? given = some name
    ↔ name ∈ digests ∧ Text.equalUpToCase name given = true := by
  unfold digestByName?
  constructor
  · intro h
    exact ⟨List.mem_of_find?_eq_some h, by simpa using List.find?_some h⟩
  · rintro ⟨hmem, hname⟩
    cases hfind : digests.find? fun d => Text.equalUpToCase d given with
    | none => exact absurd hname (List.find?_eq_none.mp hfind name hmem)
    | some other =>
        have hother : Text.equalUpToCase other given = true := by
          simpa using List.find?_some hfind
        unfold Text.equalUpToCase at hname hother
        rw [beq_iff_eq] at hname hother
        have hsame : Text.equalUpToCase name other = true :=
          beq_iff_eq.mpr (hname.trans hother.symm)
        rw [digests_distinct name hmem other (List.mem_of_find?_eq_some hfind) hsame]

end Algorithm

namespace Bytes

theorem hexDigit_mem {n : Nat} (h : n < 16) : hexDigit n ∈ "0123456789abcdef".toList := by
  have hall : ∀ m : Fin 16, hexDigit m ∈ "0123456789abcdef".toList := by decide
  exact hall ⟨n, h⟩

/-- Hexadecimal text is in digits and lower-case letters. -/
theorem mem_toHex {bytes : Bytes} {c : Char} (h : c ∈ bytes.toHex.toList) :
    c ∈ "0123456789abcdef".toList := by
  rw [toHex, String.toList_ofList] at h
  obtain ⟨b, _, hb⟩ := List.mem_flatMap.mp h
  have hlt := b.toNat_lt
  rcases List.mem_cons.mp hb with rfl | hb
  · exact hexDigit_mem (by omega)
  · obtain rfl := List.mem_singleton.mp hb
    exact hexDigit_mem (by omega)

end Bytes

namespace FileTool

open Provider (Hasher HashFunction Loan State)
open Streaming (Function)

variable {algorithm path name : String} {content : Bytes} {b : Bench} {d : Disk}

/-! ## Refusals -/

namespace Job

variable {m : Type → Type} [Monad m] [LawfulMonad m] {α β : Type} {job : Job m α}
  {next : α → Job m β} {b' : Bench}

theorem run_bind_of_ok {x : α} (h : job.run.run b = pure (.ok x, b')) :
    (job >>= next).run.run b = (next x).run.run b' := by
  rw [ExceptT.run_bind, StateT.run_bind, h, pure_bind]

theorem run_bind_of_error {e : Breakdown} (h : job.run.run b = pure (.error e, b')) :
    (job >>= next).run.run b = pure (.error e, b') := by
  rw [ExceptT.run_bind, StateT.run_bind, h, pure_bind]
  rfl

theorem run_within_of_report {r : Report} {headline : String}
    (h : job.run.run b = pure (.error (.report r), b')) :
    (job.within headline).run.run b = pure (.error (.report (r.within headline)), b') := by
  show (ExceptT.tryCatch job _).run.run b = _
  unfold ExceptT.tryCatch
  rw [ExceptT.run_mk, StateT.run_bind]
  show (job.run.run b >>= _) = _
  rw [h, pure_bind]
  rfl

theorem run_ask_of_error {work : Action Provider α} {e : Error} {p : Provider}
    (h : work b.provider = (.error (.error e), p)) :
    (ask work : Job m α).run.run b
      = pure (.error (.report (.ofError e)), { b with provider := p }) := by
  have hget : (get : Job m Bench).run.run b = pure (.ok b, b) := by
    show (ExceptT.lift (get : StateT Bench m Bench)).run.run b = _
    rw [ExceptT.run_lift, StateT.run_map, StateT.run_get, map_pure]
  have hset : (set { b with provider := p } : Job m PUnit).run.run b
      = pure (.ok ⟨⟩, { b with provider := p }) := by
    show (ExceptT.lift (set { b with provider := p } : StateT Bench m PUnit)).run.run b = _
    rw [ExceptT.run_lift, StateT.run_map, StateT.run_set, map_pure]
  unfold ask askNoting Action.runOn
  rw [run_bind_of_ok hget, h]
  dsimp only
  have hquiet : ((none : Option Output).forM put : Job m PUnit) = pure ⟨⟩ := rfl
  rw [run_bind_of_ok hset, hquiet, pure_bind]
  rfl

end Job

/-- A name that is no digest's is refused with nothing done before. -/
theorem hashFile_unknown {m : Type → Type} [Monad m] [FileAccess m]
    (h : ∀ name ∈ Algorithm.digests, Text.equalUpToCase name algorithm = false) (path : String)
    (b : Bench) : (hashFile algorithm path : Job m Unit).run.run b
      = pure (.error (.report (.plain s!"Unknown digest: {algorithm}")), b) := by
  have hnone : Algorithm.digestByName? algorithm = none :=
    List.find?_eq_none.mpr fun name hmem => by simp [h name hmem]
  unfold hashFile
  rw [hnone]
  rfl

/-- A digest that the provider does not give is refused with nothing done but to ask for it. -/
theorem hashFile_lacking {m : Type → Type} [Monad m] [LawfulMonad m] [FileAccess m]
    (h : Algorithm.digestByName? algorithm = some name) {e : Error} {p : Provider}
    (hget : Provider.get .digest name b.provider = (.error (.error e), p)) (path : String) :
    (hashFile algorithm path : Job m Unit).run.run b
      = pure (.error (.report ((Report.ofError e).within "Digest unavailable")),
          { b with provider := p }) := by
  unfold hashFile
  rw [h]
  exact Job.run_bind_of_error (Job.run_within_of_report (Job.run_ask_of_error hget))

/-! ## Files that can be read -/

theorem readPieces_apply (h : d.files.read path = .ok content) (b : Bench) :
    (readPieces path : Job (StateM Disk) (List Bytes)) b d
      = ((.ok (d.reader.cut bufferSize content), b), d) := by
  have hread : (Job.readFile path : Job (StateM Disk) (Except ReadFault (List Bytes))) b d
      = ((.ok (.ok (d.reader.cut bufferSize content)), b), d) := by
    refine (Job.lift_apply (FileAccess.read path bufferSize) b d).trans ?_
    show ((Except.ok ((d.files.read path).map (d.reader.cut bufferSize)), b), d) = _
    rw [h]
    rfl
  unfold readPieces
  rw [Job.bind_of_ok hread]
  rfl

/-- **A file is hashed as its content would be in one call.** From where the hasher is there, the
job does the same as one that asks the hasher for the digest of the content and shows it. -/
theorem hashFile_apply {kind : Digest.Kind} {hasher : Provider.Operation Hasher}
    {p p' : Provider} (hname : Algorithm.digestByName? algorithm = some name)
    (hget : Provider.get .digest name b.provider = (.ok kind, p))
    (hcreate : Provider.onState (Hasher.factory kind).create p = (.ok hasher, p'))
    (hread : d.files.read path = .ok content) :
    (hashFile algorithm path : Job (StateM Disk) Unit) b d
      = (Job.askState (hasher.core.hash content) >>= fun digest =>
          Job.print s!"{digest.toHex}  {path}" : Job (StateM Disk) Unit) ⟨p', b.output⟩ d := by
  have hdigest : (Job.ask (Provider.get .digest name) : Job (StateM Disk) Digest.Kind) b d
      = ((.ok kind, { b with provider := p }), d) := Job.askNoting_of_ok hget
  have hhasher : (Job.askState (Hasher.factory kind).create
        : Job (StateM Disk) (Provider.Operation Hasher)) ⟨p, b.output⟩ d
      = ((.ok hasher, ⟨p', b.output⟩), d) := Job.askNoting_of_ok hcreate
  unfold hashFile
  rw [hname]
  dsimp only
  rw [Job.bind_of_ok (Job.within_of_ok hdigest), Job.bind_of_ok hhasher,
    Job.bind_of_ok (readPieces_apply hread _), hashPieces_eq_hash,
    d.reader.flatten_cut bufferSize content (by decide)]

/-! ## Runs of the tool -/

variable {kind : Digest.Kind} {capacity : Nat}

theorem get_digest (kind : Digest.Kind) (st : State) :
    ∃ algorithms, Provider.get .digest kind.name (Provider.software st)
      = (.ok kind, ⟨algorithms, st⟩) := by
  cases kind <;> exact ⟨_, rfl⟩

/-- The name of a digest that is not implemented is not found. -/
theorem get_lacking (hmem : name ∈ Algorithm.digests)
    (hnone : ∀ kind : Digest.Kind, kind.name ≠ name) (st : State) :
    ∃ p, Provider.get .digest name (Provider.software st)
      = (.error (.error (.algorithmNotFound name Provider.softwareName)), p) := by
  simp only [Algorithm.digests, List.mem_cons, List.not_mem_nil, or_false] at hmem
  rcases hmem with rfl | rfl | rfl | rfl | rfl | rfl
  · exact ⟨_, rfl⟩
  · exact absurd rfl (hnone .sha256)
  · exact absurd rfl (hnone .sha384)
  · exact absurd rfl (hnone .sha512)
  · exact absurd rfl (hnone .blake2b512)
  · exact absurd rfl (hnone .blake2s256)

/-- The first hasher that is made with room for its pool gives the digest of every message. -/
theorem hashes_of_start (kind : Digest.Kind) (executor : Executor) (entropy : Entropy)
    (room : capacity * Provider.HandleType.digest.size ≤ Room.most) :
    ∃ st, (Hasher.factory kind).create (.start executor entropy capacity)
        = (.ok ⟨⟨kind⟩, executor⟩, st)
      ∧ ∀ content, ∃ st', Hasher.hash ⟨kind⟩ content st = (.ok (kind.digest content), st') := by
  let first : State := .start executor entropy capacity
  have hnone : first.pools.find? kind.name = none := rfl
  have hopen : Provider.openDigestPool kind first
      = (.ok (), (Provider.openDigestPool kind first).2) := by
    unfold Provider.openDigestPool
    rw [Pool.Directory.getOrCreate_new hnone room]
  have haccounts := Provider.balanced_openDigestPool kind [] first
    (Provider.accounts_start executor entropy capacity)
  have hlends := (Provider.supplied_openDigestPool hnone hopen).lends
  refine ⟨_, Action.bind_of_ok hopen, fun content => ?_⟩
  rcases Provider.compute_cases (.digest kind) content (Provider.openDigestPool kind first).2 with
    ⟨f, st', hb, _⟩ | ⟨loan, st', hb, hout⟩
  · obtain ⟨loan, st'', hlent⟩ := hlends
    rw [hlent] at hb
    exact absurd (congrArg Prod.fst hb) (by simp)
  · have hdigest : (loan.update content).finish.1 = kind.digest content :=
      Provider.serves_digest haccounts kind loan st' hb [] content
    rw [hdigest] at hout
    exact ⟨_, hout⟩

/-- What is shown at the end is the only line. -/
theorem lines_shown (provider : Provider) (workers : Option Nat) (verbose : Bool) (text : String) :
    Outcome.lines ⟨Outcome.success, (openingNotes provider workers ++ [Output.line text]).filter
      (Output.isShown verbose), ""⟩ = [text] := by
  cases workers <;> cases verbose <;> rfl

/-- **A run that hashes a file shows the digest of its content**, and leaves the disk as it is. -/
theorem ran_hash {around : State.Surroundings} {args : List String} {verbose : Bool}
    {workers : Option Nat}
    (hargs : readArguments args = .ok ⟨verbose, workers, .hash algorithm path⟩)
    (hstaffed : Staffed around workers)
    (hname : Text.equalUpToCase kind.name algorithm = true)
    (hread : d.files.read path = .ok content)
    (room : Config.defaultCapacity around.processors * Provider.HandleType.digest.size
      ≤ Room.most) :
    ∃ o, ran around args d = (o, d) ∧ o.status = Outcome.success ∧ o.failure = ""
      ∧ o.lines = [s!"{(kind.digest content).toHex}  {path}"] := by
  obtain ⟨executor, -, hresolved⟩ := resolved hstaffed
  let first : State := .start executor around.entropy (Config.defaultCapacity around.processors)
  let b : Bench := ⟨Provider.software first, openingNotes (Provider.software first) workers⟩
  obtain ⟨algorithms, hget⟩ := get_digest kind first
  obtain ⟨st, hcreate, hhashes⟩ := hashes_of_start kind executor around.entropy room
  obtain ⟨st', hhash⟩ := hhashes content
  -- the tool goes by the declared names, of which this is one
  have hdeclared : kind.name ∈ Algorithm.digests := by cases kind <;> decide
  have hlookup := Algorithm.digestByName?_eq_some.mpr ⟨hdeclared, hname⟩
  have hprovider : Provider.onState (Hasher.factory kind).create ⟨algorithms, first⟩
      = (.ok ⟨⟨kind⟩, executor⟩, ⟨algorithms, st⟩) := by
    unfold Provider.onState
    rw [hcreate]
  have hanswer : (Job.askState (Hasher.hash ⟨kind⟩ content) : Job (StateM Disk) Bytes)
        ⟨⟨algorithms, st⟩, b.output⟩ d
      = ((.ok (kind.digest content), ⟨⟨algorithms, st'⟩, b.output⟩), d) := by
    refine Job.askNoting_of_ok ?_
    unfold Provider.onState
    rw [hhash]
  have hjob : ((hashFile algorithm path : Job (StateM Disk) Unit).run.run b : StateM Disk _) d
      = ((.ok (), ⟨⟨algorithms, st'⟩,
          b.output ++ [.line s!"{(kind.digest content).toHex}  {path}"]⟩), d) := by
    -- the pieces that the reader gives do not matter: they hash as the content does
    have happly := hashFile_apply (b := b) (d := d) hlookup hget hprovider hread
    rw [Job.bind_of_ok hanswer] at happly
    exact happly
  have hran : ran around args d = (⟨Outcome.success,
      (b.output ++ [Output.line s!"{(kind.digest content).toHex}  {path}"]).filter
        (Output.isShown verbose), ""⟩, d) := by
    unfold ran run
    rw [hargs]
    dsimp only
    unfold invoke
    dsimp only
    rw [hresolved]
    dsimp only [carryOut]
    rw [state_bind_apply, hjob]
    rfl
  exact ⟨_, hran, rfl, rfl, lines_shown _ workers verbose _⟩

/-- How files are hashed. -/
structure HashesFiles : Prop where
  /-- Every file can be asked for, with any algorithm, and with or without workers. -/
  asked : ∀ verbose workers algorithm path,
    (∀ threads, workers = some threads → threads < 1 <<< 64) → path ≠ "" →
      ∃ args, readArguments args = .ok ⟨verbose, workers, .hash algorithm path⟩
  /-- The digest that is meant is the one whose name is given up to the case of ASCII letters. -/
  named : ∀ algorithm name, Algorithm.digestByName? algorithm = some name
    ↔ name ∈ Algorithm.digests ∧ Text.equalUpToCase name algorithm = true
  /-- A name that is no digest's is refused. Whatever access there is to files, none is used. -/
  unknown : ∀ (m : Type → Type) [Monad m] [LawfulMonad m] [FileAccess m] algorithm path b,
    (∀ name ∈ Algorithm.digests, Text.equalUpToCase name algorithm = false) →
      (hashFile algorithm path : Job m Unit).run.run b
        = pure (.error (.report (.plain s!"Unknown digest: {algorithm}")), b)
  /-- The name of a digest that the provider does not have is refused in the same way. -/
  lacking : ∀ (m : Type → Type) [Monad m] [LawfulMonad m] [FileAccess m] algorithm name path
    (b : Bench) e p, Algorithm.digestByName? algorithm = some name →
    Provider.get .digest name b.provider = (.error (.error e), p) →
      (hashFile algorithm path : Job m Unit).run.run b
        = pure (.error (.report ((Report.ofError e).within "Digest unavailable")),
            { b with provider := p })
  /-- The provider of the tool has the digests that are implemented and lacks the others. -/
  provided : ∀ st name, name ∈ Algorithm.digests →
    (∃ kind p, kind.name = name ∧ Provider.get .digest name (Provider.software st) = (.ok kind, p))
      ∨ ((∀ kind : Digest.Kind, kind.name ≠ name)
        ∧ ∃ p, Provider.get .digest name (Provider.software st)
          = (.error (.error (.algorithmNotFound name Provider.softwareName)), p))
  /-- The loop that reads and feeds ends, however much the reader gives at a time. -/
  loopEnds : WellFounded fun next l : ReadLoop => l.Step next
  /-- It ends when everything was read. To complete the function then is to finish it with the
  content in one chunk. -/
  loopDone : ∀ content loan l,
    ReadLoop.Run ⟨content, Bytes.zeros bufferSize, Function.start loan⟩ l →
    (∀ next, ¬ l.Step next) →
      l.unread = [] ∧ l.function.complete = (Function.start loan).finish content
  /-- What such loops do is to feed pieces of at most the size of the buffer, all there are. -/
  loops : ∀ content f f',
    (∃ buffer, ReadLoop.Run ⟨content, Bytes.zeros bufferSize, f⟩ ⟨[], buffer, f'⟩)
      ↔ ∃ pieces, Cuts bufferSize content pieces
          ∧ feedPieces pieces (Bytes.zeros bufferSize) f = (.ok (), f')
  /-- Every way to cut a content is that of a reader, and readers know no other. -/
  readers : ∀ content pieces, Cuts bufferSize content pieces
    ↔ ∃ reader : Reader, reader.cut bufferSize content = pieces
  /-- What is in the buffer from earlier reads makes no difference. -/
  stale : ∀ pieces buffer buffer' f, feedPieces pieces buffer f = feedPieces pieces buffer' f
  /-- To hash pieces is to hash their content in one call, in every state and with every result. -/
  whole : ∀ (h : Hasher) pieces, hashPieces h pieces = h.hash pieces.flatten
  /-- So the job goes on from the hasher as if it had the content hashed in one call. -/
  hashed : ∀ algorithm name path content (b : Bench) (d : Disk) kind hasher p p',
    Algorithm.digestByName? algorithm = some name →
    Provider.get .digest name b.provider = (.ok kind, p) →
    Provider.onState (Hasher.factory kind).create p = (.ok hasher, p') →
    d.files.read path = .ok content →
      (hashFile algorithm path : Job (StateM Disk) Unit) b d
        = (Job.askState (hasher.core.hash content) >>= fun digest =>
            Job.print s!"{digest.toHex}  {path}" : Job (StateM Disk) Unit) ⟨p', b.output⟩ d
  /-- A run of the tool that has its workers succeeds and shows the digest of the content, whatever
  the disk's reader. -/
  shown : ∀ around args verbose workers algorithm path content (d : Disk) (kind : Digest.Kind),
    readArguments args = .ok ⟨verbose, workers, .hash algorithm path⟩ → Staffed around workers →
    Text.equalUpToCase kind.name algorithm = true → d.files.read path = .ok content →
    Config.defaultCapacity around.processors * Provider.HandleType.digest.size ≤ Room.most →
      ∃ o, ran around args d = (o, d) ∧ o.status = Outcome.success ∧ o.failure = ""
        ∧ o.lines = [s!"{(kind.digest content).toHex}  {path}"]
  /-- The digest is shown in digits and lower-case letters, and nothing of it is lost. -/
  hex : ∀ digest : Bytes, (∀ c ∈ digest.toHex.toList, c ∈ "0123456789abcdef".toList)
    ∧ Bytes.ofHex? digest.toHex = some digest

/-- **The hash of a file is the digest of its content, however it is read.** -/
theorem files_hashed : HashesFiles where
  asked verbose workers algorithm path hworkers hpath :=
    ⟨_, readArguments_hashArguments verbose hworkers algorithm hpath⟩
  named _ _ := Algorithm.digestByName?_eq_some
  unknown m _ _ _ algorithm path b h := hashFile_unknown h path b
  lacking m _ _ _ algorithm name path b e p h hget := hashFile_lacking h hget path
  provided := by
    intro st name hmem
    by_cases hkind : ∃ kind : Digest.Kind, kind.name = name
    · obtain ⟨kind, rfl⟩ := hkind
      obtain ⟨algorithms, hget⟩ := get_digest kind st
      exact Or.inl ⟨kind, _, rfl, hget⟩
    · have hnone : ∀ kind : Digest.Kind, kind.name ≠ name := fun kind h => hkind ⟨kind, h⟩
      exact Or.inr ⟨hnone, get_lacking hmem hnone st⟩
  loopEnds := ReadLoop.wellFounded_step
  loopDone := by
    intro content loan l hrun hend
    -- before the first read the buffer is empty, and the function has been fed nothing
    have hlive : ReadLoop.Live ⟨content, Bytes.zeros bufferSize, Function.start loan⟩ :=
      ⟨by simp [bufferSize], loan, rfl⟩
    exact hrun.complete_eq hlive hend
  loops := by
    intro content f f'
    rw [ReadLoop.done_iff, Bytes.length_zeros]
  readers := by
    refine fun content pieces => ⟨Cuts.reader, ?_⟩
    rintro ⟨reader, rfl⟩
    exact reader.cuts (by decide) content
  stale pieces buffer buffer' f := by rw [feedPieces_eq_updateAll, feedPieces_eq_updateAll]
  whole := hashPieces_eq_hash
  hashed _ _ _ _ _ _ _ _ _ _ hname hget hcreate hread := hashFile_apply hname hget hcreate hread
  shown _ _ _ _ _ _ _ _ _ hargs hstaffed hname hread room :=
    ran_hash hargs hstaffed hname hread room
  hex digest := ⟨fun _ => Bytes.mem_toHex, Bytes.ofHex?_toHex digest⟩

end FileTool
end PooledCrypto
