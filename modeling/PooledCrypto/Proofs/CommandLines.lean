import PooledCrypto.FileTool.Arguments

/-!
# Command lines for every file

Whatever the key, the paths and the associated data are, there is a command line that says so
(`readArguments_cipherArguments`). It gives every option in full with its value attached. Such an
argument is read as it stands (`shapeOf_attached`), even where the value looks like an option. The
file to hash has no option; its path comes last, behind two hyphens (`readArguments_hashArguments`).
-/

namespace PooledCrypto.FileTool

/-- An option in full with its value attached. -/
def attached (name value : String) : String := "--" ++ name ++ "=" ++ value

/-- The options of a file to encrypt or decrypt. -/
def cipherOptions (workers : Option Nat) (job : CipherJob) : List String :=
  [attached "key" job.key, attached "input" job.input, attached "output" job.output]
    ++ (job.associated.map (attached "aad")).toList
    ++ ((workers.map toString).map (attached "workers")).toList

/-- The arguments for a file to encrypt or decrypt. -/
def cipherArguments (verbose : Bool) (workers : Option Nat) (v : Verb) (job : CipherJob) :
    List String :=
  (if verbose then ["--verbose"] else []) ++ v.name :: cipherOptions workers job

/-! ## Numbers -/

/-- A number is read from its decimal digits. -/
theorem readCount?_toString {n : Nat} (h : n < 1 <<< 64) : readCount? (toString n) = some n := by
  have hlist : (toString n).toList = Nat.toDigits 10 n := Nat.toList_repr
  have hdigit : ∀ c ∈ Nat.toDigits 10 n, c.isDigit = true :=
    fun c hc => Nat.isDigit_of_mem_toDigits (by decide) (by decide) hc
  have hvalue : (Nat.toDigits 10 n).foldl (fun n c => n * 10 + (c.toNat - '0'.toNat)) 0 = n := by
    have hdigits := Nat.ofDigitChars_toDigits (b := 10) (n := n) (by decide) (by decide)
    rw [Nat.ofDigitChars_eq_foldl] at hdigits
    simpa only [Nat.mul_comm] using hdigits
  unfold readCount?
  rw [hlist]
  cases hdigits : Nat.toDigits 10 n with
  | nil => exact absurd hdigits Nat.toDigits_ne_nil
  | cons c rest =>
      rw [hdigits] at hdigit hvalue
      -- digits have no sign before them, so the branch for one is not taken
      have hc : c ≠ '+' := by
        rintro rfl
        exact absurd (hdigit '+' List.mem_cons_self) (by decide)
      have hall : (c :: rest).all Char.isDigit = true := List.all_eq_true.mpr hdigit
      have hread : ∀ digits, digits = c :: rest →
          (if digits.isEmpty ∨ ¬digits.all Char.isDigit then none
            else
              let n := digits.foldl (fun n c => n * 10 + (c.toNat - '0'.toNat)) 0
              if n < 1 <<< 64 then some n else none) = some n := by
        rintro _ rfl
        rw [if_neg (by simp [hall]), hvalue]
        exact if_pos h
      refine hread _ ?_
      split
      · rename_i heq
        exact absurd (List.cons.inj heq).1 hc
      · rfl

/-! ## One option -/

theorem shapeOf_attached {name : String} (hname : '=' ∉ name.toList) (value : String) :
    shapeOf (attached name value) = .full name (some value) := by
  have hlist : (attached name value).toList
      = '-' :: '-' :: (name.toList ++ '=' :: value.toList) := by
    simp [attached]
  have hne : ∀ c ∈ name.toList, (c != '=') = true := by
    intro c hc
    refine bne_iff_ne.mpr fun h => hname ?_
    rwa [← h]
  have htake : (name.toList ++ '=' :: value.toList).takeWhile (fun c => c != '=')
      = name.toList := by
    rw [List.takeWhile_append_of_pos hne]
    simp
  have hdrop : (name.toList ++ '=' :: value.toList).dropWhile (fun c => c != '=')
      = '=' :: value.toList := by
    rw [List.dropWhile_append_of_pos hne]
    rfl
  unfold shapeOf
  rw [hlist]
  split
  · -- two hyphens alone: something follows them here
    rename_i heq
    simp at heq
  · rename_i heq
    obtain rfl := (List.cons.inj (List.cons.inj heq).2).2
    rw [htake, hdrop]
    simp
  · rename_i hhyphen heq
    exact (hhyphen (List.cons.inj (List.cons.inj heq).2).1.symm).elim
  · rename_i hfull _
    exact (hfull _ rfl).elim

/-- A level on which everything that was met is put down. -/
def putDown (settings : List (Setting × String)) : Reading := ⟨false, settings, none⟩

variable {v : Verb} {name value : String} {s : Setting} {rest : List String}
  {before : List (Setting × String)}

theorem takeFull_attached (hnamed : (Level.verb v).named? name = some (.setting s))
    (hfirst : (putDown before).value? s = none) (haccepts : s.accepts value = true) :
    (putDown before).takeFull (.verb v) name (some value)
      = .ok (putDown (before ++ [(s, value)])) := by
  have hnone : Reading.value? ⟨false, before, some (s, some value)⟩ s = none := hfirst
  have hsettle : Reading.settle ⟨false, before, some (s, some value)⟩
      = .ok (putDown (before ++ [(s, value)])) := by
    unfold Reading.settle
    dsimp only
    rw [hnone]
    exact if_pos ⟨rfl, haccepts⟩
  unfold Reading.takeFull
  rw [hnamed]
  exact hsettle

/-- An option with an acceptable value is put down, if it is the first of its kind. -/
theorem readLevel_attached (hname : '=' ∉ name.toList)
    (hnamed : (Level.verb v).named? name = some (.setting s))
    (hfirst : (putDown before).value? s = none) (haccepts : s.accepts value = true) :
    readLevel (.verb v) (attached name value :: rest) (putDown before)
      = readLevel (.verb v) rest (putDown (before ++ [(s, value)])) := by
  have htake := takeFull_attached hnamed hfirst haccepts
  have hwaits : (putDown before).awaitsValue = false := rfl
  rw [readLevel]
  simp only [hwaits, shapeOf_attached hname, htake]
  rfl

/-- An option that may be left out. -/
theorem readLevel_optional {given : Option String} (hname : '=' ∉ name.toList)
    (hnamed : (Level.verb v).named? name = some (.setting s))
    (hfirst : (putDown before).value? s = none)
    (haccepts : ∀ value, given = some value → s.accepts value = true) :
    readLevel (.verb v) ((given.map (attached name)).toList ++ rest) (putDown before)
      = readLevel (.verb v) rest
        (putDown (before ++ (given.map fun value => (s, value)).toList)) := by
  cases given with
  | none =>
      show readLevel (.verb v) rest (putDown before)
        = readLevel (.verb v) rest (putDown (before ++ []))
      rw [List.append_nil]
  | some value => exact readLevel_attached hname hnamed hfirst (haccepts value rfl)

/-! ## Whole command lines -/

/-- What is put down of the options. -/
def cipherSettings (workers : Option Nat) (job : CipherJob) : List (Setting × String) :=
  [(.key, job.key), (.input, job.input), (.output, job.output)]
    ++ (job.associated.map fun text => (Setting.associated, text)).toList
    ++ ((workers.map toString).map fun text => (Setting.workers, text)).toList

theorem readLevel_top (verbose : Bool) (v : Verb) (rest : List String) :
    readLevel .top ((if verbose then ["--verbose"] else []) ++ v.name :: rest) .empty
      = .ok (⟨verbose, [], none⟩, .beforeVerb v rest) := by
  cases verbose <;> cases v <;> rfl

variable {workers : Option Nat} {job : CipherJob}

theorem accepts_workers (hworkers : ∀ threads, workers = some threads → threads < 1 <<< 64)
    (text : String) (htext : workers.map toString = some text) :
    Setting.accepts .workers text = true := by
  obtain ⟨threads, hthreads, rfl⟩ := Option.map_eq_some_iff.mp htext
  show (readCount? (toString threads)).isSome = true
  rw [readCount?_toString (hworkers threads hthreads)]
  rfl

/-- The workers are as many as were put down. -/
theorem count?_workers {r : Reading}
    (hworkers : ∀ threads, workers = some threads → threads < 1 <<< 64)
    (hvalue : r.value? .workers = workers.map toString) : r.count? .workers = workers := by
  rw [Reading.count?, hvalue]
  cases workers with
  | none => rfl
  | some threads => exact readCount?_toString (hworkers threads rfl)

/-- A verb with its command, if what was read after it makes one. -/
theorem readArguments_of_level {own settled : Reading} {command : Command} (verbose : Bool)
    (hlevel : readLevel (.verb v) rest .empty = .ok (own, .atEnd))
    (hsettle : own.settle = .ok settled) (hcommand : commandOf v settled = .ok command)
    (hcount : settled.count? .workers = workers) :
    readArguments ((if verbose then ["--verbose"] else []) ++ v.name :: rest)
      = .ok ⟨verbose, workers, command⟩ := by
  have htop : Reading.settle ⟨verbose, [], none⟩ = .ok ⟨verbose, [], none⟩ := rfl
  unfold readArguments
  rw [readLevel_top]
  simp only [bind, Except.bind]
  rw [hlevel]
  dsimp only
  rw [hsettle]
  dsimp only
  rw [hcommand]
  dsimp only
  rw [htop]
  dsimp only
  rw [hcount]
  show Except.ok (⟨verbose, workers.or none, command⟩ : Invocation) = _
  rw [Option.or_none]

theorem readLevel_cipherOptions (hv : v = .encrypt ∨ v = .decrypt)
    (hworkers : ∀ threads, workers = some threads → threads < 1 <<< 64) (hinput : job.input ≠ "")
    (houtput : job.output ≠ "") :
    readLevel (.verb v) (cipherOptions workers job) .empty
      = .ok (putDown (cipherSettings workers job), .atEnd) := by
  have hnamed : ∀ name s, (Level.verb .encrypt).named? name = some (.setting s) →
      (Level.verb v).named? name = some (.setting s) := by
    intro name s h
    rcases hv with rfl | rfl <;> exact h
  let own : List (Setting × String) :=
    [(.key, job.key), (.input, job.input), (.output, job.output)]
  let all := own ++ (job.associated.map fun text => (Setting.associated, text)).toList
  have hfirst : (putDown all).value? .workers = none := by
    cases hassociated : job.associated <;> simp [all, own, hassociated, putDown, Reading.value?]
  let threads := ((workers.map toString).map (attached "workers")).toList
  let associated := (job.associated.map (attached "aad")).toList
  have hoptions : cipherOptions workers job = attached "key" job.key
      :: attached "input" job.input :: attached "output" job.output :: (associated ++ threads) := by
    simp [cipherOptions, associated, threads]
  -- from the left, each option is met for the first time and its value is put down
  calc readLevel (.verb v) (cipherOptions workers job) .empty
      = readLevel (.verb v) (attached "key" job.key :: attached "input" job.input
          :: attached "output" job.output :: (associated ++ threads)) (putDown []) := by
        rw [hoptions]
        rfl
    _ = readLevel (.verb v) (attached "input" job.input :: attached "output" job.output
          :: (associated ++ threads)) (putDown [(.key, job.key)]) :=
        readLevel_attached (by decide) (hnamed "key" .key rfl) rfl rfl
    _ = readLevel (.verb v) (attached "output" job.output :: (associated ++ threads))
          (putDown [(.key, job.key), (.input, job.input)]) :=
        readLevel_attached (by decide) (hnamed "input" .input rfl) rfl (bne_iff_ne.mpr hinput)
    _ = readLevel (.verb v) (associated ++ threads) (putDown own) :=
        readLevel_attached (by decide) (hnamed "output" .output rfl) rfl (bne_iff_ne.mpr houtput)
    _ = readLevel (.verb v) threads (putDown all) :=
        readLevel_optional (by decide) (hnamed "aad" .associated rfl) rfl fun _ _ => rfl
    _ = readLevel (.verb v) [] (putDown (cipherSettings workers job)) := by
        rw [← List.append_nil threads]
        exact readLevel_optional (by decide) (hnamed "workers" .workers rfl) hfirst
          (accepts_workers hworkers)
    _ = .ok (putDown (cipherSettings workers job), .atEnd) := rfl

theorem cipherJob_cipherSettings : cipherJob (putDown (cipherSettings workers job)) = .ok job := by
  obtain ⟨key, input, output, associated⟩ := job
  cases associated <;> cases workers <;> rfl

theorem count?_cipherSettings (hworkers : ∀ threads, workers = some threads → threads < 1 <<< 64) :
    (putDown (cipherSettings workers job)).count? .workers = workers := by
  refine count?_workers hworkers ?_
  obtain ⟨key, input, output, associated⟩ := job
  cases associated <;> cases workers <;> rfl

/-- **Command lines.** Every file can be asked to be encrypted or decrypted, with any key and any
associated data. -/
theorem readArguments_cipherArguments (verbose : Bool)
    (hworkers : ∀ threads, workers = some threads → threads < 1 <<< 64) (hinput : job.input ≠ "")
    (houtput : job.output ≠ "") :
    readArguments (cipherArguments verbose workers .encrypt job)
        = .ok ⟨verbose, workers, .encrypt job⟩
      ∧ readArguments (cipherArguments verbose workers .decrypt job)
        = .ok ⟨verbose, workers, .decrypt job⟩ := by
  constructor
  · refine readArguments_of_level verbose
      (readLevel_cipherOptions (Or.inl rfl) hworkers hinput houtput) rfl ?_
      (count?_cipherSettings hworkers)
    simp only [commandOf, cipherJob_cipherSettings, Except.map]
  · refine readArguments_of_level verbose
      (readLevel_cipherOptions (Or.inr rfl) hworkers hinput houtput) rfl ?_
      (count?_cipherSettings hworkers)
    simp only [commandOf, cipherJob_cipherSettings, Except.map]

/-! ## Hashing -/

/-- The options of a file to hash, and the file. What follows the hyphens that stand alone is a
path. -/
def hashOptions (workers : Option Nat) (algorithm path : String) : List String :=
  attached "algorithm" algorithm
    :: (((workers.map toString).map (attached "workers")).toList ++ ["--", path])

/-- The arguments for a file to hash. -/
def hashArguments (verbose : Bool) (workers : Option Nat) (algorithm path : String) :
    List String :=
  (if verbose then ["--verbose"] else [])
    ++ Verb.hash.name :: hashOptions workers algorithm path

/-- What is put down of the options of a file to hash. -/
def hashSettings (workers : Option Nat) (algorithm : String) : List (Setting × String) :=
  (.algorithm, algorithm) :: ((workers.map toString).map fun text => (Setting.workers, text)).toList

theorem readLevel_hashOptions (hworkers : ∀ threads, workers = some threads → threads < 1 <<< 64)
    (algorithm path : String) :
    readLevel (.verb .hash) (hashOptions workers algorithm path) .empty
      = .ok (⟨false, hashSettings workers algorithm, some (.file, some path)⟩, .atEnd) := by
  let threads := ((workers.map toString).map (attached "workers")).toList
  calc readLevel (.verb .hash) (hashOptions workers algorithm path) .empty
      = readLevel (.verb .hash) (threads ++ ["--", path]) (putDown [(.algorithm, algorithm)]) :=
        readLevel_attached (by decide) rfl rfl rfl
    _ = readLevel (.verb .hash) ["--", path] (putDown (hashSettings workers algorithm)) :=
        readLevel_optional (by decide) rfl rfl (accepts_workers hworkers)
    _ = .ok (⟨false, hashSettings workers algorithm, some (.file, some path)⟩, .atEnd) := by
        cases workers <;> rfl

/-- Every file can be asked to be hashed, with any algorithm. -/
theorem readArguments_hashArguments {path : String} (verbose : Bool)
    (hworkers : ∀ threads, workers = some threads → threads < 1 <<< 64) (algorithm : String)
    (hpath : path ≠ "") : readArguments (hashArguments verbose workers algorithm path)
      = .ok ⟨verbose, workers, .hash algorithm path⟩ := by
  let settled : Reading := putDown (hashSettings workers algorithm ++ [(.file, path)])
  have hsettle : Reading.settle ⟨false, hashSettings workers algorithm, some (.file, some path)⟩
      = .ok settled := by
    unfold Reading.settle
    refine if_pos ⟨?_, bne_iff_ne.mpr hpath⟩
    cases workers <;> rfl
  have hcommand : commandOf .hash settled = .ok (.hash algorithm path) := by
    cases workers <;> rfl
  have hvalue : settled.value? .workers = workers.map toString := by
    cases workers <;> rfl
  exact readArguments_of_level verbose (readLevel_hashOptions hworkers algorithm path) hsettle
    hcommand (count?_workers hworkers hvalue)

end PooledCrypto.FileTool
