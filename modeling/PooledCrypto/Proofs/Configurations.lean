import Mathlib.Data.List.Nodup
import PooledCrypto.Proofs.JsonContents
import PooledCrypto.Proofs.Startup
import PooledCrypto.Proofs.UniformPools

/-!
# Which configurations are accepted

`Config.Denotes` is the grammar of configurations, told without the reader: what a value looks like
and which configuration it stands for. Both fields may be left out. A capacity may also be null, a
mode may not, and a mode that is given has to be complete. The reader accepts the values of the
grammar and no others (`ofJson_eq_ok`), and of an object it looks at no more than `SameFields`
compares.

Configurations written as arrays are left out here. They are read by the order of what is in them.
That integers fit 64 bits is no restriction on values that were read from a text: a larger number is
a float there, and so it is refused (`ReadsConfigurations.texts`).

Of what is accepted a provider is made if the executor can be started, and if it cannot the error is
one of execution. So the two kinds of failure can be told apart.
-/

namespace PooledCrypto

variable {v w : Json} {fields fields' : List (String × Json)} {name other : String}

/-! ## Values of JSON -/

namespace Json

variable {α : Type} {n : Nat}

/-- An integer is read as the number that it is. -/
theorem asSize_eq_ok : asSize v = .ok n ↔ v = nat n := by
  constructor
  · intro h
    unfold asSize at h
    split at h
    · obtain rfl := Except.ok.inj h
      rfl
    · exact absurd h (by simp)
    · exact absurd h (by simp [wrongType])
  · rintro rfl
    rfl

theorem asOptional_asSize_eq_ok {size : Option Nat} : asOptional asSize v = .ok size
    ↔ (v = .null ∧ size = none) ∨ ∃ n, v = nat n ∧ size = some n := by
  constructor
  · intro h
    unfold asOptional at h
    split at h
    · exact Or.inl ⟨rfl, (Except.ok.inj h).symm⟩
    · rcases hread : asSize v with f | n
      · rw [hread] at h
        exact absurd h (by simp [Except.map])
      · rw [hread] at h
        exact Or.inr ⟨n, asSize_eq_ok.mp hread, (Except.ok.inj h).symm⟩
  · rintro (⟨rfl, rfl⟩ | ⟨n, rfl, rfl⟩)
    · rfl
    · rfl

/-- Of names that differ one is found exactly if it is there. -/
theorem asName_eq_ok {known : List (String × α)} (once : (known.map (·.1)).Nodup) {a : α} :
    asName known name = .ok a ↔ (name, a) ∈ known := by
  unfold asName
  cases hfind : known.find? fun k => k.1 == name with
  | none =>
      refine ⟨fun h => absurd h (by simp), fun hm => ?_⟩
      exact absurd (List.find?_eq_none.mp hfind _ hm) (by simp)
  | some k =>
      have hmem := List.mem_of_find?_eq_some hfind
      have hname : k.1 = name := by simpa using List.find?_some hfind
      refine ⟨fun h => ?_, fun hm => ?_⟩
      · obtain rfl := Except.ok.inj h
        exact hname ▸ hmem
      · rw [List.inj_on_of_nodup_map once hmem hm hname]

theorem field?_cons (f : String × Json) : (Json.object (f :: fields)).field? name
    = if f.1 = name then some f.2 else (Json.object fields).field? name := by
  unfold field?
  by_cases hname : f.1 = name
  · simp [hname]
  · simp [hname]

theorem field?_putField_self : (Json.object (putField name v fields)).field? name = some v := by
  induction fields with
  | nil => simp [putField, field?_cons]
  | cons f rest ih =>
      unfold putField
      split
      · simp [field?_cons]
      split
      · simp [field?_cons]
      · rename_i hne
        rw [field?_cons, if_neg (Ne.symm hne), ih]

theorem field?_putField_ne (hne : other ≠ name) :
    (Json.object (putField name v fields)).field? other = (Json.object fields).field? other := by
  induction fields with
  | nil => simp [putField, field?_cons, Ne.symm hne]
  | cons f rest ih =>
      unfold putField
      split
      · rw [field?_cons, if_neg (Ne.symm hne)]
      split
      · rename_i hsame
        rw [field?_cons, if_neg (Ne.symm hne), field?_cons, if_neg (hsame ▸ Ne.symm hne)]
      · rw [field?_cons, ih, field?_cons]

end Json

/-! ## The grammar -/

namespace Config

open Json (ArrayFree NumbersFit)

/-- What the field for the capacity says. -/
inductive DenotesCapacity : Option Json → Option Nat → Prop
  | absent : DenotesCapacity none none
  | null : DenotesCapacity (some .null) none
  | size {n : Nat} (fits : n ≤ Json.maxNatural) : DenotesCapacity (some (Json.nat n)) (some n)

/-- What the field for the execution says. Only workers have to be counted. -/
inductive DenotesExecution : Option Json → ExecutionMode → Prop
  | absent : DenotesExecution none .inPlace
  | inPlace {fields : List (String × Json)}
      (mode : (Json.object fields).field? "mode" = some (.string "inline")) :
      DenotesExecution (some (.object fields)) .inPlace
  | blocking {fields : List (String × Json)}
      (mode : (Json.object fields).field? "mode" = some (.string "blocking")) :
      DenotesExecution (some (.object fields)) .blocking
  | workers {fields : List (String × Json)} {n : Nat}
      (mode : (Json.object fields).field? "mode" = some (.string "workers"))
      (threads : (Json.object fields).field? "threads" = some (Json.nat n))
      (fits : n ≤ Json.maxNatural) : DenotesExecution (some (.object fields)) (.workers n)

/-- The configuration that a value stands for. -/
inductive Denotes : Json → Config → Prop
  | null : Denotes .null ⟨none, .inPlace⟩
  | object {fields : List (String × Json)} {poolCapacity : Option Nat} {execution : ExecutionMode}
      (capacity : DenotesCapacity ((Json.object fields).field? "pool_capacity") poolCapacity)
      (mode : DenotesExecution ((Json.object fields).field? "execution") execution) :
      Denotes (.object fields) ⟨poolCapacity, execution⟩

/-- Two objects name the same mode, and as many threads if it is workers. -/
structure SameMode (fields fields' : List (String × Json)) : Prop where
  mode : (Json.object fields).field? "mode" = (Json.object fields').field? "mode"
  threads : (Json.object fields).field? "mode" = some (.string "workers") →
    (Json.object fields).field? "threads" = (Json.object fields').field? "threads"

/-- Two objects say the same of an execution, right or wrong. -/
inductive SameExecution : Option Json → Option Json → Prop
  | refl (found : Option Json) : SameExecution found found
  | object {fields fields' : List (String × Json)} (same : SameMode fields fields') :
      SameExecution (some (.object fields)) (some (.object fields'))

/-- Two objects agree in what there is to a configuration. -/
structure SameFields (fields fields' : List (String × Json)) : Prop where
  capacity : (Json.object fields).field? "pool_capacity"
    = (Json.object fields').field? "pool_capacity"
  execution : SameExecution ((Json.object fields).field? "execution")
    ((Json.object fields').field? "execution")

/-! ## Reading the execution -/

theorem mem_kinds {kind : ExecutionMode.Kind} : (name, kind) ∈ ExecutionMode.kinds
    ↔ (name = "inline" ∧ kind = .inPlace) ∨ (name = "blocking" ∧ kind = .blocking)
      ∨ (name = "workers" ∧ kind = .workers) := by
  simp [ExecutionMode.kinds]

theorem readKind_eq_ok {kind : ExecutionMode.Kind} : ExecutionMode.readKind v = .ok kind
    ↔ ∃ name, v = .string name ∧ (name, kind) ∈ ExecutionMode.kinds := by
  have honce : (ExecutionMode.kinds.map (·.1)).Nodup := by decide
  constructor
  · intro h
    unfold ExecutionMode.readKind at h
    split at h
    · rename_i name
      exact ⟨name, rfl, (Json.asName_eq_ok honce).mp h⟩
    · exact absurd h (by simp [Json.wrongType])
  · rintro ⟨name, rfl, hm⟩
    exact (Json.asName_eq_ok honce).mpr hm

/-- A mode that is read is one of the three. -/
theorem denotes_of_ofFields {mode : ExecutionMode}
    (fits : (Json.object fields).NumbersFit)
    (h : ExecutionMode.ofFields (.object fields) = .ok mode) :
    DenotesExecution (some (.object fields)) mode := by
  unfold ExecutionMode.ofFields at h
  cases hmode : (Json.object fields).field? "mode" with
  | none =>
      rw [hmode] at h
      exact absurd h (by simp [throw, throwThe, MonadExceptOf.throw])
  | some named =>
      rw [hmode] at h
      dsimp only at h
      rcases hkind : ExecutionMode.readKind named with f | kind
      · rw [hkind] at h
        exact absurd h (by simp [bind, Except.bind])
      · rw [hkind] at h
        obtain ⟨name, rfl, hname⟩ := readKind_eq_ok.mp hkind
        rcases mem_kinds.mp hname with ⟨rfl, rfl⟩ | ⟨rfl, rfl⟩ | ⟨rfl, rfl⟩
        · obtain rfl := Except.ok.inj h
          exact .inPlace hmode
        · obtain rfl := Except.ok.inj h
          exact .blocking hmode
        -- only workers have their threads looked at
        · simp only [bind, Except.bind] at h
          cases hthreads : (Json.object fields).field? "threads" with
          | none =>
              rw [hthreads] at h
              exact absurd h (by simp [throw, throwThe, MonadExceptOf.throw])
          | some count =>
              rw [hthreads] at h
              dsimp only at h
              rcases hread : Json.asSize count with f | n
              · rw [hread] at h
                exact absurd h (by simp)
              · rw [hread] at h
                obtain rfl := Except.ok.inj h
                obtain rfl := Json.asSize_eq_ok.mp hread
                exact .workers hmode hthreads (fits _ (.of_field? hthreads))

theorem ofFields_of_denotes {mode : ExecutionMode}
    (h : DenotesExecution (some (.object fields)) mode) :
    ExecutionMode.ofFields (.object fields) = .ok mode := by
  unfold ExecutionMode.ofFields
  cases h with
  | inPlace mode =>
      rw [mode]
      rfl
  | blocking mode =>
      rw [mode]
      rfl
  | workers mode threads fits =>
      rw [mode, threads]
      rfl

theorem executionMode_eq_ok {mode : ExecutionMode} (free : v.ArrayFree) (fits : v.NumbersFit) :
    ExecutionMode.ofJson v = .ok mode ↔ DenotesExecution (some v) mode := by
  constructor
  · intro h
    unfold ExecutionMode.ofJson at h
    split at h
    · exact denotes_of_ofFields fits h
    · exact absurd rfl (free.ne_array _)
    · exact absurd h (by simp [Json.wrongType])
  · intro h
    cases h with
    | inPlace mode => exact ofFields_of_denotes (.inPlace mode)
    | blocking mode => exact ofFields_of_denotes (.blocking mode)
    | workers mode threads small => exact ofFields_of_denotes (.workers mode threads small)

/-- Two objects that name the same mode are read alike, whatever else is in them. -/
theorem SameMode.ofFields_eq (same : SameMode fields fields') :
    ExecutionMode.ofFields (.object fields) = ExecutionMode.ofFields (.object fields') := by
  unfold ExecutionMode.ofFields
  rw [← same.mode]
  cases hmode : (Json.object fields).field? "mode" with
  | none => rfl
  | some named =>
      dsimp only
      rcases hkind : ExecutionMode.readKind named with f | kind
      · rfl
      · obtain ⟨name, rfl, hname⟩ := readKind_eq_ok.mp hkind
        -- the threads are looked at only when the mode is workers
        rcases mem_kinds.mp hname with ⟨rfl, rfl⟩ | ⟨rfl, rfl⟩ | ⟨rfl, rfl⟩
        · rfl
        · rfl
        · simp only [same.threads hmode]

/-! ## Reading both fields -/

theorem fieldOr_execution_eq_ok {mode : ExecutionMode} (free : v.ArrayFree) (fits : v.NumbersFit) :
    fieldOr v "execution" default.execution ExecutionMode.ofJson = .ok mode
      ↔ DenotesExecution (v.field? "execution") mode := by
  unfold fieldOr
  cases hfield : v.field? "execution" with
  | none =>
      refine ⟨fun h => ?_, fun h => ?_⟩
      · obtain rfl := Except.ok.inj h
        exact .absent
      · cases h with
        | absent => rfl
  | some found => exact executionMode_eq_ok (free.field hfield) (fits.field hfield)

theorem fieldOr_capacity_eq_ok {poolCapacity : Option Nat} (fits : v.NumbersFit) :
    fieldOr v "pool_capacity" default.poolCapacity (Json.asOptional Json.asSize) = .ok poolCapacity
      ↔ DenotesCapacity (v.field? "pool_capacity") poolCapacity := by
  unfold fieldOr
  cases hfield : v.field? "pool_capacity" with
  | none =>
      refine ⟨fun h => ?_, fun h => ?_⟩
      · obtain rfl := Except.ok.inj h
        exact .absent
      · cases h with
        | absent => rfl
  | some found =>
      rw [Json.asOptional_asSize_eq_ok]
      refine ⟨fun h => ?_, fun h => ?_⟩
      · rcases h with ⟨rfl, rfl⟩ | ⟨n, rfl, rfl⟩
        · exact .null
        · exact .size (fits _ (.of_field? hfield))
      · cases h with
        | null => exact Or.inl ⟨rfl, rfl⟩
        | size _ => exact Or.inr ⟨_, rfl, rfl⟩

theorem ofFields_eq_ok {c : Config} (free : (Json.object fields).ArrayFree)
    (fits : (Json.object fields).NumbersFit) :
    ofFields (.object fields) = .ok c ↔ Denotes (.object fields) c := by
  constructor
  · intro h
    unfold ofFields at h
    rcases hmode : fieldOr (.object fields) "execution" default.execution ExecutionMode.ofJson with
      f | mode
    -- the execution is read first, so its fault is the one that is told
    · rw [hmode] at h
      exact absurd h (by simp [bind, Except.bind])
    rcases hcapacity : fieldOr (.object fields) "pool_capacity" default.poolCapacity
      (Json.asOptional Json.asSize) with f | capacity
    · rw [hmode, hcapacity] at h
      exact absurd h (by simp [bind, Except.bind])
    · rw [hmode, hcapacity] at h
      obtain rfl := Except.ok.inj h
      exact .object ((fieldOr_capacity_eq_ok fits).mp hcapacity)
        ((fieldOr_execution_eq_ok free fits).mp hmode)
  · intro h
    cases h with
    | object capacity mode =>
        unfold ofFields
        rw [(fieldOr_execution_eq_ok free fits).mpr mode,
          (fieldOr_capacity_eq_ok fits).mpr capacity]
        rfl

/-- **The reader accepts what the grammar says, and as what it says.** -/
theorem ofJson_eq_ok {c : Config} (free : v.ArrayFree) (fits : v.NumbersFit) :
    ofJson v = .ok c ↔ Denotes v c := by
  cases v with
  | null =>
      refine ⟨fun h => ?_, fun h => ?_⟩
      · obtain rfl := Except.ok.inj h
        exact .null
      · cases h with
        | null => rfl
  | object fields =>
      rw [← ofFields_eq_ok free fits]
      unfold ofJson
      cases ofFields (.object fields) with
      | error f => simp [Except.mapError]
      | ok c => simp [Except.mapError]
  | array items => exact absurd rfl (free.ne_array items)
  | _ =>
      refine ⟨fun h => absurd h ?_, fun h => ?_⟩
      · simp [ofJson, Json.wrongType, Except.mapError]
      · cases h

theorem error_of_mapError {ε ε' α : Type} {f : ε → ε'} {read : Except ε α} {e : ε'}
    (h : read.mapError f = .error e) : ∃ x, e = f x := by
  cases read with
  | error x => exact ⟨x, (Except.error.inj h).symm⟩
  | ok a => exact absurd h (by simp [Except.mapError])

/-- What is not accepted is refused for its form. -/
theorem ofJson_error {e : Error} (h : ofJson v = .error e) :
    ∃ f, e = .serialization (.schema f) :=
  error_of_mapError h

/-- **Objects that agree in the fields of a configuration are read alike**, accepted or not. -/
theorem SameFields.ofJson_eq (same : SameFields fields fields') :
    ofJson (.object fields) = ofJson (.object fields') := by
  have hexecution : fieldOr (.object fields) "execution" default.execution ExecutionMode.ofJson
      = fieldOr (.object fields') "execution" default.execution ExecutionMode.ofJson := by
    have hsame := same.execution
    unfold fieldOr
    generalize (Json.object fields).field? "execution" = found at hsame ⊢
    generalize (Json.object fields').field? "execution" = found' at hsame ⊢
    cases hsame with
    | refl => rfl
    | object same => exact same.ofFields_eq
  have hcapacity : fieldOr (.object fields) "pool_capacity" default.poolCapacity
        (Json.asOptional Json.asSize)
      = fieldOr (.object fields') "pool_capacity" default.poolCapacity
        (Json.asOptional Json.asSize) := by
    unfold fieldOr
    rw [same.capacity]
  unfold ofJson ofFields
  dsimp only
  rw [hexecution, hcapacity]

/-- A field of another name is not looked at. -/
theorem sameFields_putField (value : Json) (hexecution : name ≠ "execution")
    (hcapacity : name ≠ "pool_capacity") :
    SameFields (Json.putField name value fields) fields where
  capacity := Json.field?_putField_ne hcapacity.symm
  execution := by
    rw [Json.field?_putField_ne hexecution.symm]
    exact .refl _

/-- Nor is one inside the execution, and the threads only if the mode is workers. -/
theorem sameFields_putField_execution {mode : List (String × Json)} (value : Json)
    (hfield : (Json.object fields).field? "execution" = some (.object mode)) (hmode : name ≠ "mode")
    (hthreads : name = "threads" → (Json.object mode).field? "mode" ≠ some (.string "workers")) :
    SameFields (Json.putField "execution" (.object (Json.putField name value mode)) fields)
      fields where
  capacity := Json.field?_putField_ne (by decide)
  execution := by
    rw [Json.field?_putField_self, hfield]
    refine .object ⟨Json.field?_putField_ne hmode.symm, fun hworkers => ?_⟩
    rw [Json.field?_putField_ne hmode.symm] at hworkers
    exact Json.field?_putField_ne fun hname => hthreads hname.symm hworkers

/-! ## Providers -/

open Provider Session

variable {around : State.Surroundings} {c : Config}

theorem uniform_moves_of_softwareOfConfig {p : Provider} (h : softwareOfConfig around c = .ok p)
    (ms : List Move) :
    ((start p).moves ms).Uniform (c.poolCapacity.getD (defaultCapacity around.processors)) := by
  by_cases hstarts : c.execution.Starts around
  · obtain ⟨executor, -, hmade⟩ := softwareOfConfig_of_starts hstarts
    obtain rfl := Except.ok.inj (hmade.symm.trans h)
    exact Session.Uniform.moves (s := start (software _)) (uniform_start _ _ _)
      (orderly_start _ _ _ _) ms
  · obtain ⟨why, hfailed⟩ := softwareOfConfig_of_not_starts hstarts
    exact absurd (hfailed.symm.trans h) (by simp)

/-- A value is read by the grammar, and so are providers set up. -/
structure ReadByGrammar (around : State.Surroundings) (v : Json) : Prop where
  /-- It is accepted if it is in the grammar, and then as the configuration that it stands for. -/
  accepted : ∀ c, ofJson v = .ok c ↔ Denotes v c
  /-- Else it is refused for its form, and nobody makes a provider of it: not the factory, nor the
  registry by the factory's name, nor the registry by preference. -/
  refused : (∀ c, ¬ Denotes v c) → ∃ f,
    ofJson v = .error (.serialization (.schema f))
      ∧ softwareFactory around v = .error (.serialization (.schema f))
      ∧ (defaultRegistry around).resolve softwareName v
        = (.error (.serialization (.schema f)), [softwareName])
      ∧ (defaultRegistry around).resolveDefault v
        = (.error (.notFound .anyProvider), [softwareName])
  /-- What comes of an object depends on the fields of the grammar alone. -/
  depends : ∀ fields fields', v = .object fields → SameFields fields fields' →
    ofJson (.object fields') = ofJson v
      ∧ softwareFactory around (.object fields') = softwareFactory around v
  /-- One more field, or another value of a field, changes nothing if the name is unknown. -/
  unknown : ∀ fields name value, v = .object fields → name ≠ "execution" →
    name ≠ "pool_capacity" → ofJson (.object (Json.putField name value fields)) = ofJson v
  /-- The same inside the execution, where the threads matter to workers alone. -/
  unknownInMode : ∀ fields mode name value, v = .object fields →
    v.field? "execution" = some (.object mode) → name ≠ "mode" →
    (name = "threads" → (Json.object mode).field? "mode" ≠ some (.string "workers")) →
      ofJson (.object (Json.putField "execution" (.object (Json.putField name value mode)) fields))
        = ofJson v
  /-- A provider is made of what is accepted if its executor can be started. -/
  made : ∀ c, Denotes v c → c.execution.Starts around → ∃ p, softwareFactory around v = .ok p
  /-- If not, that is an error, and of another kind. -/
  unstarted : ∀ c, Denotes v c → ¬c.execution.Starts around →
    ∃ why, softwareFactory around v = .error (.execution why)
  /-- All its pools have the capacity that is said, or else the default, whatever is done with
  them. -/
  capacity : ∀ c p, Denotes v c → softwareFactory around v = .ok p → ∀ ms : List Move,
    ((start p).moves ms).Uniform (c.poolCapacity.getD (defaultCapacity around.processors))

/-- Which configurations are accepted, and what providers are made of them. -/
structure ReadsConfigurations (around : State.Surroundings) : Prop where
  /-- Values without arrays are read by the grammar, if their integers are ones of 64 bits. -/
  values : ∀ v : Json, v.ArrayFree → v.NumbersFit → ReadByGrammar around v
  /-- Of a value that was read from a text there is nothing to ask but that. -/
  texts : ∀ text v, Json.parse text = .ok v → v.ArrayFree → ReadByGrammar around v

theorem readByGrammar (around : State.Surroundings) (free : v.ArrayFree) (fits : v.NumbersFit) :
    ReadByGrammar around v where
  accepted c := ofJson_eq_ok free fits
  refused := by
    intro hno
    rcases hread : ofJson v with e | c
    · obtain ⟨f, rfl⟩ := ofJson_error hread
      have hfactory := softwareFactory_of_error around hread
      exact ⟨f, rfl, hfactory, congrArg (·, [softwareName]) hfactory,
        resolveDefault_of_error hfactory⟩
    · exact absurd ((ofJson_eq_ok free fits).mp hread) (hno c)
  depends := by
    rintro fields fields' rfl same
    have heq := same.ofJson_eq
    refine ⟨heq.symm, ?_⟩
    unfold softwareFactory
    rw [heq]
  unknown := by
    rintro fields name value rfl hexecution hcapacity
    exact (sameFields_putField value hexecution hcapacity).ofJson_eq
  unknownInMode := by
    rintro fields mode name value rfl hfield hmode hthreads
    exact (sameFields_putField_execution value hfield hmode hthreads).ofJson_eq
  made c hdenotes hstarts := by
    rw [softwareFactory_of_ok ((ofJson_eq_ok free fits).mpr hdenotes)]
    obtain ⟨executor, -, hmade⟩ := softwareOfConfig_of_starts hstarts
    exact ⟨_, hmade⟩
  unstarted c hdenotes hstarts := by
    rw [softwareFactory_of_ok ((ofJson_eq_ok free fits).mpr hdenotes)]
    exact softwareOfConfig_of_not_starts hstarts
  capacity c p hdenotes hmade ms := by
    rw [softwareFactory_of_ok ((ofJson_eq_ok free fits).mpr hdenotes)] at hmade
    exact uniform_moves_of_softwareOfConfig hmade ms

/-- **Configurations are read by their grammar.** This holds of every value without arrays whose
integers have 64 bits, and so of every text without arrays. -/
theorem read_by_grammar (around : State.Surroundings) : ReadsConfigurations around where
  values _ free fits := readByGrammar around free fits
  texts _ _ hread free := readByGrammar around free (Json.numbersFit_of_parse hread)

/-- With two threads to start there is a provider for two workers, whose pools keep nothing, and
there is none for three. Fields that are not known change nothing. -/
theorem two_workers_read :
    let around : State.Surroundings := ⟨.seeded [], 4, false, ⟨2, "no more threads"⟩⟩
    let v (workers : Nat) : Json := .object [("capacity", Json.nat 9),
      ("execution", .object [("mode", .string "workers"), ("name", .string "w"),
        ("threads", Json.nat workers)]), ("pool_capacity", Json.nat 0)]
    (∃ p, softwareFactory around (v 2) = .ok p ∧ ∀ ms : List Move, ((start p).moves ms).Uniform 0)
      ∧ ∃ why, softwareFactory around (v 3) = .error (.execution why) := by
  intro around v
  have hread (workers : Nat) (small : workers ≤ Json.maxNatural) : ReadByGrammar around (v workers)
      ∧ Denotes (v workers) ⟨some 0, .workers workers⟩ := by
    have free : (v workers).ArrayFree := by simp [v, ArrayFree, Json.nat]
    have fits : (v workers).NumbersFit := by
      simp [v, NumbersFit, Json.nat, Json.Number.Fits, or_imp, forall_and, small]
      decide
    exact ⟨(read_by_grammar around).values _ free fits,
      .object (.size (Nat.zero_le _)) (.workers rfl rfl small)⟩
  obtain ⟨htwo, hdenotes⟩ := hread 2 (by decide)
  obtain ⟨p, hmade⟩ := htwo.made _ hdenotes (by decide)
  obtain ⟨hthree, hdenotes'⟩ := hread 3 (by decide)
  exact ⟨⟨p, hmade, htwo.capacity _ p hdenotes hmade⟩, hthree.unstarted _ hdenotes' (by decide)⟩

end Config
end PooledCrypto
