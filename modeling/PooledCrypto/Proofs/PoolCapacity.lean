import Mathlib.Data.List.Forall2
import PooledCrypto.Proofs.Lockstep

/-!
# The capacity is a bound on what is kept idle

The capacity of a provider's pools says how many idle handles each of them keeps, and that is all it
should do. Two sessions that differ in it are paired from the start and stay so, hence no script of
commands can tell them apart (`CachesOnly`).

One thing is in the way: a pool sets room aside for all the handles that it may ever keep idle, as
soon as it is made. A capacity for which there is no such room is accepted all the same, and the
first operation that makes a pool takes the session with it (`largest_capacity_unwinds`).
-/

namespace PooledCrypto.Session

open Provider

variable {k k' : Nat} {s t : Session} {l l' : Ledger}

/-! ## Any script -/

/-- What two callers are told of a script: the same, unless one of the two sessions unwound for want
of room. -/
def Told (k k' : Nat) (told told' : Option (List Answer)) : Prop :=
  (¬Roomy k ∧ told = none) ∨ (¬Roomy k' ∧ told' = none)
    ∨ Option.Rel (List.Forall₂ (Answer.Like k k')) told told'

theorem Answer.Like.unwound_eq {a a' : Answer} (h : a.Like k k' a') : a.unwound = a'.unwound := by
  obtain ⟨outcome, stage⟩ := a
  obtain ⟨outcome', stage'⟩ := a'
  obtain ⟨houtcome, _⟩ := h
  cases houtcome <;> rfl

/-- The answer to a command comes in front of what is told of the others. -/
theorem Told.cons {told told' : Option (List Answer)} {a a' : Answer} (h : Told k k' told told')
    (ha : a.Like k k' a') : Told k k' (told.map (a :: ·)) (told'.map (a' :: ·)) := by
  rcases h with ⟨hk, hnone⟩ | ⟨hk, hnone⟩ | hrel
  · exact Or.inl ⟨hk, by rw [hnone]; rfl⟩
  · exact Or.inr (Or.inl ⟨hk, by rw [hnone]; rfl⟩)
  · cases hrel with
    | none => exact Or.inr (Or.inr .none)
    | some hall => exact Or.inr (Or.inr (.some (.cons ha hall)))

theorem answers_paired (script : List (Option Command)) (s t : Session) (l l' : Ledger)
    (h : Paired k k' s t) (hs : Tracked s l) (ht : Tracked t l') :
    Told k k' (answers? script s) (answers? script t) := by
  induction script generalizing s t l l' with
  | nil => exact Or.inr (Or.inr (.some .nil))
  | cons c rest ih =>
      cases c with
      | none => exact (ih s t l l' h hs ht).cons (Answer.like_refl k k' _)
      | some c =>
          have hs' := tracked_step hs c
          have ht' := tracked_step ht c
          have hmeets := step_paired h hs ht c
          unfold answers?
          rcases hmeets with ⟨hk, hu⟩ | ⟨hk, hu⟩ | ⟨hlike, hp⟩
          · exact Or.inl ⟨hk, if_pos hu⟩
          · exact Or.inr (Or.inl ⟨hk, if_pos hu⟩)
          · dsimp only
            rw [hlike.unwound_eq]
            split
            · exact Or.inr (Or.inr .none)
            · exact (ih _ _ _ _ hp hs' ht').cons hlike

/-- Where there is room on both sides every command is answered alike. -/
theorem run_paired (hk : Roomy k) (hk' : Roomy k') (commands : List Command) (s t : Session)
    (l l' : Ledger) (h : Paired k k' s t) (hs : Tracked s l) (ht : Tracked t l') :
    List.Forall₂ (Answer.Like k k') (run commands s).1 (run commands t).1 := by
  induction commands generalizing s t l l' with
  | nil => exact .nil
  | cons c rest ih =>
      rcases step_paired h hs ht c with ⟨hshort, _⟩ | ⟨hshort, _⟩ | ⟨hlike, hp⟩
      · exact absurd hk hshort
      · exact absurd hk' hshort
      · exact .cons hlike (ih _ _ _ _ hp (tracked_step hs c) (tracked_step ht c))

/-! ## What a capacity does -/

/-- A session with a new provider that works in the caller's place. -/
def opened (entropy : Entropy) (capacity : Nat) : Session :=
  start (software (State.start .inPlace entropy capacity))

/-- No script tells the two capacities apart. -/
def Indistinct (entropy : Entropy) (k k' : Nat) : Prop :=
  ∀ script : List (Option Command), Option.Rel (List.Forall₂ (Answer.Like k k'))
    (answers? script (opened entropy k)) (answers? script (opened entropy k'))

/-- What can be told of two capacities of pools, with a source of randomness. -/
structure CachesOnly (entropy : Entropy) (k k' : Nat) : Prop where
  /-- It is the capacity of every configuration that is accepted and gives it. -/
  configured : ∀ (around : State.Surroundings) (json : Json) (config : Config),
    around.entropy = entropy → Config.ofJson json = .ok config → config.execution = .inPlace →
      config.effectiveCapacity around.processors = k →
        ∃ p, softwareFactory around json = .ok p ∧ start p = opened entropy k
  /-- Where there is room for the pools, every command is answered alike. -/
  steps : Roomy k → Roomy k' → ∀ commands : List Command, List.Forall₂ (Answer.Like k k')
    (run commands (opened entropy k)).1 (run commands (opened entropy k')).1
  /-- So it is for those who get their answers in the end, or none if a command unwinds. -/
  scripts : Roomy k → Roomy k' → Indistinct entropy k k'
  /-- Room or not, two scripts that are both answered are answered alike. -/
  answered : ∀ (script : List (Option Command)) (answers answers' : List Answer),
    answers? script (opened entropy k) = some answers →
      answers? script (opened entropy k') = some answers' →
        List.Forall₂ (Answer.Like k k') answers answers'
  /-- A script that unwinds with room for the pools unwinds with the other capacity, too. -/
  unwinds : ∀ script : List (Option Command), Roomy k →
    answers? script (opened entropy k) = none → answers? script (opened entropy k') = none
  /-- The capacity is as good as none at all exactly if there is room for the pools. -/
  exactly : Indistinct entropy k 0 ↔ Roomy k
  /-- Without room for it the pool of a digest cannot be made. -/
  hashers : ∀ (kind : Digest.Kind) (route : Factory.Route) (st : State), st.pools.capacity = k →
    (((Hasher.factory kind).make route id st).1 = .error .unwound
      ↔ st.pools.find? kind.name = none ∧ Room.most < k * HandleType.digest.size)
  /-- Without room for its contexts no MAC key can be imported. -/
  keys : ∀ (digest : String) (kind : Digest.Kind) (bytes : Bytes) (st : State),
    requireSha2 Algorithm.hmac digest = .ok kind → bytes ≠ [] → st.pools.capacity = k →
      ((HmacKey.decode digest .raw bytes st).1 = .error .unwound ↔ ¬Roomy k)

theorem told_opened (entropy : Entropy) (k k' : Nat) (script : List (Option Command)) :
    Told k k' (answers? script (opened entropy k)) (answers? script (opened entropy k')) :=
  answers_paired script _ _ _ _ (paired_open entropy k k') (tracked_start _ _ _)
    (tracked_start _ _ _)

theorem indistinct_of_roomy (entropy : Entropy) (hk : Roomy k) (hk' : Roomy k') :
    Indistinct entropy k k' := by
  intro script
  rcases told_opened entropy k k' script with ⟨hshort, _⟩ | ⟨hshort, _⟩ | hrel
  · exact absurd hk hshort
  · exact absurd hk' hshort
  · exact hrel

/-! ## Where there is no room -/

theorem unwound_plainly (w : Work) (s : Session) :
    (plainly w s).1.unwound = true ↔ (w s).1 = .error .unwound := by
  unfold plainly
  rcases w s with ⟨f | v, after⟩
  · cases f <;> simp [Answer.unwound]
  · simp [Answer.unwound]

theorem fst_keepKey (dest : Option String) (key : Provider.Key) (drawn : Bool) (said : Value)
    (s : Session) : (keepKey dest key drawn said s).1 = .ok said := by
  rw [keepKey, Action.fst_bind]
  cases dest with
  | none => rfl
  | some name => rfl

/-- Where MACs are provided, a key for them cannot be imported exactly where there is no room for
its contexts. -/
theorem unwinds_importHmac {digest : String} {kind : Digest.Kind} {key : Datum}
    (hget : (onProvider (get .hmac Algorithm.hmac) s).1 = .ok ())
    (hkind : requireSha2 Algorithm.hmac digest = .ok kind) (hne : key.bytes ≠ [])
    (dest : Option String) :
    (importHmac dest digest .raw key s).1 = .error .unwound
      ↔ ¬Roomy s.provider.state.pools.capacity := by
  have hstate : (onProvider (get .hmac Algorithm.hmac) s).2.provider.state = s.provider.state :=
    state_get .hmac Algorithm.hmac s.provider
  have hdecode : (onState (HmacKey.decode digest .raw key.bytes)
      (onProvider (get .hmac Algorithm.hmac) s).2).1
        = (HmacKey.decode digest .raw key.bytes s.provider.state).1 :=
    congrArg (fun st => (HmacKey.decode digest .raw key.bytes st).1) hstate
  rw [importHmac, Action.fst_bind, hget, Except.bind, Action.fst_bind, hdecode,
    ← unwinds_key_iff hkind hne s.provider.state]
  cases (HmacKey.decode digest .raw key.bytes s.provider.state).1 with
  | error f => simp [Except.bind]
  | ok k => simp [Except.bind, fst_keepKey]

/-- The shortest script that needs room for the contexts of a key. -/
def keyScript : List (Option Command) := [some (.importHmac none "SHA-256" .raw (.plain [0]))]

theorem answers_keyScript (entropy : Entropy) (k : Nat) :
    answers? keyScript (opened entropy k) = none ↔ ¬Roomy k := by
  have hkind : requireSha2 Algorithm.hmac "SHA-256" = .ok .sha256 := by rfl
  have hstep : (opened entropy k).step (.importHmac none "SHA-256" .raw (.plain [0]))
      = plainly (importHmac none "SHA-256" .raw ⟨[0], false⟩) (opened entropy k) := rfl
  have hunwinds : (importHmac none "SHA-256" .raw ⟨[0], false⟩ (opened entropy k)).1
      = .error .unwound ↔ ¬Roomy k :=
    unwinds_importHmac rfl hkind (List.cons_ne_nil 0 []) none
  rw [← unwound_plainly] at hunwinds
  rw [keyScript, answers?, hstep, ← hunwinds]
  simp [answers?]

theorem roomy_zero : Roomy 0 := by simp [Roomy]

/-- **The capacity of pools bounds what is kept idle, and nothing else, where there is room for the
pools.** Whoever runs a script on a provider learns from its answers no more of the capacity than
the counts of idle handles and what diagnostics show of it, but for one thing: whether there is room
to set aside for that many handles. -/
theorem capacity_caches_only (entropy : Entropy) (k k' : Nat) : CachesOnly entropy k k' where
  configured := by
    intro around json config hentropy hjson hmode hcapacity
    have hbuild : config.execution.build around.runtime around.threads = .ok .inPlace := by
      rw [hmode]
      rfl
    refine ⟨software (State.start .inPlace entropy k), ?_, rfl⟩
    subst hentropy hcapacity
    unfold softwareFactory softwareOfConfig State.ofConfig
    rw [hjson]
    dsimp only [bind, Except.bind]
    rw [hbuild]
    rfl
  steps hk hk' commands :=
    run_paired hk hk' commands _ _ _ _ (paired_open entropy k k') (tracked_start _ _ _)
      (tracked_start _ _ _)
  scripts := indistinct_of_roomy entropy
  answered := by
    intro script answers answers' ha ha'
    have htold := told_opened entropy k k' script
    rw [ha, ha'] at htold
    rcases htold with ⟨_, hnone⟩ | ⟨_, hnone⟩ | hrel
    · exact absurd hnone (by simp)
    · exact absurd hnone (by simp)
    · cases hrel with
      | some hall => exact hall
  unwinds := by
    intro script hk hnone
    have htold := told_opened entropy k k' script
    rw [hnone] at htold
    rcases htold with ⟨hshort, _⟩ | ⟨_, hnone'⟩ | hrel
    · exact absurd hk hshort
    · exact hnone'
    · generalize answers? script (opened entropy k') = told at hrel
      cases hrel with
      | none => rfl
  exactly := by
    refine ⟨fun h => ?_, fun hk => indistinct_of_roomy entropy hk roomy_zero⟩
    -- importing a key tells a capacity without room from none at all
    by_contra hk
    have hscript := h keyScript
    have hzero : answers? keyScript (opened entropy 0) ≠ none := fun hnone =>
      (answers_keyScript entropy 0).1 hnone roomy_zero
    rw [(answers_keyScript entropy k).2 hk] at hscript
    generalize answers? keyScript (opened entropy 0) = told at hscript hzero
    cases hscript with
    | none => exact hzero rfl
  hashers := by
    rintro kind route st rfl
    exact unwinds_hasher_iff kind route st
  keys := by
    rintro digest kind bytes st hkind hne rfl
    exact unwinds_key_iff hkind hne st

/-- The largest capacity is accepted, and takes the session with it at the first hasher. -/
theorem largest_capacity_unwinds :
    let told (capacity : Nat) : Option Bool :=
      let json := Json.ofFields [("pool_capacity", Json.nat capacity)]
      (softwareFactory ⟨.seeded [], 1, false, ⟨1, "no more threads"⟩⟩ json).toOption.map fun p =>
        (answers? [some (.hasher (some "h") "SHA-256" .create)] (start p)).isSome
    told Json.maxNatural = some false ∧ told 0 = some true :=
  ⟨by rfl, by rfl⟩

end PooledCrypto.Session
