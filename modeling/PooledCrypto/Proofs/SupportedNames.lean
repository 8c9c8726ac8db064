import PooledCrypto.Proofs.BuildOnce
import PooledCrypto.Provider.Software

/-!
# What a supported name promises

A catalogue says that it supports a name when its table has an algorithm of that name, and it looks
at nothing else. A lookup also compares the family. So the two part ways at one kind of identifier
only, a name that was given to an algorithm of another family (`Misfiled`): the name is said to be
supported, and yet nobody finds it under the family that was asked for.

Both answers depend on nothing but the first offer under the name. So it makes no difference when
the caller asks, what was looked up in between, or who else came between looking and building
(`supports_up_to_family`).
-/

namespace PooledCrypto.Provider

variable {φ : Type} {ι : φ → Type}

/-- The name belongs to an algorithm of another family. -/
def Misfiled (offers : List (TableEntry φ ι)) (f : φ) (name : String) : Prop :=
  ∃ entry, firstOf offers name = some entry ∧ entry.family ≠ f

/-- What asking whether a name is supported has to do with looking it up, at one moment. -/
structure SupportsUpToFamily [DecidableEq φ] (provider : String) (offers : List (TableEntry φ ι))
    (d : Desk φ ι) : Prop where
  /-- A name is supported if it was offered, for whatever family. -/
  supports : ∀ name, d.catalogue.supports name = true ↔ ∃ entry, firstOf offers name = some entry
  /-- An algorithm is found if the first offer under its name was of its family. Then it is the one
  that was offered. -/
  found : ∀ f name it, (d.catalogue.lookup? f name).1 = some it → ∃ entry,
    firstOf offers name = some entry ∧ ∃ h : entry.family = f, it.value = h ▸ entry.build it.serial
  /-- Else nothing is found. -/
  missing : ∀ f name, (d.catalogue.lookup? f name).1 = none ↔
    ¬ ∃ entry, firstOf offers name = some entry ∧ entry.family = f
  /-- Who insists on the algorithm is given the one that is found, or the error that names it. -/
  insists : ∀ f name, d.catalogue.lookup f name =
    (((d.catalogue.lookup? f name).1.elim (.error (.algorithmNotFound name provider)) .ok),
      (d.catalogue.lookup? f name).2)
  /-- Nothing is found under a name that is not supported. -/
  sound : ∀ f name, (d.catalogue.lookup? f name).1.isSome = true →
    d.catalogue.supports name = true
  /-- The two answers differ for the names of other families, and for no others. -/
  exactly : ∀ f name, ¬ Misfiled offers f name ↔
    d.catalogue.supports name = (d.catalogue.lookup? f name).1.isSome
  /-- Who was told that the name is supported finds it whenever it is looked up, unless the name is
  one of another family. -/
  keptWord : ∀ f name, d.catalogue.supports name = true → ¬ Misfiled offers f name →
    ∀ more, ∃ it, ((d.perform more).catalogue.lookup f name).1 = .ok it
  /-- If it is one, then the caller is always refused. -/
  brokenWord : ∀ f name, Misfiled offers f name → d.catalogue.supports name = true
    ∧ ∀ more, ((d.perform more).catalogue.lookup f name).1
        = .error (.algorithmNotFound name provider)
  /-- The same for callers that came between each other: of those who looked a name up that
  somebody was told is supported, only those of another family were refused. -/
  told : ∀ a b r, (a, .flag true) ∈ d.answered → (b, r) ∈ d.answered → b.wish ≠ .supports →
    a.name = b.name → (r = b.tell provider none ↔ Misfiled offers b.family b.name)

variable [DecidableEq φ] {provider name : String} {offers : List (TableEntry φ ι)}
  {asked : List (Ask φ)} {c : Catalogue φ ι} {d : Desk φ ι} {entry : TableEntry φ ι} {f : φ}

/-! ## Which instance is kept -/

omit [DecidableEq φ] in
theorem made_build (ht : c.table = .ofOffers offers) (hm : ∀ i ∈ c.built, Made offers i)
    (name : String) : ∀ i ∈ (c.build name).built, Made offers i := by
  rcases build_cases c name with ⟨_, hsame⟩ | ⟨entry, _, hentry, _, hmore⟩
  · rw [hsame]
    exact hm
  · rw [hmore]
    intro i hi
    rcases List.mem_append.mp hi with hold | hnew
    · exact hm i hold
    · obtain rfl := List.mem_singleton.mp hnew
      rw [ht, find?_ofOffers] at hentry
      exact ⟨entry, hentry, rfl⟩

/-- No instance is kept of a name that was never offered. -/
theorem Desk.Sound.kept?_none (h : d.Sound provider offers asked)
    (hfirst : firstOf offers name = none) : (d.catalogue.build name).kept? name = none := by
  cases hk : (d.catalogue.build name).kept? name with
  | none => rfl
  | some i =>
      obtain ⟨hi, hname⟩ := mem_of_kept hk
      obtain ⟨entry, hentry, _⟩ := made_build h.table h.made name i hi
      rw [hname, hfirst] at hentry
      exact absurd hentry (by simp)

/-- After building, the instance that is kept of a name was made by the first offer. -/
theorem Desk.Sound.kept?_some (h : d.Sound provider offers asked)
    (hfirst : firstOf offers name = some entry) : ∃ serial,
      (d.catalogue.build name).kept? name
        = some ⟨name, entry.family, serial, entry.build serial⟩ := by
  have hcontains : d.catalogue.table.contains name = true := by
    rw [h.contains, hfirst]
    rfl
  obtain ⟨i, hk⟩ := Option.isSome_iff_exists.mp (kept?_build_self hcontains)
  obtain ⟨hi, rfl⟩ := mem_of_kept hk
  obtain ⟨own, hown, hmade⟩ := made_build h.table h.made i.name i hi
  obtain rfl : own = entry := Option.some.inj (hown.symm.trans hfirst)
  exact ⟨i.serial, by rw [hk, ← hmade]⟩

/-! ## What a lookup comes to -/

theorem Desk.Sound.lookup?_none (h : d.Sound provider offers asked)
    (hfirst : firstOf offers name = none) (f : φ) : (d.catalogue.lookup? f name).1 = none := by
  rw [lookup?_eq, h.kept?_none hfirst]
  rfl

theorem Desk.Sound.lookup?_own (h : d.Sound provider offers asked)
    (hfirst : firstOf offers name = some entry) : ∃ serial,
      (d.catalogue.lookup? entry.family name).1 = some ⟨serial, entry.build serial⟩ := by
  obtain ⟨serial, hk⟩ := h.kept?_some hfirst
  refine ⟨serial, ?_⟩
  rw [lookup?_eq, hk]
  exact dif_pos rfl

theorem Desk.Sound.lookup?_other (h : d.Sound provider offers asked)
    (hfirst : firstOf offers name = some entry) (hf : entry.family ≠ f) :
    (d.catalogue.lookup? f name).1 = none := by
  obtain ⟨serial, hk⟩ := h.kept?_some hfirst
  rw [lookup?_eq, hk]
  exact dif_neg hf

/-- The three ways a lookup can come out, by the first offer under the name. -/
theorem Desk.Sound.lookup?_cases (h : d.Sound provider offers asked) (f : φ) (name : String) :
    (firstOf offers name = none ∧ (d.catalogue.lookup? f name).1 = none)
      ∨ (Misfiled offers f name ∧ (d.catalogue.lookup? f name).1 = none)
      ∨ ∃ entry, firstOf offers name = some entry ∧ ∃ h : entry.family = f, ∃ serial,
          (d.catalogue.lookup? f name).1 = some ⟨serial, h ▸ entry.build serial⟩ := by
  cases hfirst : firstOf offers name with
  | none => exact Or.inl ⟨rfl, h.lookup?_none hfirst f⟩
  | some entry =>
      right
      by_cases hf : entry.family = f
      · subst hf
        exact Or.inr ⟨entry, rfl, rfl, h.lookup?_own hfirst⟩
      · exact Or.inl ⟨⟨entry, hfirst, hf⟩, h.lookup?_other hfirst hf⟩

theorem Desk.Sound.supports_iff (h : d.Sound provider offers asked) (name : String) :
    d.catalogue.supports name = true ↔ ∃ entry, firstOf offers name = some entry := by
  rw [Catalogue.supports, h.contains, Option.isSome_iff_exists]

/-- Insisting makes an error of finding nothing, and no other difference. -/
theorem Desk.Sound.lookup_eq (h : d.Sound provider offers asked) (f : φ) (name : String) :
    d.catalogue.lookup f name =
      ((d.catalogue.lookup? f name).1.elim (.error (.algorithmNotFound name provider)) .ok,
        (d.catalogue.lookup? f name).2) := by
  have hprovider : (d.catalogue.lookup? f name).2.provider = provider := by
    rw [lookup?_eq, provider_build, h.provider]
  unfold Catalogue.lookup
  rcases hl : d.catalogue.lookup? f name with ⟨_ | it, after⟩
  · rw [hl] at hprovider
    dsimp only at hprovider ⊢
    rw [hprovider]
    rfl
  · rfl

/-- A caller that looked a name up was told what the lookup comes to. -/
theorem Desk.Sound.refused_iff (h : d.Sound provider offers asked) {b : Ask φ} {r : Reply φ ι}
    (hb : (b, r) ∈ d.answered) (hw : b.wish ≠ .supports)
    (hoffered : firstOf offers b.name = some entry) :
    r = b.tell provider none ↔ Misfiled offers b.family b.name := by
  have hproper := h.proper hb
  unfold Ask.Proper at hproper
  split at hproper
  · rename_i hwish
    exact absurd hwish hw
  · rw [hoffered] at hproper
    rcases hproper with ⟨hf, serial, rfl⟩ | ⟨hf, rfl⟩
    · constructor
      · intro hnone
        exact absurd hnone.symm (tell_none_ne b provider _ _)
      · rintro ⟨own, hown, hne⟩
        obtain rfl : entry = own := Option.some.inj (hoffered.symm.trans hown)
        exact absurd hf hne
    · exact iff_of_true rfl ⟨entry, hoffered, hf⟩

/-! ## The promise -/

theorem Desk.Sound.supportsUpToFamily (h : d.Sound provider offers asked) :
    SupportsUpToFamily provider offers d where
  supports := h.supports_iff
  found f name it hit := by
    rcases h.lookup?_cases f name with ⟨_, hl⟩ | ⟨_, hl⟩ | ⟨entry, hfirst, hf, serial, hl⟩
    · exact absurd (hl.symm.trans hit) (by simp)
    · exact absurd (hl.symm.trans hit) (by simp)
    · obtain rfl := Option.some.inj (hl.symm.trans hit)
      exact ⟨entry, hfirst, hf, rfl⟩
  missing f name := by
    rcases h.lookup?_cases f name with ⟨hfirst, hl⟩ | ⟨⟨entry, hfirst, hf⟩, hl⟩
      | ⟨entry, hfirst, hf, serial, hl⟩
    · simp [hfirst, hl]
    · simp [hfirst, hl, hf]
    · simp [hfirst, hl, hf]
  insists := h.lookup_eq
  sound f name hsome := by
    rw [h.supports_iff]
    rcases h.lookup?_cases f name with ⟨_, hl⟩ | ⟨⟨entry, hfirst, _⟩, _⟩ | ⟨entry, hfirst, _⟩
    · exact absurd hsome (by simp [hl])
    · exact ⟨entry, hfirst⟩
    · exact ⟨entry, hfirst⟩
  exactly f name := by
    have hsupports : d.catalogue.supports name = (firstOf offers name).isSome := h.contains name
    rw [hsupports]
    rcases h.lookup?_cases f name with ⟨hfirst, hl⟩ | ⟨hmis, hl⟩ | ⟨entry, hfirst, hf, serial, hl⟩
    · simp [Misfiled, hfirst, hl]
    · obtain ⟨_, hfirst, _⟩ := id hmis
      simp [hmis, hfirst, hl]
    · simp [Misfiled, hfirst, hl, hf]
  keptWord f name hsupported hmis more := by
    obtain ⟨entry, hfirst⟩ := (h.supports_iff name).mp hsupported
    -- what the table says of a name is the same after any more requests
    have hlater := h.perform more
    rw [hlater.lookup_eq]
    rcases hlater.lookup?_cases f name with ⟨hnone, _⟩ | ⟨hother, _⟩ | ⟨_, _, _, serial, hl⟩
    · exact absurd (hnone.symm.trans hfirst) (by simp)
    · exact absurd hother hmis
    · exact ⟨_, by rw [hl]; rfl⟩
  brokenWord f name hmis := by
    obtain ⟨entry, hfirst, hf⟩ := hmis
    refine ⟨(h.supports_iff name).mpr ⟨entry, hfirst⟩, fun more => ?_⟩
    have hlater := h.perform more
    rw [hlater.lookup_eq, hlater.lookup?_other hfirst hf]
    rfl
  told a b r ha hb hw hname := by
    have hproper := h.proper ha
    have hoffered : (firstOf offers a.name).isSome = true := by
      unfold Ask.Proper at hproper
      split at hproper
      · exact (Reply.flag.inj hproper).symm
      · -- only who asks for it is told a flag
        cases hfirst : firstOf offers a.name with
        | some entry => rfl
        | none =>
            rw [hfirst] at hproper
            unfold Ask.tell at hproper
            cases hwish : a.wish <;> simp [hwish] at hproper
    obtain ⟨entry, hfirst⟩ := Option.isSome_iff_exists.mp hoffered
    exact h.refused_iff hb hw (hname ▸ hfirst)

/-- **A supported name is found, but for the names of other families.**

Offer any algorithms to a table and let any callers look names up, for whatever families and in any
order. At every moment a name is supported exactly if it was offered. It is found exactly if the
first offer under it was of the family that is asked for, and who insists on it is refused with the
error that names it exactly if it is not found. So whoever checked that a name is supported is
refused later exactly if the name belongs to an algorithm of another family. -/
theorem supports_up_to_family (provider : String) (offers : List (TableEntry φ ι))
    (moves : List (Move φ)) :
    SupportsUpToFamily provider offers ((Desk.start provider offers).perform moves) :=
  ((sound_open provider offers).perform moves).supportsUpToFamily

/-- A digest is supported for authentication too, and is refused there. -/
theorem digest_supported_as_hmac :
    let c : Algorithms := .ofTable softwareName softwareTable
    c.supports "SHA-256" = true ∧ (c.lookup? .hmac "SHA-256").1.isSome = false
      ∧ (c.lookup .hmac "SHA-256").1 = .error (.algorithmNotFound "SHA-256" "software") :=
  ⟨by decide, by decide, by decide⟩

end PooledCrypto.Provider
