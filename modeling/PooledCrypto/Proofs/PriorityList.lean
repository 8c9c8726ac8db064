import Mathlib.Data.List.Nodup
import PooledCrypto.Proofs.Registration
import PooledCrypto.Provider.Software

/-!
# Registries as lists of priorities

A registry of providers is asked one thing after the other: to enter a factory, to make the provider
of a name, to make the best provider there is, or what names it knows (`Request`). What it says is
read off the factories that it was offered so far (`offered`), and nothing else: the factory in
force under a name is the first that was offered (`inForce`), and the names rank in the order in
which they first came up (`ranking`).

A registry is a table whose algorithms are factories (`table`), so that what is known of tables that
were filled by offers holds here too. What is added is the search for a default, which goes down the
ranking until a factory does not fail (`Search`).
-/

namespace PooledCrypto.Provider.Registry

variable {π : Type}

/-! ## Requests -/

/-- What a registry can be asked. -/
inductive Request (π : Type)
  | register (name : String) (factory : ProviderFactory π)
  | resolve (name : String) (config : Json)
  | resolveDefault (config : Json)
  | providers
  | hasProvider (name : String)

/-- What a registry answers. -/
inductive Answer (π : Type)
  | entered (result : Except Error Unit)
  /-- The provider, and the names of the factories that were called for it. -/
  | made (result : Except Error π) (called : List String)
  | names (names : List String)
  | known (known : Bool)

/-- The answer, and the registry after it. -/
def perform (r : Registry π) : Request π → Answer π × Registry π
  | .register name factory =>
    match r.register name factory with
    | .ok larger => (.entered (.ok ()), larger)
    | .error e => (.entered (.error e), r)
  | .resolve name config => (.made (r.resolve name config).1 (r.resolve name config).2, r)
  | .resolveDefault config => (.made (r.resolveDefault config).1 (r.resolveDefault config).2, r)
  | .providers => (.names r.providers, r)
  | .hasProvider name => (.known (r.hasProvider name), r)

/-- The registry after requests, from one that knows no provider. -/
def after (past : List (Request π)) : Registry π := past.foldl (fun r q => (r.perform q).2) empty

/-- The factory that a request offers. -/
def Request.offer? : Request π → Option (String × ProviderFactory π)
  | .register name factory => some (name, factory)
  | _ => none

/-- The factories that were offered, accepted or refused. -/
def offered (past : List (Request π)) : List (String × ProviderFactory π) :=
  past.filterMap Request.offer?

/-- The factory in force under a name: the first that was offered. -/
def inForce (past : List (Request π)) (name : String) : Option (ProviderFactory π) :=
  ((offered past).find? fun f => f.1 == name).map (·.2)

/-- The names that were offered, each at its first place. -/
def ranking (past : List (Request π)) : List String := ((offered past).map (·.1)).eraseDups

/-! ## Rank and search -/

/-- The factory in force under a name does not make a provider. -/
def Fails (past : List (Request π)) (config : Json) (name : String) : Prop :=
  ∃ factory e, inForce past name = some factory ∧ factory config = .error e

/-- How a search for a default ends: what comes of it, and whose factories were called. -/
inductive Search (past : List (Request π)) (config : Json) : Except Error π → List String → Prop
  /-- Those in front fail, and the next one makes the provider. -/
  | found {front : List String} {name : String} {rest : List String} {factory : ProviderFactory π}
      {provider : π} (split : ranking past = front ++ name :: rest)
      (fail : ∀ n ∈ front, Fails past config n) (force : inForce past name = some factory)
      (made : factory config = .ok provider) : Search past config (.ok provider) (front ++ [name])
  /-- All fail. -/
  | none (fail : ∀ n ∈ ranking past, Fails past config n) :
      Search past config (.error (.notFound .anyProvider)) (ranking past)

/-- What is known of a registry that was asked all this. -/
structure Prioritised (past : List (Request π)) : Prop where
  /-- The names are listed in the order in which they were first offered, each once. -/
  providers : (after past).perform .providers = (.names (ranking past), after past)
  nodup : (ranking past).Nodup
  hasProvider : ∀ name, (after past).perform (.hasProvider name)
    = (.known (decide (name ∈ ranking past)), after past)
  /-- A name that is taken is refused, and the registry stays as it is. -/
  taken : ∀ name factory, name ∈ ranking past →
    (after past).perform (.register name factory)
        = (.entered (.error (.alreadyExists (.provider name))), after past)
      ∧ inForce (past ++ [.register name factory]) = inForce past
  /-- A free name is entered behind the others, which keep their factories. -/
  free : ∀ name factory, name ∉ ranking past →
    (after past).perform (.register name factory)
        = (.entered (.ok ()), after (past ++ [.register name factory]))
      ∧ ranking (past ++ [.register name factory]) = ranking past ++ [name]
      ∧ inForce (past ++ [.register name factory])
        = fun n => if n = name then some factory else inForce past n
  /-- The factory in force is called, and no other; what it says is the answer. -/
  resolve : ∀ name config factory, inForce past name = some factory →
    (after past).perform (.resolve name config) = (.made (factory config) [name], after past)
  /-- A name that is not known calls no factory. -/
  unknown : ∀ name config, (after past).hasProvider name = false →
    (after past).perform (.resolve name config)
      = (.made (.error (.notFound (.provider name))) [], after past)
  /-- Every name that is known has a factory in force. -/
  known : ∀ name, (after past).hasProvider name = true ↔ ∃ factory, inForce past name = some factory
  /-- The search for a default goes down the ranking and stops at the first success. -/
  resolveDefault : ∀ config, ∃ result called,
    (after past).perform (.resolveDefault config) = (.made result called, after past)
      ∧ Search past config result called
  /-- No factory is called twice, or before one that ranks higher. -/
  inOrder : ∀ config result called, Search past config result called →
    called <+: ranking past ∧ called.Nodup
  /-- There is no default exactly if every factory fails. -/
  notFound_iff : ∀ config, ((after past).resolveDefault config).1 = .error (.notFound .anyProvider)
    ↔ ∀ name ∈ ranking past, Fails past config name
  /-- The search depends on nothing but the names and what the factories that are called say to this
  configuration. -/
  called_only : ∀ config (other : List (Request π)), ranking other = ranking past →
    (∀ name ∈ ((after past).resolveDefault config).2, ∃ f g, inForce past name = some f
      ∧ inForce other name = some g ∧ g config = f config) →
    (after other).resolveDefault config = (after past).resolveDefault config

/-! ## A registry as a table -/

/-- A factory as an algorithm of the one family there is. -/
def entryOf (f : String × ProviderFactory π) : TableEntry Unit fun _ => ProviderFactory π :=
  ⟨f.1, (), fun _ => f.2⟩

/-- A registry as a table whose algorithms are factories. -/
def table (r : Registry π) : Table Unit fun _ => ProviderFactory π := ⟨r.factories.map entryOf⟩

variable {r : Registry π} {past : List (Request π)} {name : String} {config : Json}
  {factory : ProviderFactory π}

theorem names_table (r : Registry π) : r.table.names = r.providers := by
  simp [table, Table.names, providers, Function.comp_def, entryOf]

theorem find?_table (r : Registry π) (name : String) :
    r.table.find? name = (r.factories.find? fun f => f.1 == name).map entryOf := by
  rw [Table.find?, table, List.find?_map]
  rfl

theorem hasProvider_eq (r : Registry π) (name : String) :
    r.hasProvider name = decide (name ∈ r.providers) := by
  rw [Bool.eq_iff_iff, decide_eq_true_iff]
  simp [hasProvider, providers]

/-- A name that is taken is refused, and the list stays. -/
theorem perform_register_taken (h : name ∈ r.providers) :
    r.perform (.register name factory)
      = (.entered (.error (.alreadyExists (.provider name))), r) := by
  have hhas : r.hasProvider name = true := by rw [hasProvider_eq, decide_eq_true h]
  rw [perform, register, if_pos hhas]

/-- A name that is free comes last. -/
theorem perform_register_free (h : name ∉ r.providers) :
    r.perform (.register name factory)
      = (.entered (.ok ()), ⟨r.factories ++ [(name, factory)]⟩) := by
  have hhas : ¬ r.hasProvider name = true := by
    rw [hasProvider_eq, decide_eq_true_iff]
    exact h
  rw [perform, register, if_neg hhas]

/-- One request changes the table as the offer in it does. -/
theorem table_perform (r : Registry π) (q : Request π) :
    (r.perform q).2.table = (q.offer?.toList.map entryOf).foldl Table.offer r.table := by
  cases q with
  | register name factory =>
      -- both refuse the name if it is taken, each with an error of its own
      show _ = r.table.offer (entryOf (name, factory))
      by_cases h : name ∈ r.providers
      · have htaken : (r.table.find? name).isSome :=
          (find?_isSome_iff _ _).mpr (by rwa [names_table])
        rw [perform_register_taken h, offer_taken htaken]
      · have hfree : r.table.find? name = none := (find?_eq_none_iff _ _).mpr (by rwa [names_table])
        rw [perform_register_free h, offer_free hfree]
        simp [table]
  | _ => rfl

/-- One request more is one step more. -/
theorem after_snoc (past : List (Request π)) (q : Request π) :
    after (past ++ [q]) = ((after past).perform q).2 := by
  simp [after]

theorem offered_snoc (past : List (Request π)) (q : Request π) :
    offered (past ++ [q]) = offered past ++ q.offer?.toList := by
  rw [offered, List.filterMap_append]
  cases q <;> rfl

/-- The list is a table of offers, so the first offer of a name is the one that counts. -/
theorem table_after (past : List (Request π)) :
    (after past).table = Table.ofOffers ((offered past).map entryOf) := by
  induction past using List.reverseRecOn with
  | nil => rfl
  | append_singleton front q ih =>
      rw [after_snoc, table_perform, ih, offered_snoc, List.map_append, Table.ofOffers,
        Table.ofOffers, List.foldl_append]

/-! ## What is known, and who is in force -/

theorem providers_after (past : List (Request π)) : (after past).providers = ranking past := by
  rw [← names_table, table_after, names_ofOffers, List.map_map]
  rfl

theorem find?_after (past : List (Request π)) (name : String) :
    (after past).factories.find? (fun f => f.1 == name)
      = (offered past).find? fun f => f.1 == name := by
  have htable := find?_ofOffers ((offered past).map entryOf) name
  rw [← table_after, find?_table, firstOf, List.find?_map] at htable
  -- an entry says which pair it comes from
  refine Option.map_injective (fun f g h => ?_) htable
  rw [entryOf, entryOf, TableEntry.mk.injEq] at h
  exact Prod.ext h.1 (congrFun (eq_of_heq h.2.2) 0)

/-- What is in the list has a factory in force, and the other way round. -/
theorem mem_ranking : name ∈ ranking past ↔ ∃ factory, inForce past name = some factory := by
  rw [← providers_after, ← names_table, ← find?_isSome_iff, find?_table, find?_after, inForce]
  cases (offered past).find? fun f => f.1 == name <;> simp

theorem hasProvider_after (past : List (Request π)) (name : String) :
    (after past).hasProvider name = decide (name ∈ ranking past) := by
  rw [hasProvider_eq, providers_after]

theorem ranking_taken (h : name ∈ ranking past) :
    ranking (past ++ [.register name factory]) = ranking past := by
  rw [← providers_after, after_snoc, perform_register_taken (by rwa [providers_after]),
    providers_after]

theorem ranking_free (h : name ∉ ranking past) :
    ranking (past ++ [.register name factory]) = ranking past ++ [name] := by
  rw [← providers_after, after_snoc, perform_register_free (by rwa [providers_after]), providers,
    List.map_append, ← providers, providers_after]
  rfl

theorem ranking_other {q : Request π} (h : q.offer? = none) :
    ranking (past ++ [q]) = ranking past := by
  rw [ranking, offered_snoc, h, Option.toList_none, List.append_nil, ← ranking]

theorem nodup_ranking (past : List (Request π)) : (ranking past).Nodup := by
  induction past using List.reverseRecOn with
  | nil => exact List.nodup_nil
  | append_singleton front q ih =>
      cases q with
      | register name factory =>
          by_cases h : name ∈ ranking front
          · rwa [ranking_taken h]
          · rw [ranking_free h]
            exact List.nodup_append_comm.mp (List.nodup_cons.mpr ⟨h, ih⟩)
      | _ => rwa [ranking_other rfl]

/-- The first offer counts. -/
theorem inForce_register (past : List (Request π)) (name n : String)
    (factory : ProviderFactory π) :
    inForce (past ++ [.register name factory]) n
      = (inForce past n).or (if name = n then some factory else none) := by
  rw [inForce, offered_snoc, List.find?_append, Option.map_or, ← inForce]
  congr 1
  show ([(name, factory)].find? _).map _ = _
  rw [List.find?_singleton]
  by_cases h : name = n <;> simp [h]

theorem inForce_of_mem {f : String × ProviderFactory π} (h : f ∈ (after past).factories) :
    inForce past f.1 = some f.2 := by
  have hnodup : ((after past).factories.map (·.1)).Nodup := by
    rw [← providers, providers_after]
    exact nodup_ranking past
  rw [inForce, ← find?_after]
  cases hfind : (after past).factories.find? fun g => g.1 == f.1 with
  | none => exact absurd (List.find?_eq_none.mp hfind f h) (by simp)
  | some g =>
      -- no name stands twice, so what is found is the one that was looked for
      have hname : g.1 = f.1 := by simpa using List.find?_some hfind
      rw [List.inj_on_of_nodup_map hnodup (List.mem_of_find?_eq_some hfind) h hname]
      rfl

/-! ## The search for a default -/

/-- Factories that fail are called and left behind. -/
theorem resolveFirst_append {front : List (String × ProviderFactory π)}
    (h : ∀ f ∈ front, ∃ e, f.2 config = .error e) (rest : List (String × ProviderFactory π)) :
    resolveFirst config (front ++ rest)
      = ((resolveFirst config rest).1, front.map (·.1) ++ (resolveFirst config rest).2) := by
  induction front with
  | nil => rfl
  | cons f front ih =>
      obtain ⟨e, he⟩ := h f List.mem_cons_self
      rw [List.cons_append, resolveFirst, he]
      simp [ih fun g hg => h g (List.mem_cons_of_mem f hg)]

/-- Names that fail stand for factories that fail. -/
theorem fail_factories {front : List (String × ProviderFactory π)}
    (hmem : ∀ f ∈ front, f ∈ (after past).factories)
    (h : ∀ n ∈ front.map (·.1), Fails past config n) :
    ∀ f ∈ front, ∃ e, f.2 config = .error e := by
  intro f hf
  obtain ⟨g, e, hforce, he⟩ := h f.1 (List.mem_map_of_mem hf)
  rw [inForce_of_mem (hmem f hf), Option.some.injEq] at hforce
  exact ⟨e, by rw [hforce, he]⟩

/-- What a search comes to is what the registry does. -/
theorem Search.resolveDefault {result : Except Error π} {called : List String}
    (h : Search past config result called) :
    (after past).resolveDefault config = (result, called) := by
  have hnames : (after past).factories.map (·.1) = ranking past := providers_after past
  cases h with
  | @found front name rest factory provider split fail force made =>
      -- where the ranking is split, the factories are
      rw [split] at hnames
      obtain ⟨fs, gs, hsplit, rfl, hgs⟩ := List.map_eq_append_iff.mp hnames
      obtain ⟨g, rest', rfl, rfl, -⟩ := List.map_eq_cons_iff.mp hgs
      have hg : inForce past g.1 = some g.2 := inForce_of_mem (by rw [hsplit]; simp)
      have hfs := fail_factories (fun f hf => by rw [hsplit]; simp [hf]) fail
      rw [force, Option.some.injEq] at hg
      rw [Registry.resolveDefault, hsplit, resolveFirst_append hfs, resolveFirst, ← hg, made]
  | none fail =>
      rw [← hnames] at fail ⊢
      have hall := resolveFirst_append (fail_factories (fun f hf => hf) fail) []
      rw [List.append_nil] at hall
      rw [Registry.resolveDefault, hall]
      simp [resolveFirst]

/-- Every search comes to something: the first name that does not fail, if there is one. -/
theorem exists_search (past : List (Request π)) (config : Json) :
    ∃ result called, Search past config result called := by
  classical
  cases hfind : (ranking past).find? fun n => decide (¬ Fails past config n) with
  | none =>
      refine ⟨_, _, .none fun n hn => ?_⟩
      simpa using List.find?_eq_none.mp hfind n hn
  | some name =>
      obtain ⟨hname, front, rest, hsplit, hfront⟩ := List.find?_eq_some_iff_append.mp hfind
      obtain ⟨factory, hforce⟩ := mem_ranking.mp (List.mem_of_find?_eq_some hfind)
      -- a name that does not fail has a factory that succeeds
      cases hmade : factory config with
      | error e => exact absurd ⟨factory, e, hforce, hmade⟩ (of_decide_eq_true hname)
      | ok provider =>
          exact ⟨_, _, .found hsplit (fun n hn => by simpa using hfront n hn) hforce hmade⟩

theorem Search.of_resolveDefault (past : List (Request π)) (config : Json) :
    Search past config ((after past).resolveDefault config).1
      ((after past).resolveDefault config).2 := by
  obtain ⟨result, called, h⟩ := exists_search past config
  rw [h.resolveDefault]
  exact h

/-- The factories are asked from the front, without leaving one out. -/
theorem Search.called_prefix {result : Except Error π} {called : List String}
    (h : Search past config result called) : called <+: ranking past := by
  cases h with
  | @found front name rest _ _ split =>
      rw [split]
      exact ⟨rest, by simp⟩
  | none => exact List.prefix_rfl

/-- That nothing was found means that all have failed. -/
theorem Search.fails_of_notFound {called : List String}
    (h : Search past config (.error (.notFound .anyProvider)) called) :
    ∀ n ∈ ranking past, Fails past config n := by
  cases h with
  | none fail => exact fail

/-- A search comes to the same in another registry that has the same names, and whose factories say
the same as far as they are called. -/
theorem Search.transfer {result : Except Error π} {called : List String}
    (h : Search past config result called) {other : List (Request π)}
    (hrank : ranking other = ranking past)
    (hsame : ∀ n ∈ called, ∃ f g, inForce past n = some f ∧ inForce other n = some g
      ∧ g config = f config) : Search other config result called := by
  have hfails : ∀ n ∈ called, Fails past config n → Fails other config n := by
    rintro n hn ⟨f', e, hf', he⟩
    obtain ⟨f, g, hf, hg, hgf⟩ := hsame n hn
    obtain rfl : f' = f := Option.some.inj (hf'.symm.trans hf)
    exact ⟨g, e, hg, hgf.trans he⟩
  cases h with
  | @found front name rest factory provider split fail force made =>
      obtain ⟨f, g, hf, hg, hgf⟩ := hsame name (by simp)
      obtain rfl : factory = f := Option.some.inj (force.symm.trans hf)
      exact .found (hrank.trans split) (fun n hn => hfails n (by simp [hn]) (fail n hn)) hg
        (hgf.trans made)
  | none fail =>
      rw [← hrank]
      exact .none fun n hn => hfails n (by rwa [← hrank]) (fail n (by rwa [← hrank]))

/-! ## After any requests -/

/-- The registry that there is by default is one that the provider in software was offered to. -/
theorem defaultRegistry_eq_after (around : State.Surroundings) :
    defaultRegistry around = after [.register softwareName (softwareFactory around)] := rfl

/-- **A registry is a list of priorities.**

Ask a new registry for anything, any number of times, and offer it any factories under any names,
free or taken. What it says next, and whose factory it calls, depends on the first offers under each
name and on the order in which the names first came up. -/
theorem prioritised_after (past : List (Request π)) : Prioritised past where
  providers := by rw [perform, providers_after]
  nodup := nodup_ranking past
  hasProvider name := by rw [perform, hasProvider_after]
  taken name factory h := by
    refine ⟨perform_register_taken (by rwa [providers_after]), funext fun n => ?_⟩
    -- a name that is taken has a factory in force, and the first stays
    obtain ⟨old, hold⟩ := mem_ranking.mp h
    rw [inForce_register]
    by_cases hn : name = n
    · rw [← hn, hold]
      rfl
    · rw [if_neg hn, Option.or_none]
  free name factory h := by
    have hperform : (after past).perform (.register name factory)
        = (.entered (.ok ()), ⟨(after past).factories ++ [(name, factory)]⟩) :=
      perform_register_free (by rwa [providers_after])
    refine ⟨by rw [after_snoc, hperform], ranking_free h, funext fun n => ?_⟩
    rw [inForce_register]
    by_cases hn : n = name
    · have hnone : inForce past n = none :=
        Option.eq_none_iff_forall_not_mem.mpr fun f hf => h (hn ▸ mem_ranking.mpr ⟨f, hf⟩)
      rw [if_pos hn, hnone, if_pos hn.symm]
      rfl
    · rw [if_neg hn, if_neg (Ne.symm hn), Option.or_none]
  resolve name config factory h := by
    rw [inForce, ← find?_after, Option.map_eq_some_iff] at h
    obtain ⟨f, hfind, rfl⟩ := h
    have hname : f.1 = name := by simpa using List.find?_some hfind
    rw [← hname] at hfind ⊢
    rw [perform, Registry.resolve, hfind]
  unknown name config h := by
    have hfind : (after past).factories.find? (fun f => f.1 == name) = none := by
      rw [Registry.hasProvider, List.any_eq_false] at h
      exact List.find?_eq_none.mpr h
    rw [perform, Registry.resolve, hfind]
  known name := by rw [hasProvider_after, decide_eq_true_iff, mem_ranking]
  resolveDefault config := ⟨_, _, rfl, Search.of_resolveDefault past config⟩
  inOrder config result called h :=
    ⟨h.called_prefix, h.called_prefix.sublist.nodup (nodup_ranking past)⟩
  notFound_iff config := by
    refine ⟨fun h => ?_, fun h => by rw [(Search.none h).resolveDefault]⟩
    have hsearch := Search.of_resolveDefault past config
    rw [h] at hsearch
    exact hsearch.fails_of_notFound
  called_only config other hrank hsame :=
    ((Search.of_resolveDefault past config).transfer hrank hsame).resolveDefault

end PooledCrypto.Provider.Registry
