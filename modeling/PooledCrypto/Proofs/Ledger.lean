import PooledCrypto.Proofs.Balance
import PooledCrypto.Session.Step

/-!
# What was asked of each streaming function

A session forgets what a function was fed. The `Ledger` is kept beside the session for that: for
each slot, the errand of the function that was started into it, and the chunks that were fed since.
It is written from the commands and from whether they succeeded (`Ledger.note`), never from what is
inside a context.

`Tracked` ties the two together. The slots are the borrowers of the accounts, and the context of an
open function took in the chunks of its entry and nothing else.
-/

namespace PooledCrypto.Session

open Provider

/-- What a message is taken in for. -/
inductive Errand
  | hash (h : Hasher)
  | sign (s : Signer)
  | verify (v : Verifier) (signature : Bytes)

namespace Errand

/-- What comes of an errand. -/
inductive Result
  | bytes (b : Bytes)
  | verdict (b : Bool)
  deriving DecidableEq, Repr

/-- Where the contexts come from. -/
def source : Errand → Source
  | .hash h => .digest h.kind
  | .sign s => s.source
  | .verify v _ => v.source

/-- What is made of what a context computed. -/
def result : Errand → Bytes → Except Error Result
  | .hash _, code => .ok (.bytes code)
  | .sign s, code => (s.scheme.sign code).map .bytes
  | .verify v signature, code => .ok (.verdict (v.scheme.verify code signature))

/-- The errand as one call. -/
def oneShot : Errand → Bytes → Action State Result
  | .hash h, message => do return .bytes (← h.hash message)
  | .sign s, message => do return .bytes (← s.sign message)
  | .verify v signature, message => do return .verdict (← v.verify message signature)

/-- The result as a session tells it. -/
def say : Errand → Bool → Result → Value
  | .sign s, drawn, .bytes b => signatureValue s.scheme ⟨b, drawn⟩
  | _, drawn, .bytes b => .data ⟨b, drawn⟩
  | _, _, .verdict b => .flag b

/-- The item is an open function on the errand, with the context that it borrowed. -/
def Open (loan : Loan) : Errand → Item → Prop
  | .hash _, item => ∃ drawn, item = .hashing ⟨.opened, some loan⟩ drawn
  | .sign s, item => ∃ drawn, item = .signing ⟨.opened, some ⟨loan, s.scheme⟩⟩ drawn
  | .verify v signature, item =>
    item = .verifying ⟨.opened, some ⟨loan, v.scheme, signature⟩⟩

end Errand

/-- The item is a function that hashes, signs or verifies and may still be fed. -/
def Item.isOpen : Item → Bool
  | .hashing f _ => f.stage == .opened
  | .signing f _ => f.stage == .opened
  | .verifying f => f.stage == .opened
  | _ => false

/-- What a function was started for, and the chunks that it was fed since. -/
structure Entry where
  errand : Errand
  fed : List Bytes

/-- The entries, by slot. -/
abbrev Ledger := String → Option Entry

namespace Ledger

/-- Nothing was started yet. -/
def blank : Ledger := fun _ => none

/-- A function is started into a slot. -/
def enter (l : Ledger) (dest : Option String) (errand : Errand) : Ledger := fun name =>
  if dest = some name then some ⟨errand, []⟩ else l name

/-- The function in a slot is fed a chunk. -/
def feed (l : Ledger) (on : String) (chunk : Bytes) : Ledger := fun name =>
  if name = on then (l name).map fun e => ⟨e.errand, e.fed ++ [chunk]⟩ else l name

/-- What is written down of a command, once it is answered. -/
def note (l : Ledger) (s : Session) (c : Command) (answer : Answer) : Ledger :=
  match c, answer.outcome with
  | .startHashing on dest, .value _ =>
    match s.item? on with
    | some (.hasher o) => l.enter dest (.hash o.core)
    | _ => l
  | .startSigning on dest, .value _ =>
    match s.item? on with
    | some (.signer o _) => l.enter dest (.sign o.core)
    | _ => l
  | .startVerifying on signature dest, .value _ =>
    match s.item? on, s.data? signature with
    | some (.verifier o), some d => l.enter dest (.verify o.core d.bytes)
    | _, _ => l
  | .update on data, .value _ =>
    match s.data? data with
    | some d => l.feed on d.bytes
    | none => l
  | _, _ => l

end Ledger

/-- Carries out commands in order and keeps the ledger. -/
def watch : List Command → Session × Ledger → Session × Ledger
  | [], w => w
  | c :: rest, (s, l) => watch rest ((s.step c).2, l.note s c (s.step c).1)

/-- The session is the same whether it is watched or not. -/
theorem watch_session (commands : List Command) (s : Session) (l : Ledger) :
    (watch commands (s, l)).1 = (run commands s).2 := by
  induction commands generalizing s l with
  | nil => rfl
  | cons c rest ih => exact ih (s.step c).2 (l.note s c (s.step c).1)

/-- What is lent to the slots. -/
def loans (s : Session) : List Loan := s.slots.filterMap (·.2.loan?)

/-- An open function has an entry, and took in what is entered. -/
def Tended (l : Ledger) (name : String) (item : Item) : Prop :=
  item.isOpen = true → ∃ entry loan, l name = some entry ∧ entry.errand.Open loan item
    ∧ loan.Took entry.errand.source entry.fed.flatten

/-- The session with its ledger. -/
structure Tracked (s : Session) (l : Ledger) : Prop where
  accounts : Accounts s.provider.state s.loans
  names : (s.slots.map (·.1)).Nodup
  tended : ∀ name item, (name, item) ∈ s.slots → Tended l name item

/-! ## Slots -/

namespace Slots

variable {slots : Slots} {name other : String} {item : Item}

theorem mem_of_get? (h : slots.get? name = some item) : (name, item) ∈ slots := by
  obtain ⟨⟨n, i⟩, hfind, rfl⟩ := Option.map_eq_some_iff.mp h
  obtain rfl : n = name := by simpa using List.find?_some hfind
  exact List.mem_of_find?_eq_some hfind

theorem erase_of_not_mem (h : name ∉ slots.map (·.1)) : slots.erase name = slots := by
  refine List.filter_eq_self.mpr fun s hs => ?_
  have hne : s.1 ≠ name := fun he => h (he ▸ List.mem_map_of_mem hs)
  simpa using hne

theorem erase_of_get?_none (h : slots.get? name = none) : slots.erase name = slots := by
  refine erase_of_not_mem fun hm => ?_
  obtain ⟨s, hs, rfl⟩ := List.mem_map.mp hm
  have hfree := List.find?_eq_none.mp (Option.map_eq_none_iff.mp h) s hs
  exact absurd hfree (by simp)

/-- A slot and the others. -/
theorem perm_erase (hn : (slots.map (·.1)).Nodup) (h : slots.get? name = some item) :
    slots.Perm ((name, item) :: slots.erase name) := by
  induction slots with
  | nil => exact absurd h (by simp [get?])
  | cons s rest ih =>
      obtain ⟨hfresh, hn⟩ := List.nodup_cons.mp hn
      by_cases hs : s.1 = name
      · -- the first slot is the one, and no other has its name
        subst hs
        obtain rfl : s.2 = item := by simpa [get?] using h
        have hrest : erase (s :: rest) s.1 = rest := by
          rw [← erase_of_not_mem hfresh]
          simp [erase]
        rw [hrest]
      · have hget : get? rest name = some item := by
          simpa [get?, List.find?_cons, hs] using h
        have herase : erase (s :: rest) name = s :: erase rest name := by
          simp [erase, hs]
        rw [herase]
        exact ((ih hn hget).cons s).trans (List.Perm.swap _ _ _)

theorem not_mem_erase : name ∉ (slots.erase name).map (·.1) := by
  intro hm
  obtain ⟨s, hs, rfl⟩ := List.mem_map.mp hm
  exact absurd (List.mem_filter.mp hs).2 (by simp)

theorem names_erase (hn : (slots.map (·.1)).Nodup) :
    ((slots.erase name).map (·.1)).Nodup :=
  (List.filter_sublist.map _).nodup hn

theorem names_put (hn : (slots.map (·.1)).Nodup) :
    ((slots.put name item).map (·.1)).Nodup :=
  List.nodup_cons.mpr ⟨not_mem_erase, names_erase hn⟩

theorem mem_of_mem_erase {s : String × Item} (h : s ∈ slots.erase name) :
    s ∈ slots ∧ s.1 ≠ name := by
  obtain ⟨hm, hne⟩ := List.mem_filter.mp h
  exact ⟨hm, by simpa using hne⟩

theorem get?_put_self : (slots.put name item).get? name = some item := by
  simp [put, get?]

end Slots

/-! ## Filling and emptying slots -/

variable {s : Session} {l l' : Ledger} {name : String} {item old : Item} {lent : List Loan}

theorem tracked_start (executor : Executor) (entropy : Entropy) (capacity : Nat) :
    Tracked (start (software (State.start executor entropy capacity))) .blank where
  accounts := accounts_start executor entropy capacity
  names := List.nodup_nil
  tended name item hm := absurd hm (by simp [start])

/-- What an item has borrowed goes back when it is released. -/
theorem accounts_release {st : State} (ha : Accounts st (item.loan?.toList ++ lent)) :
    Accounts (item.release st) lent := by
  unfold Item.release
  cases hl : item.loan? with
  | none =>
      rw [hl] at ha
      exact ha
  | some loan =>
      rw [hl] at ha
      exact ha.giveBack

/-- The loan of a slot and those of the others. -/
theorem loans_perm (hn : (s.slots.map (·.1)).Nodup) (hg : s.slots.get? name = some item) :
    s.loans.Perm (item.loan?.toList ++ (s.slots.erase name).filterMap (·.2.loan?)) := by
  have hp := (Slots.perm_erase hn hg).filterMap (·.2.loan?)
  unfold loans
  cases hl : item.loan? with
  | none => simpa [List.filterMap_cons, hl] using hp
  | some loan => simpa [List.filterMap_cons, hl] using hp

theorem loans_put (slots : Slots) (name : String) (item : Item) :
    (slots.put name item).filterMap (·.2.loan?)
      = item.loan?.toList ++ (slots.erase name).filterMap (·.2.loan?) := by
  unfold Slots.put
  cases hl : item.loan? <;> simp [hl]

/-- When a slot is emptied or filled anew, what it had borrowed goes back; what is borrowed besides
stays lent. -/
theorem accounts_vacate (name : String) (extra : List Loan) (hn : (s.slots.map (·.1)).Nodup)
    (ha : Accounts s.provider.state (extra ++ s.loans)) :
    Accounts (s.discard name).provider.state
      (extra ++ (s.slots.erase name).filterMap (·.2.loan?)) := by
  unfold discard
  cases hg : s.slots.get? name with
  | none =>
      rw [Slots.erase_of_get?_none hg]
      exact ha
  | some old =>
      refine accounts_release (ha.perm ?_)
      have hp := ((loans_perm hn hg).append_left extra)
      refine hp.trans ?_
      rw [← List.append_assoc, ← List.append_assoc]
      exact List.perm_append_comm.append_right _

theorem tended_erase (ht : ∀ n i, (n, i) ∈ s.slots → Tended l n i) (n : String) (i : Item)
    (hm : (n, i) ∈ s.slots.erase name) : Tended l n i ∧ n ≠ name := by
  obtain ⟨hmem, hne⟩ := Slots.mem_of_mem_erase hm
  exact ⟨ht n i hmem, hne⟩

theorem tracked_discard (ht : Tracked s l) (name : String) : Tracked (s.discard name) l where
  accounts := accounts_vacate name [] ht.names ht.accounts
  names := Slots.names_erase ht.names
  tended n i hm := (tended_erase ht.tended n i hm).1

/-- An item is kept or released at once; in both cases what it borrowed is accounted for. -/
theorem tracked_keep {dest : Option String} (hn : (s.slots.map (·.1)).Nodup)
    (ht : ∀ n i, (n, i) ∈ s.slots → Tended l n i)
    (ha : Accounts s.provider.state (item.loan?.toList ++ s.loans))
    (hrest : ∀ n, dest ≠ some n → l' n = l n)
    (hitem : ∀ n, dest = some n → Tended l' n item) : Tracked (keep dest item s).2 l' := by
  cases dest with
  | none =>
      -- nobody can reach the item any more, so what it borrowed goes back at once
      have hl : l' = l := funext fun n => hrest n (by simp)
      subst hl
      exact ⟨accounts_release ha, hn, ht⟩
  | some name =>
      refine ⟨?_, Slots.names_put hn, ?_⟩
      · show Accounts _ ((s.slots.put name item).filterMap (·.2.loan?))
        rw [loans_put]
        exact accounts_vacate name item.loan?.toList hn ha
      · intro n i hm
        rcases List.mem_cons.mp hm with heq | hm
        · obtain ⟨rfl, rfl⟩ := Prod.mk.inj heq
          exact hitem n rfl
        · obtain ⟨htended, hne⟩ := tended_erase ht n i hm
          intro hopen
          rw [hrest n fun he => hne (Option.some.inj he).symm]
          exact htended hopen

/-- An item that takes the place of the one in a slot, and holds the same context if any. -/
theorem tracked_update (ht : Tracked s l) (hg : s.slots.get? name = some old)
    (hloan : item.loan?.map Loan.reset = old.loan?.map Loan.reset)
    (hrest : ∀ n, n ≠ name → l' n = l n) (hitem : Tended l' name item) :
    Tracked (s.update name item) l' where
  accounts := by
    show Accounts s.provider.state ((s.slots.put name item).filterMap (·.2.loan?))
    rw [loans_put]
    -- the loan of this slot is put first, where it can be exchanged for the new one
    have ha := ht.accounts.perm (loans_perm ht.names hg)
    cases ho : old.loan? with
    | none =>
        rw [ho] at ha hloan
        rw [Option.map_eq_none_iff.mp hloan]
        exact ha
    | some loan =>
        rw [ho] at ha hloan
        obtain ⟨loan', hl, hreset⟩ := Option.map_eq_some_iff.mp hloan
        rw [hl]
        exact ha.revalue hreset
  names := Slots.names_put ht.names
  tended n i hm := by
    rcases List.mem_cons.mp hm with heq | hm
    · obtain ⟨rfl, rfl⟩ := Prod.mk.inj heq
      exact hitem
    · obtain ⟨htended, hne⟩ := tended_erase ht.tended n i hm
      intro hopen
      rw [hrest n hne]
      exact htended hopen

end PooledCrypto.Session
