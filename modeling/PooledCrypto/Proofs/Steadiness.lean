import PooledCrypto.Proofs.Transitions

/-!
# What feeding leaves as it is

A function that is fed changes what its context has taken in and nothing else. It holds the context
that it held before, and it holds one as long as it is not closed, whatever became of the chunk.
`Steady` says so for any core, from one chunk to all chunks of a run, and `Refed` for the items in
slots.
-/

namespace PooledCrypto.Streaming.Function

/-! ## Cores -/

variable {κ χ ω β : Type} [Core κ χ ω] {m : κ → β}

/-- What no chunk changes in a context is the same in a function that is fed. -/
structure Steady (m : κ → β) : Prop where
  update : ∀ core chunk, m (Core.update core chunk).2 = m core
  finish : ∀ core chunk, m (Core.finish core chunk).2 = m core

/-- A function that takes a call is open, and works on the context that it holds. -/
theorem ready_eq_ok {f : Function κ} {call : String} {core : κ}
    (h : f.ready call = .ok core) : f.core = some core := by
  unfold ready at h
  split at h
  · split at h
    · rename_i own hown
      obtain rfl := Except.ok.inj h
      exact hown
    · exact absurd h (by simp)
  · exact absurd h (by simp)
  · exact absurd h (by simp)

/-- One chunk, whether it is taken, refused or fails. -/
theorem Steady.core_update (hm : Steady m) (f : Function κ) (chunk : Bytes) :
    (f.update chunk).2.core.map m = f.core.map m := by
  unfold Function.update
  cases hr : f.ready "update" with
  | error e => rfl
  | ok core =>
      have hsame := hm.update core chunk
      rw [ready_eq_ok hr]
      dsimp only
      -- the context that was asked stays with the function, also after an error
      rcases hout : Core.update core chunk with ⟨e | out, after⟩
      · rw [hout] at hsame
        exact congrArg some hsame
      · rw [hout] at hsame
        exact congrArg some hsame

/-- The last chunk finishes the function, but does not take the context away. -/
theorem Steady.core_finish (hm : Steady m) (f : Function κ) (chunk : Bytes) :
    (f.finish chunk).2.core.map m = f.core.map m := by
  unfold Function.finish
  cases hr : f.ready "finish" with
  | error e => rfl
  | ok core =>
      rw [ready_eq_ok hr]
      exact congrArg some (hm.finish core chunk)

/-- Also of a function that failed on the way. -/
theorem Steady.core_updateAll (hm : Steady m) (chunks : List Bytes) {f : Function κ}
    (hf : Held f) : (updateAll chunks f).2.core.map m = f.core.map m
      ∧ Held (updateAll chunks f).2 := by
  induction chunks generalizing f with
  | nil => exact ⟨rfl, hf⟩
  | cons chunk rest ih =>
      have hone := hm.core_update f chunk
      have hheld := held_update hf chunk
      unfold updateAll
      rcases hout : f.update chunk with ⟨e | out, g⟩
      · -- a chunk that is refused is the last
        rw [hout] at hone hheld
        exact ⟨hone, hheld⟩
      · rw [hout] at hone hheld
        obtain ⟨hrest, hend⟩ := ih hheld
        dsimp only
        rcases hmore : updateAll rest g with ⟨e | outs, last⟩
        · rw [hmore] at hrest hend
          exact ⟨hrest.trans hone, hend⟩
        · rw [hmore] at hrest hend
          exact ⟨hrest.trans hone, hend⟩

theorem Steady.core_feed (hm : Steady m) (chunks : List Bytes) (last : Bytes) {f : Function κ}
    (hf : Held f) :
    (f.feed chunks last).2.core.map m = f.core.map m ∧ Held (f.feed chunks last).2 := by
  have hall := hm.core_updateAll chunks hf
  unfold feed
  rcases hout : updateAll chunks f with ⟨e | outs, g⟩
  · rw [hout] at hall
    exact hall
  · rw [hout] at hall
    exact ⟨(hm.core_finish g last).trans hall.1, held_finish hall.2 last⟩

/-- A function that is closed has nothing to hold. -/
theorem held_close {κ : Type} (f : Function κ) : Held f.close.2 := by
  simp [close, Held]

end PooledCrypto.Streaming.Function

namespace PooledCrypto.Session

open Provider
open Streaming.Function (Held Steady)

/-! ## Items -/

variable {s s' : Session} {item item' : Item} {answer : Answer} {on : String}
  {dest : Option String} {st : State}

/-- No chunk makes another context of a loan. All that it changes is undone by a reset. -/
theorem steady_loan : Steady Loan.reset where
  update loan chunk := loan.reset_update chunk
  finish loan chunk := (Loan.reset_finish _).trans (loan.reset_update chunk)

/-- The same for functions that sign, which work on a loan. -/
theorem steady_signing : Steady fun c : Signing => c.loan.reset where
  update c chunk := c.loan.reset_update chunk
  finish c chunk := (Loan.reset_finish _).trans (c.loan.reset_update chunk)

/-- The same for functions that verify, which keep a signature beside the loan. -/
theorem steady_verifying : Steady fun c : Verifying => c.loan.reset where
  update c chunk := c.loan.reset_update chunk
  finish c chunk := (Loan.reset_finish _).trans (c.loan.reset_update chunk)

/-- The item has been fed: it holds the same context, if any, and is in order. -/
structure Refed (st : State) (item item' : Item) : Prop where
  held : item'.loan?.map Loan.reset = item.loan?.map Loan.reset
  sound : item'.Sound st

/-- A function that hashes and was fed, told by the context that it holds. -/
theorem refed_hashing {f g : HashFunction} {drawn drawn' : Bool}
    (hcore : g.core.map Loan.reset = f.core.map Loan.reset) (hheld : Held g) :
    Refed st (.hashing f drawn) (.hashing g drawn') := ⟨hcore, hheld⟩

theorem refed_signing {f g : SignFunction} {drawn drawn' : Bool}
    (hcore : g.core.map (·.loan.reset) = f.core.map (·.loan.reset)) (hheld : Held g) :
    Refed st (.signing f drawn) (.signing g drawn') := by
  refine ⟨?_, hheld⟩
  simpa [Item.loan?, Streaming.Function.close, Function.comp_def] using hcore

theorem refed_verifying {f g : VerifyFunction}
    (hcore : g.core.map (·.loan.reset) = f.core.map (·.loan.reset)) (hheld : Held g) :
    Refed st (.verifying f) (.verifying g) := by
  refine ⟨?_, hheld⟩
  simpa [Item.loan?, Streaming.Function.close, Function.comp_def] using hcore

/-- Feeding one chunk to the item in a slot. -/
theorem refed_feedChunk {chunk : Datum} (hi : item.Sound st)
    (h : feedChunk s on item chunk = some (answer, s')) :
    ∃ item', Refed st item item' ∧ s' = s.update on item' := by
  cases item with
  | hashing f drawn =>
      refine ⟨_, ?_, (congrArg Prod.snd (Option.some.inj h)).symm⟩
      exact refed_hashing (steady_loan.core_update f _) (Streaming.Function.held_update hi _)
  | signing f drawn =>
      refine ⟨_, ?_, (congrArg Prod.snd (Option.some.inj h)).symm⟩
      exact refed_signing (steady_signing.core_update f _) (Streaming.Function.held_update hi _)
  | verifying f =>
      refine ⟨_, ?_, (congrArg Prod.snd (Option.some.inj h)).symm⟩
      exact refed_verifying (steady_verifying.core_update f _)
        (Streaming.Function.held_update hi _)
  -- ciphers keep what they are fed, and hold no context
  | encrypting f drawn =>
      refine ⟨_, ?_, (congrArg Prod.snd (Option.some.inj h)).symm⟩
      exact ⟨rfl, trivial⟩
  | decrypting f =>
      refine ⟨_, ?_, (congrArg Prod.snd (Option.some.inj h)).symm⟩
      exact ⟨rfl, trivial⟩
  -- the other items are no functions
  | _ => exact absurd h (by simp [feedChunk])

/-- Feeding all chunks of a run to an item of its own. -/
theorem refed_feedAll {chunks : List Datum} {last : Datum} {r : Except Error Value}
    (hi : item.Sound st) (h : feedAll item chunks last = some (r, item')) :
    Refed st item item' := by
  cases item with
  | hashing f drawn =>
      obtain rfl := congrArg Prod.snd (Option.some.inj h)
      obtain ⟨hcore, hheld⟩ := steady_loan.core_feed (chunks.map (·.bytes)) last.bytes hi
      exact refed_hashing hcore hheld
  | signing f drawn =>
      obtain rfl := congrArg Prod.snd (Option.some.inj h)
      obtain ⟨hcore, hheld⟩ := steady_signing.core_feed (chunks.map (·.bytes)) last.bytes hi
      exact refed_signing hcore hheld
  | verifying f =>
      obtain rfl := congrArg Prod.snd (Option.some.inj h)
      obtain ⟨hcore, hheld⟩ := steady_verifying.core_feed (chunks.map (·.bytes)) last.bytes hi
      exact refed_verifying hcore hheld
  | encrypting f drawn =>
      obtain rfl := congrArg Prod.snd (Option.some.inj h)
      exact ⟨rfl, trivial⟩
  | decrypting f =>
      obtain rfl := congrArg Prod.snd (Option.some.inj h)
      exact ⟨rfl, trivial⟩
  | _ => exact absurd h (by simp [feedAll])

/-- What comes of a last chunk: the function is fed, and then the result is kept if there is one,
and if it is one that can be kept. -/
theorem refed_feedLast {last : Datum} (hi : item.Sound st)
    (h : feedLast s on item last dest = some (answer, s')) :
    ∃ item', Refed st item item'
      ∧ (((∃ f, item = .verifying f) ∧ s' = s.update on item')
        ∨ ((∀ f, item ≠ .verifying f) ∧ ∃ r said stage,
            answerFed (s.update on item') dest r said stage = (answer, s'))) := by
  cases item with
  | hashing f drawn =>
      refine ⟨_, ?_, Or.inr ⟨by simp, _, _, _, Option.some.inj h⟩⟩
      exact refed_hashing (steady_loan.core_finish f _) (Streaming.Function.held_finish hi _)
  | signing f drawn =>
      refine ⟨_, ?_, Or.inr ⟨by simp, _, _, _, Option.some.inj h⟩⟩
      exact refed_signing (steady_signing.core_finish f _) (Streaming.Function.held_finish hi _)
  | verifying f =>
      refine ⟨_, ?_, Or.inl ⟨⟨f, rfl⟩, (congrArg Prod.snd (Option.some.inj h)).symm⟩⟩
      exact refed_verifying (steady_verifying.core_finish f _)
        (Streaming.Function.held_finish hi _)
  | encrypting f drawn =>
      refine ⟨_, ?_, Or.inr ⟨by simp, _, _, _, Option.some.inj h⟩⟩
      exact ⟨rfl, trivial⟩
  | decrypting f =>
      refine ⟨_, ?_, Or.inr ⟨by simp, _, _, _, Option.some.inj h⟩⟩
      exact ⟨rfl, trivial⟩
  | _ => exact absurd h (by simp [feedLast])

/-- Feeding is a step of a session that moves no context. -/
theorem Refed.part (h : Refed s.provider.state item item') (hg : s.slots.get? on = some item) :
    Part s [] (s.update on item') := .feed item' hg h.held h.sound

end PooledCrypto.Session
