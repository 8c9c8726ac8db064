import PooledCrypto.Proofs.Absorbing
import PooledCrypto.Proofs.Ledger

/-!
# Feeding the function in a slot

What a session does to a function depends on whether it is open. An open one takes the chunk into
its context, or brings its errand to a result (`Errand.Open.feedChunk`, `Errand.Open.feedLast`,
`Errand.Open.feedAll`). One that is not open refuses, and keeps what it had borrowed. Ciphers borrow
nothing, so whatever they do is of no account.
-/

namespace PooledCrypto.Session

open Provider
open Streaming (Absorbs)

variable {s s' : Session} {item item' : Item} {loan : Loan} {errand : Errand} {answer : Answer}

/-! ## Open functions -/

/-- A lent context takes in any chunk without an answer. -/
theorem loan_absorbs : Absorbs () (fun (loan : Loan) chunk => loan.update chunk) :=
  fun _ _ => rfl

theorem signing_absorbs :
    Absorbs () (fun (c : Signing) chunk => { c with loan := c.loan.update chunk }) :=
  fun _ _ => rfl

theorem verifying_absorbs :
    Absorbs () (fun (c : Verifying) chunk => { c with loan := c.loan.update chunk }) :=
  fun _ _ => rfl

theorem loan_finish (loan : Loan) (last : Bytes) :
    Streaming.Core.finish loan last
      = (.ok (loan.update last).finish.1, (loan.update last).finish.2) := rfl

theorem signing_finish (loan : Loan) (scheme : SigningScheme) (last : Bytes) :
    Streaming.Core.finish (⟨loan, scheme⟩ : Signing) last
      = (scheme.sign (loan.update last).finish.1,
        ⟨(loan.update last).finish.2, scheme⟩) := rfl

theorem verifying_finish (loan : Loan) (scheme : VerifyingScheme) (signature last : Bytes) :
    Streaming.Core.finish (⟨loan, scheme, signature⟩ : Verifying) last
      = (.ok (scheme.verify (loan.update last).finish.1 signature),
        ⟨(loan.update last).finish.2, scheme, signature⟩) := rfl

/-- The scheme is carried along unchanged while the context is fed. -/
theorem foldl_signing (chunks : List Bytes) (loan : Loan) (scheme : SigningScheme) :
    chunks.foldl (fun (c : Signing) chunk => { c with loan := c.loan.update chunk }) ⟨loan, scheme⟩
      = ⟨chunks.foldl (fun loan chunk => loan.update chunk) loan, scheme⟩ := by
  induction chunks generalizing loan with
  | nil => rfl
  | cons chunk rest ih => exact ih (loan.update chunk)

theorem foldl_verifying (chunks : List Bytes) (loan : Loan) (scheme : VerifyingScheme)
    (signature : Bytes) :
    chunks.foldl (fun (c : Verifying) chunk => { c with loan := c.loan.update chunk })
        ⟨loan, scheme, signature⟩
      = ⟨chunks.foldl (fun loan chunk => loan.update chunk) loan, scheme, signature⟩ := by
  induction chunks generalizing loan with
  | nil => rfl
  | cons chunk rest ih => exact ih (loan.update chunk)

namespace Errand

/-- What is made of what a context computed once it has taken in a last chunk. -/
def conclude (errand : Errand) (loan : Loan) (last : Bytes) : Except Error Result :=
  errand.result (loan.update last).finish.1

/-- Where the bytes that come of an errand are kept. -/
def keepResult (dest : Option String) (drawn : Bool) (r : Result) (s : Session) : Session :=
  match r, dest with
  | .bytes b, some name => s.store name (.data ⟨b, drawn⟩)
  | _, _ => s

/-- An open function for an errand holds the loan that it was started with. -/
theorem Open.loan? (ho : errand.Open loan item) : item.loan? = some loan := by
  cases errand with
  | hash h =>
      obtain ⟨drawn, rfl⟩ := ho
      rfl
  | sign signer =>
      obtain ⟨drawn, rfl⟩ := ho
      rfl
  | verify v signature =>
      obtain rfl := ho
      rfl

/-- The chunk goes into the context, and the function stays open on its errand. -/
theorem Open.feedChunk (ho : errand.Open loan item) (s : Session) (on : String) (chunk : Datum) :
    ∃ item', errand.Open (loan.update chunk.bytes) item'
      ∧ Session.feedChunk s on item chunk
          = some (fed (.ok .nothing) .opened, s.update on item') := by
  cases errand with
  | hash h =>
      obtain ⟨drawn, rfl⟩ := ho
      exact ⟨_, ⟨_, rfl⟩, rfl⟩
  | sign signer =>
      obtain ⟨drawn, rfl⟩ := ho
      exact ⟨_, ⟨_, rfl⟩, rfl⟩
  | verify v signature =>
      obtain rfl := ho
      exact ⟨_, rfl, rfl⟩

/-- The last chunk brings the errand to its result. The context is not given back yet. -/
theorem Open.feedLast (ho : errand.Open loan item) (s : Session) (on : String) (last : Datum)
    (dest : Option String) :
    ∃ item' drawn, item'.isOpen = false
      ∧ item'.loan? = some (loan.update last.bytes).finish.2
      ∧ Session.feedLast s on item last dest
          = some (match errand.conclude loan last.bytes with
            | .error e => (fed (.error (.error e)) .finished, s.update on item')
            | .ok r => (fed (.ok (errand.say drawn r)) .finished,
                keepResult dest drawn r (s.update on item'))) := by
  cases errand with
  | hash h =>
      obtain ⟨drawn, rfl⟩ := ho
      refine ⟨.hashing ⟨.finished, some (loan.update last.bytes).finish.2⟩ (drawn || last.drawn),
        drawn || last.drawn, rfl, rfl, ?_⟩
      unfold Session.feedLast
      dsimp only
      rw [Streaming.Function.finish_opened, loan_finish]
      cases dest <;> rfl
  | sign signer =>
      obtain ⟨drawn, rfl⟩ := ho
      refine ⟨.signing ⟨.finished, some ⟨(loan.update last.bytes).finish.2, signer.scheme⟩⟩
        (drawn || last.drawn), drawn || last.drawn, rfl, rfl, ?_⟩
      unfold Session.feedLast conclude result
      dsimp only
      rw [Streaming.Function.finish_opened, signing_finish]
      cases signer.scheme.sign (loan.update last.bytes).finish.1 with
      | error e => rfl
      | ok sig => cases dest <;> rfl
  | verify v signature =>
      obtain rfl := ho
      refine ⟨.verifying ⟨.finished, some ⟨(loan.update last.bytes).finish.2, v.scheme, signature⟩⟩,
        false, rfl, rfl, ?_⟩
      unfold Session.feedLast
      dsimp only
      rw [Streaming.Function.finish_opened, verifying_finish]
      rfl

/-- A run takes in all chunks and then the last one. -/
theorem Open.feedAll (ho : errand.Open loan item) (chunks : List Datum) (last : Datum) :
    ∃ item' drawn, item'.isOpen = false
      ∧ item'.loan?.map Loan.reset = some loan.reset
      ∧ Session.feedAll item chunks last
          = some ((errand.conclude
              ((chunks.map (·.bytes)).foldl (fun loan chunk => loan.update chunk) loan)
                last.bytes).map (errand.say drawn), item') := by
  -- feeding and finishing change the contents alone, so a reset brings back what was borrowed
  have hback : ∀ last : Bytes,
      ((((chunks.map (·.bytes)).foldl (fun loan chunk => loan.update chunk) loan).update
        last).finish.2).reset = loan.reset := fun last =>
    (Loan.reset_finish _).trans ((Loan.reset_update _ _).trans (Loan.reset_foldl _ _))
  cases errand with
  | hash h =>
      obtain ⟨drawn, rfl⟩ := ho
      refine ⟨.hashing ⟨.finished, some _⟩ drawn,
        drawn || (last.drawn || chunks.any (·.drawn)), rfl,
        congrArg some (hback last.bytes), ?_⟩
      unfold Session.feedAll
      dsimp only
      rw [Streaming.Function.feed_of_absorbs loan_absorbs, loan_finish]
      rfl
  | sign signer =>
      obtain ⟨drawn, rfl⟩ := ho
      refine ⟨.signing ⟨.finished, some ⟨_, signer.scheme⟩⟩ drawn,
        drawn || (last.drawn || chunks.any (·.drawn)), rfl,
        congrArg some (hback last.bytes), ?_⟩
      unfold Session.feedAll conclude result
      dsimp only
      rw [Streaming.Function.feed_of_absorbs signing_absorbs, foldl_signing, signing_finish]
      cases signer.scheme.sign _ <;> rfl
  | verify v signature =>
      obtain rfl := ho
      refine ⟨.verifying ⟨.finished, some ⟨_, v.scheme, signature⟩⟩, false, rfl,
        congrArg some (hback last.bytes), ?_⟩
      unfold Session.feedAll
      dsimp only
      rw [Streaming.Function.feed_of_absorbs verifying_absorbs, foldl_verifying,
        verifying_finish]
      rfl

end Errand

/-! ## Functions that are not open, and ciphers -/

/-- The item is no open function that borrowed, and is still none afterwards, with the loan that it
had. -/
def Idles (item item' : Item) : Prop := item'.isOpen = false ∧ item'.loan? = item.loan?

theorem feed_refused {κ χ ω : Type} [Streaming.Core κ χ ω] {f : Streaming.Function κ}
    (hf : f.stage ≠ .opened) (chunks : List Bytes) (last : Bytes) :
    ∃ e, f.feed chunks last = (.error e, f) := by
  obtain ⟨hupdate, hfinish, _⟩ := f.refusesUnlessOpen hf
  unfold Streaming.Function.feed
  cases chunks with
  | nil =>
      obtain ⟨why, h⟩ := hfinish last
      exact ⟨.usage why, by simp [Streaming.Function.updateAll, h, Except.map]⟩
  | cons chunk rest =>
      obtain ⟨why, h⟩ := hupdate chunk
      exact ⟨.usage why, by simp [Streaming.Function.updateAll, h]⟩

theorem not_opened {stage : Streaming.Stage} (h : (stage == .opened) = false) :
    stage ≠ .opened := by
  rintro rfl
  exact absurd h (by decide)

/-- A chunk for a function that is not open leaves it idle, with the context it may hold. -/
theorem feedChunk_idles {on : String} {chunk : Datum} (hn : item.isOpen = false)
    (h : feedChunk s on item chunk = some (answer, s')) :
    ∃ item', Idles item item' ∧ s' = s.update on item' := by
  cases item with
  | hashing f drawn =>
      obtain ⟨why, hf⟩ := (f.refusesUnlessOpen (not_opened hn)).1 chunk.bytes
      unfold feedChunk at h
      dsimp only at h
      rw [hf] at h
      refine ⟨_, ?_, (congrArg Prod.snd (Option.some.inj h)).symm⟩
      exact ⟨hn, rfl⟩
  | signing f drawn =>
      obtain ⟨why, hf⟩ := (f.refusesUnlessOpen (not_opened hn)).1 chunk.bytes
      unfold feedChunk at h
      dsimp only at h
      rw [hf] at h
      refine ⟨_, ?_, (congrArg Prod.snd (Option.some.inj h)).symm⟩
      exact ⟨hn, rfl⟩
  | verifying f =>
      obtain ⟨why, hf⟩ := (f.refusesUnlessOpen (not_opened hn)).1 chunk.bytes
      unfold feedChunk at h
      dsimp only at h
      rw [hf] at h
      refine ⟨_, ?_, (congrArg Prod.snd (Option.some.inj h)).symm⟩
      exact ⟨hn, rfl⟩
  | encrypting f drawn =>
      refine ⟨_, ?_, (congrArg Prod.snd (Option.some.inj h)).symm⟩
      exact ⟨rfl, rfl⟩
  | decrypting f =>
      refine ⟨_, ?_, (congrArg Prod.snd (Option.some.inj h)).symm⟩
      exact ⟨rfl, rfl⟩
  | _ => exact absurd h (by simp [feedChunk])

/-- Answering a last chunk puts at most some bytes into a slot. -/
theorem answerFed_session (s : Session) (dest : Option String) (r : Except Error Datum)
    (said : Datum → Value) (stage : Streaming.Stage) :
    (answerFed s dest r said stage).2 = s
      ∨ ∃ name d, (answerFed s dest r said stage).2 = s.store name (.data d) := by
  unfold answerFed
  cases r with
  | error e => exact Or.inl rfl
  | ok d =>
      cases dest with
      | none => exact Or.inl rfl
      | some name => exact Or.inr ⟨name, d, rfl⟩

theorem feedLast_idles {on : String} {last : Datum} {dest : Option String}
    (hn : item.isOpen = false) (h : feedLast s on item last dest = some (answer, s')) :
    ∃ item', Idles item item' ∧ (s' = s.update on item'
      ∨ ∃ name d, s' = (s.update on item').store name (.data d)) := by
  cases item with
  | hashing f drawn =>
      -- not open, so the function refuses and stays as it is
      obtain ⟨why, hf⟩ := (f.refusesUnlessOpen (not_opened hn)).2.1 last.bytes
      unfold feedLast at h
      dsimp only at h
      rw [hf] at h
      obtain rfl := congrArg Prod.snd (Option.some.inj h)
      exact ⟨.hashing f (drawn || last.drawn), ⟨hn, rfl⟩, answerFed_session _ _ _ _ _⟩
  | signing f drawn =>
      obtain ⟨why, hf⟩ := (f.refusesUnlessOpen (not_opened hn)).2.1 last.bytes
      unfold feedLast at h
      dsimp only at h
      rw [hf] at h
      obtain rfl := congrArg Prod.snd (Option.some.inj h)
      exact ⟨.signing f (drawn || last.drawn), ⟨hn, rfl⟩, answerFed_session _ _ _ _ _⟩
  | verifying f =>
      obtain ⟨why, hf⟩ := (f.refusesUnlessOpen (not_opened hn)).2.1 last.bytes
      unfold feedLast at h
      dsimp only at h
      rw [hf] at h
      obtain rfl := congrArg Prod.snd (Option.some.inj h)
      exact ⟨.verifying f, ⟨hn, rfl⟩, Or.inl rfl⟩
  | encrypting f drawn =>
      obtain rfl := congrArg Prod.snd (Option.some.inj h)
      exact ⟨.encrypting (f.finish last.bytes).2 _, ⟨rfl, rfl⟩, answerFed_session _ _ _ _ _⟩
  | decrypting f =>
      obtain rfl := congrArg Prod.snd (Option.some.inj h)
      exact ⟨.decrypting (f.finish last.bytes).2, ⟨rfl, rfl⟩, answerFed_session _ _ _ _ _⟩
  | _ => exact absurd h (by simp [feedLast])

/-- A run does not wake it either. -/
theorem feedAll_idles {chunks : List Datum} {last : Datum} {r : Except Error Value}
    (hn : item.isOpen = false) (h : feedAll item chunks last = some (r, item')) :
    Idles item item' := by
  cases item with
  | hashing f drawn =>
      obtain ⟨e, hf⟩ := feed_refused (not_opened hn) (chunks.map (·.bytes)) last.bytes
      unfold feedAll at h
      dsimp only at h
      rw [hf] at h
      obtain rfl := congrArg Prod.snd (Option.some.inj h)
      exact ⟨hn, rfl⟩
  | signing f drawn =>
      obtain ⟨e, hf⟩ := feed_refused (not_opened hn) (chunks.map (·.bytes)) last.bytes
      unfold feedAll at h
      dsimp only at h
      rw [hf] at h
      obtain rfl := congrArg Prod.snd (Option.some.inj h)
      exact ⟨hn, rfl⟩
  | verifying f =>
      obtain ⟨e, hf⟩ := feed_refused (not_opened hn) (chunks.map (·.bytes)) last.bytes
      unfold feedAll at h
      dsimp only at h
      rw [hf] at h
      obtain rfl := congrArg Prod.snd (Option.some.inj h)
      exact ⟨hn, rfl⟩
  | encrypting f drawn =>
      obtain rfl := congrArg Prod.snd (Option.some.inj h)
      exact ⟨rfl, rfl⟩
  | decrypting f =>
      obtain rfl := congrArg Prod.snd (Option.some.inj h)
      exact ⟨rfl, rfl⟩
  | _ => exact absurd h (by simp [feedAll])

end PooledCrypto.Session
