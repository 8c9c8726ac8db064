import PooledCrypto.Proofs.Backends
import PooledCrypto.Proofs.CipherStreams
import PooledCrypto.Proofs.TagAndKeySizes

/-!
# What reaches an engine

An engine takes its nonce and its tag as arrays of fixed lengths, and converting bytes of any other
length to one of them does not fail but unwinds. What keeps such bytes away are the checks of the
cipher in front of it, and these go by lengths that the cipher has apart from the engine: that of a
nonce from the table of its kind, that of a tag from whoever asked for it.

A cipher's calls are written for any monad in which engines can be entered, so they can be watched
without being written once more. `Guarded` is what is to be shown of a call: watched, it comes to
what it comes to when it is run, and all that entered the engine is what the engine takes. Each call
is guarded because its parts are (`Guarded.bind`). A function that is fed in chunks enters its
engine at the end only, with what it kept.
-/

namespace PooledCrypto.Aead

/-! ## Calls that are guarded -/

/-- Whatever was entered before, the work comes to the result, and what enters the engine meanwhile
is what the engine takes. -/
def Guarded {α : Type} (e : Engine) (work : Watch α) (result : Except Error α) : Prop :=
  ∀ entered, ∃ more, work entered = (result, entered ++ more) ∧ ∀ entry ∈ more, e.Takes entry

section Guarded

variable {α β : Type} {e : Engine} {work : Watch α} {r : Except Error α}

/-- Work that does not come near an engine. -/
theorem guarded_idle (h : ∀ entered, work entered = (r, entered)) : Guarded e work r := by
  intro entered
  refine ⟨[], ?_, fun entry h => absurd h List.not_mem_nil⟩
  rw [List.append_nil, h]

theorem guarded_pure (x : α) : Guarded e (pure x) (pure x) := guarded_idle fun _ => rfl

theorem guarded_throw (err : Error) : Guarded (α := α) e (throw err) (throw err) :=
  guarded_idle fun _ => rfl

theorem guarded_ofExcept (r : Except Error α) :
    Guarded e (MonadExcept.ofExcept r) (MonadExcept.ofExcept r) := by
  cases r with
  | error err => exact guarded_throw err
  | ok x => exact guarded_pure x

/-- One call that enters the engine. -/
theorem guarded_enter {entry : Entry} (h : e.Takes entry) :
    Guarded e (Enters.enter entry) (Enters.enter entry) := by
  intro entered
  refine ⟨[entry], rfl, fun other hother => ?_⟩
  obtain rfl := List.mem_singleton.mp hother
  exact h

theorem Guarded.bind {k : α → Watch β} {g : α → Except Error β} (h : Guarded e work r)
    (hnext : ∀ x, r = .ok x → Guarded e (k x) (g x)) : Guarded e (work >>= k) (r >>= g) := by
  intro entered
  obtain ⟨more, hwork, hmore⟩ := h entered
  cases r with
  | error err =>
      refine ⟨more, ?_, hmore⟩
      show (match work entered with
        | (x, s) => ExceptT.bindCont k x s) = _
      rw [hwork]
      rfl
  | ok x =>
      -- the second part starts from the log that the first has left
      obtain ⟨rest, hrest, hentries⟩ := hnext x rfl (entered ++ more)
      refine ⟨more ++ rest, ?_, ?_⟩
      · show (match work entered with
          | (x, s) => ExceptT.bindCont k x s) = _
        rw [hwork, ← List.append_assoc]
        exact hrest
      · intro entry hentry
        rcases List.mem_append.mp hentry with hentry | hentry
        · exact hmore entry hentry
        · exact hentries entry hentry

end Guarded

/-! ## The calls of an engine -/

namespace Engine

variable {e : Engine} {nonce tag : Bytes}

theorem guarded_encrypt (hn : nonce.length = e.nonceSize) (associated plaintext : Bytes) :
    Guarded e (e.encrypt nonce associated plaintext) (e.encrypt nonce associated plaintext) := by
  have hentry : e.Takes (.seal nonce associated plaintext) := hn
  refine (guarded_enter hentry).bind fun _ _ => ?_
  cases e.encrypt? nonce associated plaintext with
  | none => exact guarded_throw _
  | some made => exact guarded_pure made

theorem guarded_decrypt (hn : nonce.length = e.nonceSize) (ht : tag.length = e.tagSize)
    (associated text : Bytes) :
    Guarded e (e.decrypt nonce associated text tag) (e.decrypt nonce associated text tag) := by
  have hentry : e.Takes (.unseal nonce associated text tag) := ⟨hn, ht⟩
  refine (guarded_enter hentry).bind fun _ _ => ?_
  cases e.decrypt? nonce associated text tag with
  | none => exact guarded_throw _
  | some plaintext => exact guarded_pure plaintext

end Engine

/-! ## The calls of a cipher -/

namespace Cipher

variable {c : Cipher}

/-- What passes the check is the nonce, and has the right length. -/
theorem checkNonce_eq_ok {nonce checked : Bytes}
    (h : (MonadExcept.ofExcept (c.checkNonce nonce) : Except Error Bytes) = .ok checked) :
    checked = nonce ∧ nonce.length = c.nonceSize := by
  by_cases hn : nonce.length = c.nonceSize
  · rw [checkNonce, if_pos hn] at h
    exact ⟨(Except.ok.inj h).symm, hn⟩
  · rw [checkNonce, if_neg hn] at h
    exact absurd h (by simp [MonadExcept.ofExcept, throw, throwThe, MonadExceptOf.throw])

/-- A nonce of the wrong length does not get to the engine. -/
theorem guarded_encryptBox (nonce associated plaintext : Bytes) :
    Guarded c.engine (c.encryptBoxM nonce associated plaintext)
      (c.encryptBox nonce associated plaintext) := by
  refine (guarded_ofExcept (c.checkNonce nonce)).bind fun checked hchecked => ?_
  obtain ⟨rfl, hn⟩ := checkNonce_eq_ok hchecked
  -- past the check it is one call that enters, and the box is put together of what it gives
  have hentered := Engine.guarded_encrypt (hn.trans c.nonce_fits) associated plaintext
  exact hentered.bind fun _ _ => guarded_pure _

theorem guarded_encrypt (nonce associated plaintext : Bytes) :
    Guarded c.engine (c.encryptM nonce associated plaintext)
      (c.encrypt nonce associated plaintext) :=
  (guarded_encryptBox nonce associated plaintext).bind fun _ _ => guarded_pure _

/-- A nonce or a tag of the wrong length does not either. -/
theorem guarded_decryptBox (box : Box) (associated : Bytes) :
    Guarded c.engine (c.decryptBoxM box associated) (c.decryptBox box associated) := by
  unfold decryptBox decryptBoxM
  by_cases hbad : box.nonce.length ≠ c.nonceSize ∨ box.tag.length ≠ c.tagSize
  · rw [if_pos hbad, if_pos hbad]
    exact guarded_throw _
  · rw [if_neg hbad, if_neg hbad]
    obtain ⟨hn, ht⟩ := not_or.mp hbad
    exact Engine.guarded_decrypt ((not_not.mp hn).trans c.nonce_fits)
      ((not_not.mp ht).trans c.tag_fits) associated box.ciphertext

theorem guarded_decrypt (flat associated : Bytes) :
    Guarded c.engine (c.decryptM flat associated) (c.decrypt flat associated) :=
  (guarded_ofExcept _).bind fun box _ => guarded_decryptBox box associated

end Cipher

/-! ## Feeding in chunks -/

theorem Buffer.guarded_result (b : Buffer) : Guarded b.cipher.engine b.resultM b.result := by
  obtain ⟨c, direction, associated, kept⟩ := b
  cases direction with
  | encrypt nonce => exact Cipher.guarded_encrypt nonce associated kept
  | decrypt => exact Cipher.guarded_decrypt kept associated

/-- It is the buffer of this cipher, and only what its engine takes has entered that. -/
structure Watcher.Minds (c : Cipher) (w : Watcher) (b : Buffer) : Prop where
  buffer : w.buffer = b
  cipher : b.cipher = c
  entered : ∀ entry ∈ w.entered, c.engine.Takes entry

theorem Watcher.simulates (c : Cipher) : Streaming.Simulates (Watcher.Minds c) where
  update w b chunk h := by
    obtain ⟨rfl, rfl, hentered⟩ := h
    exact ⟨rfl, rfl, rfl, hentered⟩
  finish w b chunk h := by
    obtain ⟨rfl, rfl, hentered⟩ := h
    obtain ⟨more, hresult, hmore⟩ := Buffer.guarded_result (w.buffer.keep chunk) w.entered
    have hfinish : Streaming.Core.finish w chunk
        = ((w.buffer.keep chunk).result, ⟨w.buffer.keep chunk, w.entered ++ more⟩) := by
      show (((w.buffer.keep chunk).resultM : Watch Bytes) w.entered |>.1,
        (⟨w.buffer.keep chunk, ((w.buffer.keep chunk).resultM : Watch Bytes) w.entered |>.2⟩
          : Watcher)) = _
      rw [hresult]
    rw [hfinish]
    refine ⟨rfl, rfl, rfl, fun entry hentry => ?_⟩
    rcases List.mem_append.mp hentry with hentry | hentry
    · exact hentered entry hentry
    · exact hmore entry hentry

end PooledCrypto.Aead

namespace PooledCrypto.Provider

open Aead (Box Buffer Cipher Engine Guarded Watch Watcher)
open Session (Reports)
open Streaming (Answer Call Function released)

variable {α : Type} {c : Cipher} {s s' : State}

/-! ## Wherever the work is done -/

/-- The work is guarded in the caller's place, and on any executor. Handing it over gives the caller
what handing over the result would. -/
structure GuardedAnywhere (e : Engine) (work : Watch α) (r : Except Error α) : Prop where
  here : Guarded e work r
  elsewhere : ∀ (executor : Executor) (entered : List Aead.Entry) (s : State), ∃ more,
    offload executor work.action entered
        = ((offload executor (Action.ofExcept r) s).1, entered ++ more)
      ∧ ∀ entry ∈ more, e.Takes entry

theorem guardedAnywhere {e : Engine} {work : Watch α} {r : Except Error α}
    (h : Guarded e work r) : GuardedAnywhere e work r where
  here := h
  elsewhere executor entered s := by
    obtain ⟨more, hwork, hmore⟩ := h entered
    have haction : work.action entered = (r.mapError .error, entered ++ more) := by
      rw [Watch.action, hwork]
    have hpassed := Action.ofExcept_apply r s
    unfold offload
    rw [haction, hpassed]
    cases hruns : executor.adaptor.runs with
    | true => exact ⟨more, rfl, hmore⟩
    | false =>
        refine ⟨[], ?_, fun entry h => absurd h List.not_mem_nil⟩
        rw [List.append_nil]
        rfl

/-- The cipher lets nothing into its engine but what that takes, in whatever shape it is called.
Each call that is watched comes to what it comes to when it is run. -/
structure Guards (c : Cipher) : Prop where
  encryptBox : ∀ nonce associated plaintext, GuardedAnywhere c.engine
    (c.encryptBoxM nonce associated plaintext) (c.encryptBox nonce associated plaintext)
  encrypt : ∀ nonce associated plaintext, GuardedAnywhere c.engine
    (c.encryptM nonce associated plaintext) (c.encrypt nonce associated plaintext)
  decryptBox : ∀ box associated, GuardedAnywhere c.engine
    (c.decryptBoxM box associated) (c.decryptBox box associated)
  decrypt : ∀ flat associated, GuardedAnywhere c.engine
    (c.decryptM flat associated) (c.decrypt flat associated)
  /-- Fed in chunks, it answers alike in a whole life. -/
  streams : ∀ (direction : Aead.Direction) (associated : Bytes) (calls : List Call)
    (ending : Streaming.Ending), List.Forall₂ (Answer.Matches (Watcher.Minds c))
      (Function.life ⟨Buffer.start c direction associated, []⟩ calls ending)
      (Function.life (Buffer.start c direction associated) calls ending)
  /-- What has entered the engine when it is released is what that takes. -/
  entered : ∀ (direction : Aead.Direction) (associated : Bytes) (calls : List Call)
    (ending : Streaming.Ending), ∀ w ∈ released (Function.life
      (⟨Buffer.start c direction associated, []⟩ : Watcher) calls ending),
      ∀ entry ∈ w.entered, c.engine.Takes entry

/-- What is released in answers that match has been minded. -/
theorem minds_of_released {answers : List (Answer Watcher Bytes Bytes)}
    {answers' : List (Answer Buffer Bytes Bytes)}
    (h : List.Forall₂ (Answer.Matches (Watcher.Minds c)) answers answers') :
    ∀ w ∈ released answers, ∃ b, Watcher.Minds c w b := by
  induction h with
  | nil => exact fun w hw => absurd hw List.not_mem_nil
  | cons hanswer _ ih =>
      intro w hw
      rw [Streaming.released_cons] at hw
      rcases List.mem_append.mp hw with hw | hw
      · cases hanswer with
        | chunk r => exact absurd hw List.not_mem_nil
        | result r => exact absurd hw List.not_mem_nil
        | released hcore =>
            cases hcore with
            | none => exact absurd hw List.not_mem_nil
            | some hminds =>
                obtain rfl := List.mem_singleton.mp hw
                exact ⟨_, hminds⟩
      · exact ih w hw

theorem guards (c : Cipher) : Guards c := by
  have hstreams : ∀ (direction : Aead.Direction) (associated : Bytes) (calls : List Call)
      (ending : Streaming.Ending), List.Forall₂ (Answer.Matches (Watcher.Minds c))
        (Function.life ⟨Buffer.start c direction associated, []⟩ calls ending)
        (Function.life (Buffer.start c direction associated) calls ending) := by
    intro direction associated calls ending
    refine Function.life_related (Watcher.simulates c) ⟨rfl, rfl, ?_⟩ calls ending
    exact fun entry h => absurd h List.not_mem_nil
  exact {
    encryptBox := fun _ _ _ => guardedAnywhere (Cipher.guarded_encryptBox _ _ _)
    encrypt := fun _ _ _ => guardedAnywhere (Cipher.guarded_encrypt _ _ _)
    decryptBox := fun _ _ => guardedAnywhere (Cipher.guarded_decryptBox _ _)
    decrypt := fun _ _ => guardedAnywhere (Cipher.guarded_decrypt _ _)
    streams := hstreams
    entered := by
      intro direction associated calls ending w hw
      obtain ⟨b, hminds⟩ := minds_of_released (hstreams direction associated calls ending) w hw
      exact hminds.entered }

/-! ## How encryption fails -/

/-- Under a given nonce it is up to the cipher, which changes nothing. -/
theorem encryptBox_given (nonce associated plaintext : Bytes) (s : State) :
    Enciphering.encryptBox c (some nonce) associated plaintext s
      = ((c.encryptBox nonce associated plaintext).mapError .error, s) := by
  by_cases hn : nonce.length = c.nonceSize
  · have hchosen : Enciphering.chooseNonce c (some nonce) s = (.ok nonce, s) := by
      rw [chooseNonce_given, Cipher.checkNonce, if_pos hn]
      rfl
    exact encryptBox_of_nonce hchosen associated plaintext
  · have hchosen : Enciphering.chooseNonce c (some nonce) s
        = (.error (.error (.invalidInput (.nonceLength c.nonceSize nonce.length))), s) := by
      rw [chooseNonce_given, Cipher.checkNonce, if_neg hn]
      rfl
    rw [Cipher.encryptBox_of_length_ne hn]
    exact Action.bind_of_error hchosen

/-- Given or drawn, there is a nonce of the right length. -/
theorem exists_nonce (hroom : c.nonceSize ≤ Room.most) {chosen : Option Bytes} {st : State}
    (hlength : ∀ given, chosen = some given → given.length = c.nonceSize)
    (hworks : chosen = none → st.entropy.Works) :
    ∃ nonce st', nonce.length = c.nonceSize ∧ (∀ given, chosen = some given → nonce = given)
      ∧ ∀ associated plaintext, Enciphering.encryptBox c chosen associated plaintext st
        = ((c.encryptBox nonce associated plaintext).mapError .error, st') := by
  cases chosen with
  | some given =>
      refine ⟨given, st, hlength given rfl, fun other h => Option.some.inj h, ?_⟩
      exact fun associated plaintext => encryptBox_given given associated plaintext st
  | none =>
      obtain ⟨nonce, entropy, hn, hdrawn⟩ := chooseNonce_drawn hroom (hworks rfl)
      refine ⟨nonce, { st with entropy }, hn, fun given h => absurd h (by simp), ?_⟩
      exact fun associated plaintext => encryptBox_of_nonce hdrawn associated plaintext

theorem encrypt_given (nonce associated plaintext : Bytes) (s : State) :
    Enciphering.encrypt c (some nonce) associated plaintext s
      = ((c.encrypt nonce associated plaintext).mapError .error, s) :=
  encrypt_of_encryptBox (encryptBox_given nonce associated plaintext s)

/-- The call is refused as an invalid input. -/
def Invalid (r : Except Failure α) : Prop := ∃ why, r = .error (.error (.invalidInput why))

theorem invalid_mapError_iff {r : Except Error α} :
    Invalid (r.mapError Failure.error) ↔ ∃ why, r = .error (.invalidInput why) := by
  cases r with
  | ok v => simp [Invalid]
  | error e => simp [Invalid]

theorem encrypt_invalid_iff (nonce associated plaintext : Bytes) :
    (∃ why, c.encrypt nonce associated plaintext = .error (.invalidInput why)) ↔
      nonce.length ≠ c.nonceSize := by
  constructor
  · rintro ⟨why, h⟩
    exact (encrypt_invalidInput_iff.mp h).1
  · intro hn
    exact ⟨_, encrypt_invalidInput_iff.mpr ⟨hn, rfl⟩⟩

/-- A box is refused for what its flat form is refused for. -/
theorem encryptBox_invalid_iff {nonce associated plaintext : Bytes} :
    (∃ why, c.encryptBox nonce associated plaintext = .error (.invalidInput why)) ↔
      nonce.length ≠ c.nonceSize := by
  rw [← encrypt_invalid_iff nonce associated plaintext, Cipher.encrypt_eq_map]
  cases c.encryptBox nonce associated plaintext with
  | error e => simp [Except.map]
  | ok box => simp [Except.map]

/-! ## How decryption fails -/

/-- The call gives a value or a cryptographic failure, of which only the cause says more. -/
def Discreet (r : Except Error α) : Prop :=
  (∃ v, r = .ok v) ∨ ∃ cause, r = .error (.crypto cause)

theorem discreet_decryptBox (c : Cipher) (box : Box) (associated : Bytes) :
    Discreet (c.decryptBox box associated) := by
  by_cases hl : box.nonce.length = c.nonceSize ∧ box.tag.length = c.tagSize
  · rw [Cipher.decryptBox_of_lengths hl.1 hl.2]
    cases c.engine.decrypt? box.nonce associated box.ciphertext box.tag with
    | none => exact Or.inr ⟨_, rfl⟩
    | some plaintext => exact Or.inl ⟨_, rfl⟩
  · rw [Cipher.decryptBox_of_malformed hl]
    exact Or.inr ⟨_, rfl⟩

theorem discreet_decrypt (c : Cipher) (flat associated : Bytes) :
    Discreet (c.decrypt flat associated) := by
  by_cases hshort : flat.length < c.nonceSize + c.tagSize
  · rw [Cipher.decrypt_tooShort_iff.mpr hshort]
    exact Or.inr ⟨_, rfl⟩
  · obtain ⟨box, hbox⟩ := Box.ofFlat_of_le (Nat.le_of_not_lt hshort)
    rw [Cipher.decrypt_of_ofFlat hbox]
    exact discreet_decryptBox c box associated

/-! ## Functions that are fed -/

/-- As long as a function is open, it holds a buffer that goes on as it was started. -/
theorem buffer_of_opened {direction : Aead.Direction} {associated : Bytes} {calls : List Call}
    (ho : (Function.callAll calls (.start (Buffer.start c direction associated))).2.stage
      = .opened) :
    ∃ kept, (Function.callAll calls (.start (Buffer.start c direction associated))).2
      = ⟨.opened, some ⟨c, direction, associated, kept⟩⟩ := by
  -- the buffer is related to itself as long as it has its cipher and its direction
  have hsame : Streaming.Simulates fun b b' : Buffer =>
      b = b' ∧ ∃ kept, b = ⟨c, direction, associated, kept⟩ := by
    refine ⟨?_, ?_⟩
    · rintro b _ chunk ⟨rfl, kept, rfl⟩
      exact ⟨rfl, rfl, kept ++ chunk, rfl⟩
    · rintro b _ chunk ⟨rfl, kept, rfl⟩
      exact ⟨rfl, rfl, kept ++ chunk, rfl⟩
  have hstart : Function.Related (fun b b' : Buffer =>
      b = b' ∧ ∃ kept, b = ⟨c, direction, associated, kept⟩)
      (.start (Buffer.start c direction associated))
      (.start (Buffer.start c direction associated)) := ⟨rfl, .some ⟨rfl, [], rfl⟩⟩
  have hcore := (hstart.callAll hsame calls).2.core
  have hheld := Function.held_callAll
    (Function.held_start (Buffer.start c direction associated)) calls
  rcases hheld.cases with ⟨core, hf⟩ | ⟨core, hf⟩ | hf
  · rw [hf] at hcore
    cases hcore with
    | some h =>
        obtain ⟨-, kept, rfl⟩ := h
        exact ⟨kept, hf⟩
  · rw [hf] at ho
    exact absurd ho (by simp)
  · rw [hf] at ho
    exact absurd ho (by simp)

/-- A function that was started for encrypting has no invalid inputs left. -/
theorem finish_ne_invalid {nonce associated : Bytes} (hn : nonce.length = c.nonceSize)
    (calls : List Call) (chunk : Bytes) (why : InputFault) :
    ((Function.callAll calls
      (.start (Buffer.start c (.encrypt nonce) associated))).2.finish chunk).1
      ≠ .error (.invalidInput why) := by
  intro hinvalid
  by_cases ho : (Function.callAll calls
      (.start (Buffer.start c (.encrypt nonce) associated))).2.stage = .opened
  · obtain ⟨kept, hf⟩ := buffer_of_opened ho
    rw [hf, Function.finish_opened] at hinvalid
    have hresult : c.encrypt nonce associated (kept ++ chunk) = .error (.invalidInput why) :=
      hinvalid
    exact (encrypt_invalidInput_iff.mp hresult).1 hn
  · obtain ⟨-, hrefused, -⟩ := Function.refusesUnlessOpen _ ho
    obtain ⟨usage, hrefused⟩ := hrefused chunk
    rw [hrefused] at hinvalid
    exact absurd hinvalid (by simp)

/-- A function that was started for decrypting gives nothing away until its end. -/
theorem discreet_finish {associated : Bytes} {calls : List Call}
    (ho : (Function.callAll calls (Enciphering.startDecrypting c associated)).2.stage = .opened)
    (chunk : Bytes) :
    ((Function.callAll calls (Enciphering.startDecrypting c associated)).2.update chunk).1 = .ok []
      ∧ Discreet ((Function.callAll calls
          (Enciphering.startDecrypting c associated)).2.finish chunk).1 := by
  obtain ⟨kept, hf⟩ := buffer_of_opened ho
  unfold Enciphering.startDecrypting
  rw [hf]
  exact ⟨rfl, discreet_decrypt c (kept ++ chunk) associated⟩

/-! ## All calls -/

/-- When encrypting under an explicit nonce is an invalid input: exactly if the nonce does not have
the length that the cipher says, in each shape of a call. -/
structure NoncesChecked (o : Operation Cipher) : Prop where
  boxed : ∀ (nonce associated plaintext : Bytes) (shape : Shape) (s : State), Reports o shape →
    (Invalid (o.call shape (Enciphering.encryptBox o.core (some nonce) associated plaintext) s).1 ↔
      nonce.length ≠ o.core.nonceSize)
  flat : ∀ (nonce associated plaintext : Bytes) (shape : Shape) (s : State), Reports o shape →
    (Invalid (o.call shape (Enciphering.encrypt o.core (some nonce) associated plaintext) s).1 ↔
      nonce.length ≠ o.core.nonceSize)
  started : ∀ (nonce associated : Bytes) (s : State),
    Invalid (Enciphering.startEncrypting o.core (some nonce) associated s).1 ↔
      nonce.length ≠ o.core.nonceSize
  /-- What was started has no other nonce any more. -/
  fed : ∀ (nonce associated : Bytes) (s : State) (f : CipherFunction) (calls : List Call)
    (chunk : Bytes) (why : InputFault),
      (Enciphering.startEncrypting o.core (some nonce) associated s).1 = .ok f →
        ((Function.callAll calls f).2.finish chunk).1 ≠ .error (.invalidInput why)

theorem noncesChecked (o : Operation Cipher) : NoncesChecked o where
  boxed nonce associated plaintext shape s hr := by
    have hbox := encryptBox_given (c := o.core) nonce associated plaintext s
    rw [Session.call_of_result hr (congrArg Prod.fst hbox), hbox, invalid_mapError_iff]
    exact encryptBox_invalid_iff
  flat nonce associated plaintext shape s hr := by
    have hflat := encrypt_given (c := o.core) nonce associated plaintext s
    rw [Session.call_of_result hr (congrArg Prod.fst hflat), hflat, invalid_mapError_iff]
    exact encrypt_invalid_iff _ _ _
  started nonce associated s := by
    by_cases hn : nonce.length = o.core.nonceSize
    · rw [startEncrypting_of_length hn]
      simp [Invalid, hn]
    · rw [startEncrypting_of_length_ne hn]
      simp [Invalid, hn]
  fed nonce associated s f calls chunk why hstarted := by
    by_cases hn : nonce.length = o.core.nonceSize
    · rw [startEncrypting_of_length hn] at hstarted
      -- a function that was started has a nonce of the right length, and finishing has no other
      -- complaint
      obtain rfl := Except.ok.inj hstarted
      exact finish_ne_invalid hn calls chunk why
    · rw [startEncrypting_of_length_ne hn] at hstarted
      exact absurd hstarted (by simp)

/-- What decrypting comes to: the text or a cryptographic failure, in each shape of a call. -/
structure Decrypts (o : Operation Cipher) : Prop where
  boxed : ∀ (box : Box) (associated : Bytes), Discreet (o.core.decryptBox box associated)
    ∧ ∀ (shape : Shape) (s : State), Reports o shape →
      o.call shape (Action.ofExcept (o.core.decryptBox box associated)) s
        = ((o.core.decryptBox box associated).mapError .error, s)
  flat : ∀ flat associated : Bytes, Discreet (o.core.decrypt flat associated)
    ∧ ∀ (shape : Shape) (s : State), Reports o shape →
      o.call shape (Action.ofExcept (o.core.decrypt flat associated)) s
        = ((o.core.decrypt flat associated).mapError .error, s)
  /-- Fed in chunks, nothing comes out before the end, and then no more than that. -/
  fed : ∀ (associated : Bytes) (calls : List Call),
    (Function.callAll calls (Enciphering.startDecrypting o.core associated)).2.stage = .opened →
      ∀ chunk, ((Function.callAll calls
          (Enciphering.startDecrypting o.core associated)).2.update chunk).1 = .ok []
        ∧ Discreet ((Function.callAll calls
          (Enciphering.startDecrypting o.core associated)).2.finish chunk).1
  /-- The function comes to what decrypting all it was fed comes to. -/
  streams : ∀ associated : Bytes, Streams (Enciphering.startDecrypting o.core associated)
    fun text => o.core.decrypt text associated
  /-- Whatever the cause, all such failures read the same. -/
  message : ∀ cause, (Error.crypto cause).message = "Cryptographic operation failed"

theorem decrypts (o : Operation Cipher) : Decrypts o where
  boxed box associated :=
    ⟨discreet_decryptBox o.core box associated, fun _ _ hr => call_ofExcept hr _⟩
  flat flat associated :=
    ⟨discreet_decrypt o.core flat associated, fun _ _ hr => call_ofExcept hr _⟩
  fed _ _ ho chunk := discreet_finish ho chunk
  streams associated := streams_start o.core .decrypt associated
  message _ := rfl

/-- What calls of a key's cipher come to that was made in a state. -/
structure GuardedCalls (key : Aead.Key) (s : State) (o : Operation Cipher) : Prop where
  /-- The cipher has the key's engine. The lengths that it goes by are that of the table for a nonce
  and that which was asked for for a tag. -/
  engine : key.engine o.core.tagSize = .ok o.core.engine
    ∧ o.core.nonceSize = key.kind.nonceSize
  /-- With these lengths it lets nothing into its engine that this cannot take. -/
  guarded : Guards o.core
  /-- Each nonce that is used has the right length. One that was given is used as it is; where none
  was given, one is drawn from a source that works. -/
  nonces : ∀ (chosen : Option Bytes) (st : State),
    (∀ given, chosen = some given → given.length = o.core.nonceSize) →
    (chosen = none → st.entropy.Works) →
      ∃ nonce st', nonce.length = o.core.nonceSize
        ∧ (∀ given, chosen = some given → nonce = given)
        ∧ ∀ associated plaintext, Enciphering.encryptBox o.core chosen associated plaintext st
          = ((o.core.encryptBox nonce associated plaintext).mapError .error, st')
  encrypting : NoncesChecked o
  decrypting : Decrypts o
  /-- If the state is that of a configuration, the cipher's executor reports. -/
  reports : ∀ (around : State.Surroundings) (config : Config),
    State.ofConfig around config = .ok s → ∀ shape, Reports o shape

/--
**Engines are entered with the right lengths only.** For a cipher made for any key,
with tags of any size it can be had with:

* whatever the lengths of nonces, boxes and flat forms, in one call, on any
  executor and fed in chunks, all that enters the engine is what the engine takes,
  so no conversion to an array of fixed length unwinds;
* encrypting under an explicit nonce is an invalid input exactly if the nonce does
  not have the length that the cipher says;
* decrypting gives the text or a cryptographic failure, and these all read the same.
-/
theorem engine_entered_with_right_lengths {key : Aead.Key} {route : Factory.Route}
    {changes : Parameters.Aead → Parameters.Aead} {s s' : State} {o : Operation Cipher}
    (hmade : (cipherFactory key).make route changes s = (.ok o, s')) : GuardedCalls key s o := by
  obtain ⟨tagSize, c, hcipher, rfl⟩ := cipherFactory_made hmade
  obtain ⟨hengine, hnonce, rfl, -⟩ := Aead.Key.cipher_eq_ok hcipher
  refine ⟨⟨hengine, hnonce⟩, guards c, ?_, noncesChecked _, decrypts _, ?_⟩
  · have hroom : c.nonceSize ≤ Room.most := by
      rw [hnonce]
      exact nonceSize_le_most key.kind
    intro chosen st hlength hworks
    exact exists_nonce hroom hlength hworks
  · intro around config hconfig shape
    exact Session.reports_of_config hconfig rfl shape

/-- A cipher with AES and the shortest tags. -/
theorem engine_entered_with_right_lengths_shortest_tags :
    let key : Aead.Key := ⟨.aesGcm, Bytes.zeros 16, by decide⟩
    let s := State.start .inPlace (.seeded []) 0
    let c : Cipher := ⟨Aead.Gcm.engine key.bytes 12 (by decide), 12, 12, rfl, rfl⟩
    let o : Operation Cipher := ⟨c, .inPlace⟩
    (cipherFactory key).make .configure (fun _ => ⟨12⟩) s = (.ok o, s) ∧ GuardedCalls key s o := by
  intro key s c o
  have hmade : (cipherFactory key).make .configure (fun _ => ⟨12⟩) s = (.ok o, s) := rfl
  exact ⟨hmade, engine_entered_with_right_lengths hmade⟩

end PooledCrypto.Provider
