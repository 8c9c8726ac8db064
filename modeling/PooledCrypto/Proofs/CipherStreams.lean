import PooledCrypto.Proofs.Absorbing
import PooledCrypto.Proofs.Sealing

/-!
# Ciphers fed in chunks

A cipher that is fed in chunks keeps its own copy of everything, remembers its nonce from the start,
and takes flat forms apart once more. It comes to just what the call in one piece comes to, failures
with their causes included, and nothing comes out before the last chunk.
-/

namespace PooledCrypto.Provider

open Aead (Cipher Buffer)
open Streaming (Absorbs Function)

/-- A buffer keeps every chunk and gives out nothing. -/
theorem buffer_absorbs :
    Absorbs ([] : Bytes) fun (b : Buffer) chunk => b.keep chunk :=
  fun _ _ => rfl

/-- What a buffer has kept is all chunks one after the other. -/
theorem buffer_kept (chunks : List Bytes) (b : Buffer) :
    chunks.foldl (fun (b : Buffer) chunk => b.keep chunk) b = b.keep chunks.flatten := by
  induction chunks generalizing b with
  | nil => simp [Buffer.keep]
  | cons chunk rest ih =>
    rw [List.foldl_cons, ih, List.flatten_cons, Buffer.keep, Buffer.keep, Buffer.keep,
      List.append_assoc]

/-- A function comes, chunk by chunk, to what a call in one piece comes to. -/
structure Streams (f : CipherFunction) (whole : Bytes → Except Error Bytes) : Prop where
  /-- Every update succeeds and gives out nothing. -/
  updates : ∀ chunks, (Function.updateAll chunks f).1 = .ok (chunks.map fun _ => [])
  /-- The final chunk ends it as the whole text would. -/
  finish : ∀ chunks last, ((Function.updateAll chunks f).2.finish last).1
    = whole (chunks.flatten ++ last)
  /-- Without a final chunk, it is the text so far. -/
  complete : ∀ chunks, (Function.updateAll chunks f).2.complete.1 = whole chunks.flatten
  /-- Run to the end of a block that feeds it, it gives what the block gave. -/
  run : ∀ chunks last, (f.run (Function.feed chunks last)).1
    = (whole (chunks.flatten ++ last)).map fun out => (chunks.map (fun _ => []), out)
  /-- So it does with a block that completes it. -/
  run_complete : ∀ chunks, (f.run fun f => (Function.updateAll chunks f).2.complete).1
    = whole chunks.flatten

/-- A function over an empty buffer streams what the buffer makes of a text. -/
theorem streams_start (c : Cipher) (direction : Aead.Direction) (associated : Bytes) :
    Streams (.start (.start c direction associated))
      fun text => Buffer.result ⟨c, direction, associated, text⟩ := by
  -- the chunks only pile up in the buffer; it is at the end that anything can fail
  have hfed : ∀ chunks, Function.updateAll chunks (.start (Buffer.start c direction associated))
      = (.ok (chunks.map fun _ => []),
          ⟨.opened, some ⟨c, direction, associated, chunks.flatten⟩⟩) := by
    intro chunks
    rw [Function.start, Function.updateAll_of_absorbs buffer_absorbs, buffer_kept]
    rfl
  refine ⟨?_, ?_, ?_, ?_, ?_⟩
  · intro chunks
    rw [hfed]
  · intro chunks last
    rw [hfed, Function.finish_opened]
    rfl
  · intro chunks
    rw [hfed, Function.complete, Function.finish_opened]
    show Buffer.result ⟨c, direction, associated, chunks.flatten ++ []⟩ = _
    rw [List.append_nil]
  · intro chunks last
    rw [Function.run, Function.start, Function.feed_of_absorbs buffer_absorbs, buffer_kept]
    rfl
  · intro chunks
    rw [Function.run, hfed, Function.complete, Function.finish_opened]
    show Buffer.result ⟨c, direction, associated, chunks.flatten ++ []⟩ = _
    rw [List.append_nil]

/-! ## Starting to encrypt -/

/-- Encrypting under a nonce of the wrong length is an invalid input, and encrypting under any other
never is. -/
theorem encrypt_invalidInput_iff {c : Cipher} {nonce associated plaintext : Bytes}
    {why : InputFault} :
    c.encrypt nonce associated plaintext = .error (.invalidInput why) ↔
      nonce.length ≠ c.nonceSize ∧ why = .nonceLength c.nonceSize nonce.length := by
  rw [Cipher.encrypt_eq_map]
  by_cases hn : nonce.length = c.nonceSize
  · rw [Cipher.encryptBox_of_length hn]
    constructor
    · intro h
      cases hmade : c.engine.encrypt? nonce associated plaintext with
      | none => simp [hmade, Except.map] at h
      | some made => simp [hmade, Except.map] at h
    · rintro ⟨h, -⟩
      exact absurd hn h
  · rw [Cipher.encryptBox_of_length_ne hn]
    constructor
    · intro h
      simp only [Except.map, Except.error.injEq, Error.invalidInput.injEq] at h
      exact ⟨hn, h.symm⟩
    · rintro ⟨-, rfl⟩
      rfl

/-- Under a nonce of the right length a function is started that will use it. -/
theorem startEncrypting_of_length {c : Cipher} {nonce : Bytes} (hn : nonce.length = c.nonceSize)
    (associated : Bytes) (s : State) :
    Enciphering.startEncrypting c (some nonce) associated s
      = (.ok (.start (.start c (.encrypt nonce) associated)), s) := by
  have hchosen : Enciphering.chooseNonce c (some nonce) s = (.ok nonce, s) := by
    rw [chooseNonce_given, Cipher.checkNonce, if_pos hn]
    rfl
  unfold Enciphering.startEncrypting
  exact Action.bind_of_ok hchosen

/-- Under any other none is started. -/
theorem startEncrypting_of_length_ne {c : Cipher} {nonce : Bytes}
    (hn : nonce.length ≠ c.nonceSize) (associated : Bytes) (s : State) :
    Enciphering.startEncrypting c (some nonce) associated s
      = (.error (.error (.invalidInput (.nonceLength c.nonceSize nonce.length))), s) := by
  have hchosen : Enciphering.chooseNonce c (some nonce) s
      = (.error (.error (.invalidInput (.nonceLength c.nonceSize nonce.length))), s) := by
    rw [chooseNonce_given, Cipher.checkNonce, if_neg hn]
    rfl
  unfold Enciphering.startEncrypting
  exact Action.bind_of_error hchosen

/--
**Chunks make no difference.** For every cipher and all associated data:

* starting to encrypt under a nonce is refused as an invalid input exactly when
  encrypting any text under it is, for the same reason, and leaves everything as
  it was; otherwise a function is started that streams what encrypting the whole
  text gives;
* the function that decrypts streams what decrypting the whole gives, whatever it
  is fed.
-/
theorem cipher_streams_eq_whole (c : Cipher) (associated : Option Bytes) :
    (∀ (nonce : Bytes) (s : State),
        (∀ (plaintext : Bytes) (why : InputFault),
          Enciphering.startEncrypting c (some nonce) (associated.getD []) s
              = (.error (.error (.invalidInput why)), s) ↔
            c.encrypt nonce (associated.getD []) plaintext = .error (.invalidInput why))
        ∧ ((∀ why, Enciphering.startEncrypting c (some nonce) (associated.getD []) s
              ≠ (.error (.error (.invalidInput why)), s)) →
            ∃ f, Enciphering.startEncrypting c (some nonce) (associated.getD []) s = (.ok f, s)
              ∧ Streams f fun text => c.encrypt nonce (associated.getD []) text))
      ∧ Streams (Enciphering.startDecrypting c (associated.getD []))
          fun text => c.decrypt text (associated.getD []) := by
  refine ⟨?_, streams_start c .decrypt (associated.getD [])⟩
  intro nonce s
  by_cases hn : nonce.length = c.nonceSize
  · rw [startEncrypting_of_length hn]
    refine ⟨?_, fun _ => ⟨_, rfl, streams_start c (.encrypt nonce) (associated.getD [])⟩⟩
    intro plaintext why
    rw [encrypt_invalidInput_iff]
    constructor
    · intro h
      exact absurd (congrArg Prod.fst h) (by simp)
    · rintro ⟨h, -⟩
      exact absurd hn h
  -- a nonce of another length is the one thing that is refused beforehand
  · rw [startEncrypting_of_length_ne hn]
    refine ⟨?_, fun h => absurd rfl (h _)⟩
    intro plaintext why
    rw [encrypt_invalidInput_iff]
    constructor
    · intro h
      have hwhy := congrArg Prod.fst h
      simp only [Except.error.injEq, Failure.error.injEq, Error.invalidInput.injEq] at hwhy
      exact ⟨hn, hwhy.symm⟩
    · rintro ⟨-, rfl⟩
      rfl

end PooledCrypto.Provider
