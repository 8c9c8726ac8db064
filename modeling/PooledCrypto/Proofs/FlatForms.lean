import PooledCrypto.Proofs.Sealing

/-!
# One layout

Boxed and flat, a ciphertext has the same three parts. Four places know how long they are: taking
bytes apart, putting a box together, and the two functions that foretell a length. This file says
that they mean the same layout.

Boxes come first (`Splitting`), for parts of any lengths. What holds of ciphers (`Cipher.Layout`)
follows, since a cipher decrypts a flat form by taking it apart at the lengths it checks boxes for.
Where bytes are too short for a nonce and a tag, the function that foretells the length of the text
fails and decryption says so; everywhere else neither does.
-/

namespace PooledCrypto.Aead

/-! ## Boxes -/

variable {flat : Bytes} {nonceSize tagSize : Nat} {box : Box}

theorem Box.ofFlat_of_lt (h : flat.length < nonceSize + tagSize) :
    Box.ofFlat flat nonceSize tagSize = .error (.crypto (some .tooShort)) := by
  unfold ofFlat
  rw [if_pos h]

theorem Box.ofFlat_of_le (h : nonceSize + tagSize ≤ flat.length) :
    ∃ box, Box.ofFlat flat nonceSize tagSize = .ok box := by
  unfold ofFlat
  rw [if_neg (Nat.not_lt.mpr h)]
  exact ⟨_, rfl⟩

/-- The box has parts of these lengths, and the bytes are its flat form. -/
structure Box.Splits (box : Box) (flat : Bytes) (nonceSize tagSize : Nat) : Prop where
  nonce : box.nonce.length = nonceSize
  ciphertext : box.ciphertext.length = flat.length - nonceSize - tagSize
  tag : box.tag.length = tagSize
  whole : box.toFlat = flat

/-- What bytes are taken apart into has the lengths that were asked for. The text is the rest. -/
theorem Box.splits_of_ofFlat (h : Box.ofFlat flat nonceSize tagSize = .ok box) :
    box.Splits flat nonceSize tagSize := by
  obtain ⟨hflat, hnonce, htag⟩ := Box.ofFlat_eq_ok_iff.mp h
  have hlength := box.length_toFlat
  rw [hflat, Box.flatLength] at hlength
  exact ⟨hnonce, by omega, htag, hflat⟩

/-- What boxes and flat forms have to do with each other, whatever the lengths of the parts. -/
structure Splitting : Prop where
  /-- The flat form of a box is taken apart into the box. -/
  back : ∀ box : Box, Box.ofFlat box.toFlat box.nonce.length box.tag.length = .ok box
  /-- Its length can be had without making it. -/
  length : ∀ box : Box, box.flatLength = box.toFlat.length
  /-- Bytes can be taken apart exactly if there are enough for a nonce and a tag. -/
  enough : ∀ (flat : Bytes) (nonceSize tagSize : Nat),
    (∃ box, Box.ofFlat flat nonceSize tagSize = .ok box) ↔ nonceSize + tagSize ≤ flat.length
  /-- Any fewer are too short. -/
  short : ∀ (flat : Bytes) (nonceSize tagSize : Nat), flat.length < nonceSize + tagSize →
    Box.ofFlat flat nonceSize tagSize = .error (.crypto (some .tooShort))
  /-- The parts have the lengths that were asked for, and come to the bytes again. -/
  parts : ∀ (flat : Bytes) (nonceSize tagSize : Nat) (box : Box),
    Box.ofFlat flat nonceSize tagSize = .ok box → box.Splits flat nonceSize tagSize

theorem splitting : Splitting where
  back := Box.ofFlat_toFlat
  length box := box.length_toFlat.symm
  enough flat nonceSize tagSize := by
    constructor
    · rintro ⟨box, h⟩
      refine Nat.le_of_not_lt fun hshort => ?_
      rw [Box.ofFlat_of_lt hshort] at h
      exact absurd h (by simp)
    · exact Box.ofFlat_of_le
  short _ _ _ := Box.ofFlat_of_lt
  parts _ _ _ _ := Box.splits_of_ofFlat

/-! ## Ciphers -/

namespace Cipher

variable {c : Cipher} {associated plaintext : Bytes}

/-- What is decrypted is what the bytes are taken apart into. -/
theorem decrypt_of_ofFlat (h : Box.ofFlat flat c.nonceSize c.tagSize = .ok box)
    (associated : Bytes) : c.decrypt flat associated = c.decryptBox box associated := by
  rw [decrypt_eq_bind, h]
  rfl

/-- No box is too short. -/
theorem decryptBox_ne_tooShort :
    c.decryptBox box associated ≠ .error (.crypto (some .tooShort)) := by
  by_cases hl : box.nonce.length = c.nonceSize ∧ box.tag.length = c.tagSize
  · rw [decryptBox_of_lengths hl.1 hl.2]
    cases c.engine.decrypt? box.nonce associated box.ciphertext box.tag <;> simp
  · rw [decryptBox_of_malformed hl]
    simp

theorem decrypt_tooShort_iff :
    c.decrypt flat associated = .error (.crypto (some .tooShort)) ↔
      flat.length < c.nonceSize + c.tagSize := by
  constructor
  · intro h
    refine Nat.lt_of_not_le fun henough => ?_
    obtain ⟨box, hbox⟩ := Box.ofFlat_of_le henough
    rw [decrypt_of_ofFlat hbox] at h
    exact decryptBox_ne_tooShort h
  · intro h
    rw [decrypt_eq_bind, Box.ofFlat_of_lt h]
    rfl

theorem plaintextSize_of_lt {m : Nat} (h : m < c.nonceSize + c.tagSize) :
    c.plaintextSize m
      = .error (.invalidInput (.ciphertextLength m (c.nonceSize + c.tagSize))) := by
  unfold plaintextSize
  rw [if_pos h]

/-- The two functions that foretell a length are inverse to each other. -/
theorem plaintextSize_eq_ok_iff {m n : Nat} :
    c.plaintextSize m = .ok n ↔ c.ciphertextSize n = m := by
  unfold ciphertextSize
  by_cases hshort : m < c.nonceSize + c.tagSize
  · rw [plaintextSize_of_lt hshort]
    constructor
    · intro h
      exact absurd h (by simp)
    · intro h
      omega
  · unfold plaintextSize
    rw [if_neg hshort, Except.ok.injEq]
    omega

/-- Their failures are those of too few bytes. -/
theorem plaintextSize_error_iff {m : Nat} :
    (∃ e, c.plaintextSize m = .error e) ↔ m < c.nonceSize + c.tagSize := by
  constructor
  · rintro ⟨e, h⟩
    refine Nat.lt_of_not_le fun henough => ?_
    have hsize : c.plaintextSize m = .ok (m - (c.nonceSize + c.tagSize)) :=
      plaintextSize_eq_ok_iff.mpr (by unfold ciphertextSize; omega)
    rw [hsize] at h
    exact absurd h (by simp)
  · intro h
    exact ⟨_, plaintextSize_of_lt h⟩

/-- The flat form of an encrypted text has the length that was foretold. -/
theorem flatLength_of_encryptBox {nonce : Bytes}
    (h : c.encryptBox nonce associated plaintext = .ok box) :
    box.flatLength = c.ciphertextSize plaintext.length := by
  have hflat : c.encrypt nonce associated plaintext = .ok box.toFlat := by
    rw [encrypt_eq_map, h]
    rfl
  rw [← box.length_toFlat]
  exact (encrypt_eq_ok hflat).2

/-- What is decrypted has the length that was foretold. -/
theorem plaintextSize_of_decrypt (h : c.decrypt flat associated = .ok plaintext) :
    c.plaintextSize flat.length = .ok plaintext.length := by
  obtain ⟨nonce, -, hmade⟩ := decrypt_eq_ok_iff.mp h
  exact plaintextSize_eq_ok_iff.mpr (encrypt_eq_ok hmade).2.symm

end Cipher
end PooledCrypto.Aead

namespace PooledCrypto.Provider

open Aead (Box Cipher Splitting)

variable {c : Cipher} {chosen : Option Bytes} {associated plaintext : Bytes} {s s' : State}

/-- Under a given nonce or a drawn one, a box is what the cipher makes under some nonce. -/
theorem encryptBox_eq_ok {box : Box}
    (h : Enciphering.encryptBox c chosen associated plaintext s = (.ok box, s')) :
    ∃ nonce, c.encryptBox nonce associated plaintext = .ok box := by
  obtain ⟨nonce, s₁, -, hbox⟩ := Action.bind_eq_ok h
  exact ⟨nonce, (Action.ofExcept_eq_ok hbox).1⟩

/-- The flat form is that of a box. -/
theorem encrypt_eq_ok {flat : Bytes}
    (h : Enciphering.encrypt c chosen associated plaintext s = (.ok flat, s')) :
    ∃ box, Enciphering.encryptBox c chosen associated plaintext s = (.ok box, s')
      ∧ box.toFlat = flat := by
  obtain ⟨box, s₁, hbox, hflat⟩ := Action.bind_eq_ok h
  rw [Action.pure_apply] at hflat
  obtain ⟨hout, rfl⟩ := Prod.mk.inj hflat
  exact ⟨box, hbox, Except.ok.inj hout⟩

/-- What a cipher does with flat forms, with boxes and with their lengths. -/
structure Layout (c : Cipher) : Prop where
  /-- A flat form is decrypted as the box that it is taken apart into. -/
  split : ∀ (flat associated : Bytes) (box : Box),
    Box.ofFlat flat c.nonceSize c.tagSize = .ok box →
      c.decrypt flat associated = c.decryptBox box associated
  /-- A box with a nonce and a tag of the right lengths is decrypted as its flat form. -/
  whole : ∀ (box : Box) (associated : Bytes),
    box.nonce.length = c.nonceSize → box.tag.length = c.tagSize →
      c.decryptBox box associated = c.decrypt box.toFlat associated
  /-- What is encrypted has the foretold length, under a given nonce and under a drawn one. -/
  boxed : ∀ (chosen : Option Bytes) (associated plaintext : Bytes) (box : Box) (s s' : State),
    Enciphering.encryptBox c chosen associated plaintext s = (.ok box, s') →
      box.flatLength = c.ciphertextSize plaintext.length
  /-- So it has in its flat form. -/
  flat : ∀ (chosen : Option Bytes) (associated plaintext flat : Bytes) (s s' : State),
    Enciphering.encrypt c chosen associated plaintext s = (.ok flat, s') →
      flat.length = c.ciphertextSize plaintext.length
  /-- A length is foretold of a text exactly if the text would be encrypted to it. -/
  sizes : ∀ m n, c.plaintextSize m = .ok n ↔ c.ciphertextSize n = m
  /-- Where none is foretold, and only there, decryption says that the bytes are too short. -/
  short : ∀ flat associated : Bytes, (∃ e, c.plaintextSize flat.length = .error e) ↔
    c.decrypt flat associated = .error (.crypto (some .tooShort))
  /-- What is decrypted has the length that is foretold. -/
  text : ∀ flat associated plaintext : Bytes, c.decrypt flat associated = .ok plaintext →
    c.plaintextSize flat.length = .ok plaintext.length

theorem layout (c : Cipher) : Layout c where
  split _ associated _ h := Cipher.decrypt_of_ofFlat h associated
  whole box associated hnonce htag := by
    have hbox : Box.ofFlat box.toFlat c.nonceSize c.tagSize = .ok box :=
      Box.ofFlat_eq_ok_iff.mpr ⟨rfl, hnonce, htag⟩
    exact (Cipher.decrypt_of_ofFlat hbox associated).symm
  boxed _ _ _ _ _ _ h := by
    obtain ⟨nonce, hmade⟩ := encryptBox_eq_ok h
    exact Cipher.flatLength_of_encryptBox hmade
  flat _ _ _ _ _ _ h := by
    obtain ⟨box, hbox, rfl⟩ := encrypt_eq_ok h
    obtain ⟨nonce, hmade⟩ := encryptBox_eq_ok hbox
    rw [box.length_toFlat]
    exact Cipher.flatLength_of_encryptBox hmade
  sizes _ _ := Cipher.plaintextSize_eq_ok_iff
  short _ _ := Cipher.plaintextSize_error_iff.trans Cipher.decrypt_tooShort_iff.symm
  text _ _ _ := Cipher.plaintextSize_of_decrypt

/--
**One layout.** Boxes and flat forms determine each other, whatever the lengths of
the parts. So for every cipher, whatever its engine, it makes no difference in
which form a text is decrypted, and the two functions that foretell lengths are
right. A cipher made for a key has the nonces of the key's table and tags of the
length that was asked for.
-/
theorem flat_and_boxed_forms_agree :
    Splitting
      ∧ (∀ c : Cipher, Layout c)
      ∧ ∀ (key : Aead.Key) (tagSize : Nat) (c : Cipher), key.cipher tagSize = .ok c →
          ∀ n, c.ciphertextSize n = key.kind.nonceSize + n + tagSize := by
  refine ⟨Aead.splitting, layout, ?_⟩
  intro key tagSize c h n
  obtain ⟨-, hnonce, htag, -⟩ := Aead.Key.cipher_eq_ok h
  rw [Cipher.ciphertextSize, hnonce, htag]

end PooledCrypto.Provider
