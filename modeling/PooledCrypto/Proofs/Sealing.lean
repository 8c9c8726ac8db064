import PooledCrypto.Proofs.Actions
import PooledCrypto.Provider.Enciphering

/-!
# Decryption accepts just what encryption makes

Encryption and decryption are written apart. One puts nonce, ciphertext and tag one after the other;
the other takes bytes of unknown origin apart by lengths alone. This file says that they fit: what
is accepted is what could have been made, under the nonce in front, and no other tag would have done.

It goes from the inside out. An engine takes back what it made (`decrypt?_eq_some_iff`); so does a
cipher with boxes, where lengths are checked as well (`decryptBox_eq_ok_iff_encryptBox`); and a box
and its flat form determine each other (`ofFlat_eq_ok_iff`).
-/

namespace PooledCrypto.Aead

/-! ## A box and its flat form -/

/-- Taking bytes apart gives the one box with parts of those lengths that they are the form of. -/
theorem Box.ofFlat_eq_ok_iff {flat : Bytes} {nonceSize tagSize : Nat} {box : Box} :
    Box.ofFlat flat nonceSize tagSize = .ok box ↔
      box.toFlat = flat ∧ box.nonce.length = nonceSize ∧ box.tag.length = tagSize := by
  constructor
  · intro h
    unfold Box.ofFlat at h
    split at h
    · exact absurd h (by simp)
    · rename_i hlen
      dsimp only at h
      obtain rfl := Except.ok.inj h
      refine ⟨?_, ?_, ?_⟩
      · rw [Box.toFlat, List.append_assoc, List.take_append_drop, List.take_append_drop]
      · simp only [List.length_take]
        omega
      · simp only [List.length_drop]
        omega
  · rintro ⟨rfl, rfl, rfl⟩
    exact Box.ofFlat_toFlat box

/-! ## Engines -/

/-- Run, a call that enters an engine comes to what the engine makes of it. -/
theorem Engine.run_encrypt (e : Engine) (nonce associated plaintext : Bytes) :
    (e.encrypt nonce associated plaintext : Except Error (Bytes × Bytes))
      = (e.encrypt? nonce associated plaintext).elim
        (.error (.crypto (some .plaintextRejected))) .ok := rfl

theorem Engine.run_decrypt (e : Engine) (nonce associated text tag : Bytes) :
    (e.decrypt nonce associated text tag : Except Error Bytes)
      = (e.decrypt? nonce associated text tag).elim
        (.error (.crypto (some .authentication))) .ok := rfl

/-- A tag has the length that its engine says. -/
theorem Engine.length_tag_of_encrypt? {e : Engine} {nonce associated plaintext text tag : Bytes}
    (h : e.encrypt? nonce associated plaintext = some (text, tag)) : tag.length = e.tagSize := by
  unfold Engine.encrypt? at h
  split at h
  · simp only [Option.some.injEq, Prod.mk.injEq] at h
    obtain ⟨-, rfl⟩ := h
    exact e.length_tag _ _ _
  · exact absurd h (by simp)

/-- What an engine encrypts is within its limits, and keeps its length but for the tag. -/
theorem Engine.encrypt?_eq_some {e : Engine} {nonce associated plaintext text tag : Bytes}
    (h : e.encrypt? nonce associated plaintext = some (text, tag)) :
    e.admits associated.length plaintext.length = true ∧ text.length = plaintext.length
      ∧ tag.length = e.tagSize := by
  have htag := length_tag_of_encrypt? h
  unfold encrypt? at h
  split at h
  · rename_i hadmits
    have htext : e.cipher nonce plaintext = text := (Prod.mk.inj (Option.some.inj h)).1
    exact ⟨hadmits, by rw [← htext, e.length_cipher], htag⟩
  · exact absurd h (by simp)

/-- Of one nonce, ciphertext and associated data an engine accepts at most one tag. -/
theorem Engine.tag_unique {e : Engine} {nonce associated text tag tag' p p' : Bytes}
    (h : e.decrypt? nonce associated text tag = some p)
    (h' : e.decrypt? nonce associated text tag' = some p') : tag = tag' := by
  unfold Engine.decrypt? at h h'
  split at h
  · rename_i hv
    split at h'
    · rename_i hv'
      simp only [Bool.and_eq_true, beq_iff_eq] at hv hv'
      rw [hv.2, hv'.2]
    · exact absurd h' (by simp)
  · exact absurd h (by simp)

namespace Cipher

variable {c : Cipher}

/-! ## Boxes -/

/-- Under a nonce of the right length it is up to the engine. -/
theorem encryptBox_of_length {nonce : Bytes} (hn : nonce.length = c.nonceSize)
    (associated plaintext : Bytes) :
    c.encryptBox nonce associated plaintext
      = (c.engine.encrypt? nonce associated plaintext).elim
        (.error (.crypto (some .plaintextRejected))) fun made => .ok ⟨nonce, made.1, made.2⟩ := by
  have hentered : c.encryptBox nonce associated plaintext
      = (c.engine.encrypt nonce associated plaintext : Except Error (Bytes × Bytes)).bind
        fun made => .ok ⟨nonce, made.1, made.2⟩ := by
    unfold encryptBox encryptBoxM checkNonce
    rw [if_pos hn]
    rfl
  rw [hentered, Engine.run_encrypt]
  cases c.engine.encrypt? nonce associated plaintext <;> rfl

/-- A nonce of any other length is refused before the engine is asked. -/
theorem encryptBox_of_length_ne {nonce : Bytes} (hn : nonce.length ≠ c.nonceSize)
    (associated plaintext : Bytes) :
    c.encryptBox nonce associated plaintext
      = .error (.invalidInput (.nonceLength c.nonceSize nonce.length)) := by
  unfold encryptBox encryptBoxM checkNonce
  rw [if_neg hn]
  rfl

/-- With parts of the right lengths it is up to the engine. -/
theorem decryptBox_of_lengths {box : Box} (hn : box.nonce.length = c.nonceSize)
    (ht : box.tag.length = c.tagSize) (associated : Bytes) :
    c.decryptBox box associated
      = (c.engine.decrypt? box.nonce associated box.ciphertext box.tag).elim
        (.error (.crypto (some .authentication))) .ok := by
  have hpass : ¬(box.nonce.length ≠ c.nonceSize ∨ box.tag.length ≠ c.tagSize) := by
    simp [hn, ht]
  unfold decryptBox decryptBoxM
  rw [if_neg hpass, Engine.run_decrypt]

/-- A box with parts of any other lengths is badly made. -/
theorem decryptBox_of_malformed {box : Box}
    (h : ¬(box.nonce.length = c.nonceSize ∧ box.tag.length = c.tagSize)) (associated : Bytes) :
    c.decryptBox box associated = .error (.crypto (some .malformedBox)) := by
  unfold decryptBox decryptBoxM
  rw [if_pos (Decidable.not_and_iff_or_not.mp h)]
  rfl

/-- The flat form of the box. -/
theorem encrypt_eq_map (nonce associated plaintext : Bytes) :
    c.encrypt nonce associated plaintext
      = (c.encryptBox nonce associated plaintext).map Box.toFlat := by
  unfold encrypt encryptM encryptBox
  cases (c.encryptBoxM nonce associated plaintext : Except Error Box) <;> rfl

/-- A flat form is taken apart, and then it is up to the box. -/
theorem decrypt_eq_bind (flat associated : Bytes) :
    c.decrypt flat associated
      = (Box.ofFlat flat c.nonceSize c.tagSize).bind fun box => c.decryptBox box associated := by
  unfold decrypt decryptM decryptBox
  cases Box.ofFlat flat c.nonceSize c.tagSize <;> rfl

theorem encryptBox_eq_ok_iff {nonce associated plaintext : Bytes} {box : Box} :
    c.encryptBox nonce associated plaintext = .ok box ↔
      nonce.length = c.nonceSize ∧ box.nonce = nonce
        ∧ c.engine.encrypt? nonce associated plaintext = some (box.ciphertext, box.tag) := by
  by_cases hn : nonce.length = c.nonceSize
  · rw [encryptBox_of_length hn]
    cases he : c.engine.encrypt? nonce associated plaintext with
    | none => simp
    | some made =>
        obtain ⟨text, tag⟩ := made
        rw [Option.elim_some]
        constructor
        · intro h
          obtain rfl := Except.ok.inj h
          exact ⟨hn, rfl, rfl⟩
        · rintro ⟨-, rfl, h⟩
          simp only [Option.some.injEq, Prod.mk.injEq] at h
          obtain ⟨rfl, rfl⟩ := h
          rfl
  · rw [encryptBox_of_length_ne hn]
    constructor
    · intro h
      exact absurd h (by simp)
    · rintro ⟨h, -, -⟩
      exact absurd h hn

theorem decryptBox_eq_ok_iff {box : Box} {associated plaintext : Bytes} :
    c.decryptBox box associated = .ok plaintext ↔
      box.nonce.length = c.nonceSize ∧ box.tag.length = c.tagSize
        ∧ c.engine.decrypt? box.nonce associated box.ciphertext box.tag = some plaintext := by
  by_cases hl : box.nonce.length = c.nonceSize ∧ box.tag.length = c.tagSize
  · rw [decryptBox_of_lengths hl.1 hl.2]
    cases hd : c.engine.decrypt? box.nonce associated box.ciphertext box.tag with
    | none => simp
    | some p => simp [hl]
  · rw [decryptBox_of_malformed hl]
    constructor
    · intro h
      exact absurd h (by simp)
    · rintro ⟨h1, h2, -⟩
      exact absurd ⟨h1, h2⟩ hl

/-- **Boxes.** A box is accepted exactly if encrypting under its nonce makes it. -/
theorem decryptBox_eq_ok_iff_encryptBox {box : Box} {associated plaintext : Bytes} :
    c.decryptBox box associated = .ok plaintext ↔
      c.encryptBox box.nonce associated plaintext = .ok box := by
  rw [decryptBox_eq_ok_iff, encryptBox_eq_ok_iff, c.engine.decrypt?_eq_some_iff]
  constructor
  · rintro ⟨hn, -, he⟩
    exact ⟨hn, rfl, he⟩
  · rintro ⟨hn, -, he⟩
    exact ⟨hn, (Engine.length_tag_of_encrypt? he).trans c.tag_fits.symm, he⟩

/-! ## Flat forms -/

/-- **Flat forms.** Bytes are accepted exactly if they are what encrypting under some nonce makes.
The nonce is the one in front. -/
theorem decrypt_eq_ok_iff {flat associated plaintext : Bytes} :
    c.decrypt flat associated = .ok plaintext ↔
      ∃ nonce, nonce.length = c.nonceSize ∧ c.encrypt nonce associated plaintext = .ok flat := by
  constructor
  · intro h
    rw [decrypt_eq_bind] at h
    cases hb : Box.ofFlat flat c.nonceSize c.tagSize with
    | error e =>
        rw [hb] at h
        exact absurd h (by simp [Except.bind])
    | ok box =>
        rw [hb] at h
        obtain ⟨hflat, hn, -⟩ := Box.ofFlat_eq_ok_iff.mp hb
        have hmade := decryptBox_eq_ok_iff_encryptBox.mp h
        exact ⟨box.nonce, hn, by rw [encrypt_eq_map, hmade, ← hflat]; rfl⟩
  · rintro ⟨nonce, hn, h⟩
    rw [encrypt_eq_map] at h
    cases hb : c.encryptBox nonce associated plaintext with
    | error e =>
        rw [hb] at h
        exact absurd h (by simp [Except.map])
    | ok box =>
        rw [hb] at h
        obtain rfl := Except.ok.inj h
        obtain ⟨-, rfl, he⟩ := encryptBox_eq_ok_iff.mp hb
        -- the flat form is cut by lengths, so it is cut where it was joined
        have htag : box.tag.length = c.tagSize :=
          (Engine.length_tag_of_encrypt? he).trans c.tag_fits.symm
        have hparts : Box.ofFlat box.toFlat c.nonceSize c.tagSize = .ok box :=
          Box.ofFlat_eq_ok_iff.mpr ⟨rfl, hn, htag⟩
        rw [decrypt_eq_bind, hparts]
        exact decryptBox_eq_ok_iff_encryptBox.mpr hb

/-- Bytes with a nonce in front and a tag behind are decrypted as the box of the three parts. -/
theorem decrypt_parts {nonce text tag : Bytes} (hn : nonce.length = c.nonceSize)
    (ht : tag.length = c.tagSize) (associated : Bytes) :
    c.decrypt (nonce ++ text ++ tag) associated = c.decryptBox ⟨nonce, text, tag⟩ associated := by
  have hparts : Box.ofFlat (nonce ++ text ++ tag) c.nonceSize c.tagSize
      = .ok ⟨nonce, text, tag⟩ := Box.ofFlat_eq_ok_iff.mpr ⟨rfl, hn, ht⟩
  rw [decrypt_eq_bind, hparts]
  rfl

/-- A tag that is not the one that is accepted is an authentication failure. -/
theorem decrypt_other_tag {nonce text tag tag' associated plaintext : Bytes}
    (hn : nonce.length = c.nonceSize) (ht : tag.length = c.tagSize)
    (ht' : tag'.length = c.tagSize)
    (h : c.decrypt (nonce ++ text ++ tag) associated = .ok plaintext) (hne : tag' ≠ tag) :
    c.decrypt (nonce ++ text ++ tag') associated = .error (.crypto (some .authentication)) := by
  rw [decrypt_parts hn ht] at h
  obtain ⟨-, -, hd⟩ := decryptBox_eq_ok_iff.mp h
  rw [decrypt_parts hn ht', decryptBox_of_lengths hn ht']
  cases hd' : c.engine.decrypt? nonce associated text tag' with
  | none => rfl
  | some p => exact absurd (Engine.tag_unique hd' hd) hne

/-- What the engine admits can be encrypted under every nonce of the right length. -/
theorem encrypt_of_admits {nonce associated plaintext : Bytes} (hn : nonce.length = c.nonceSize)
    (ha : c.engine.admits associated.length plaintext.length = true) :
    ∃ flat, c.encrypt nonce associated plaintext = .ok flat := by
  rw [encrypt_eq_map, encryptBox_of_length hn]
  simp [Engine.encrypt?, ha, Except.map]

/-- What is encrypted is within the limits of the engine, whatever the nonce, and grows by the nonce
and the tag. -/
theorem encrypt_eq_ok {nonce associated plaintext flat : Bytes}
    (h : c.encrypt nonce associated plaintext = .ok flat) :
    c.engine.admits associated.length plaintext.length = true
      ∧ flat.length = c.ciphertextSize plaintext.length := by
  rw [encrypt_eq_map] at h
  cases hbox : c.encryptBox nonce associated plaintext with
  | error e =>
      rw [hbox] at h
      exact absurd h (by simp [Except.map])
  | ok box =>
      rw [hbox] at h
      obtain rfl := Except.ok.inj h
      obtain ⟨hnonce, rfl, hengine⟩ := encryptBox_eq_ok_iff.mp hbox
      obtain ⟨hadmits, htext, htag⟩ := Engine.encrypt?_eq_some hengine
      refine ⟨hadmits, ?_⟩
      rw [Box.length_toFlat, Box.flatLength, hnonce, htext, htag, ← c.tag_fits]
      rfl

end Cipher

/-! ## The ciphers there are -/

/-- Tags have sixteen bytes, and with AES they can be shorter, down to twelve. -/
theorem Kind.tagSize_of_dispatch {kind : Kind} {key : Bytes} {tagSize : Nat} {e : Engine}
    (h : kind.dispatch key tagSize = .ok e) :
    tagSize = 16 ∨ (kind = .aesGcm ∧ 12 ≤ tagSize ∧ tagSize < 16) := by
  cases kind with
  | aesGcm =>
      unfold dispatch at h
      dsimp only at h
      split at h
      · split at h
        · rename_i hs
          by_cases h16 : tagSize = 16
          · exact Or.inl h16
          · exact Or.inr ⟨rfl, hs.1, by omega⟩
        · exact absurd h (by simp)
      · exact absurd h (by simp)
  | chaCha20Poly1305 | xChaCha20Poly1305 =>
      unfold dispatch at h
      dsimp only at h
      split at h
      · exact absurd h (by simp)
      · rename_i htag
        exact Or.inl (Decidable.not_not.mp htag)

/-- The cipher of an engine that there is. -/
theorem Key.cipher_of_engine {key : Key} {tagSize : Nat} {e : Engine}
    (h : key.engine tagSize = .ok e) : key.cipher tagSize = .ok ⟨e, key.kind.nonceSize, tagSize,
      (Kind.sizes_of_dispatch h).1.symm, (Kind.sizes_of_dispatch h).2.symm⟩ := by
  unfold Key.cipher
  split
  · rename_i e' he
    obtain rfl : e' = e := Except.ok.inj (he.symm.trans h)
    rfl
  · rename_i err he
    exact absurd (he.symm.trans h) (by simp)

theorem Key.cipher_of_error {key : Key} {tagSize : Nat} {err : Error}
    (h : key.engine tagSize = .error err) : key.cipher tagSize = .error err := by
  unfold Key.cipher
  split
  · rename_i e' he
    exact absurd (he.symm.trans h) (by simp)
  · rename_i err' he
    rw [Except.error.inj (he.symm.trans h)]

/-- A cipher has the nonces of the table and the tags that were asked for, and the key's engine for
them. -/
theorem Key.cipher_eq_ok {key : Key} {tagSize : Nat} {c : Cipher}
    (h : key.cipher tagSize = .ok c) :
    key.engine tagSize = .ok c.engine ∧ c.nonceSize = key.kind.nonceSize ∧ c.tagSize = tagSize
      ∧ (tagSize = 16 ∨ (key.kind = .aesGcm ∧ 12 ≤ tagSize ∧ tagSize < 16)) := by
  cases hengine : key.engine tagSize with
  | error err =>
      rw [cipher_of_error hengine] at h
      exact absurd h (by simp)
  | ok e =>
      obtain rfl := Except.ok.inj ((cipher_of_engine hengine).symm.trans h)
      exact ⟨rfl, rfl, rfl, Kind.tagSize_of_dispatch hengine⟩

end PooledCrypto.Aead

namespace PooledCrypto.Provider

open Aead (Cipher)

/-! ## Under a given nonce and under a drawn one -/

theorem chooseNonce_given (c : Cipher) (nonce : Bytes) (s : State) :
    Enciphering.chooseNonce c (some nonce) s = ((c.checkNonce nonce).mapError .error, s) :=
  Action.ofExcept_apply _ s

/-- A drawn nonce has the right length, and all that drawing it changes is the source. -/
theorem chooseNonce_drawn {c : Cipher} (hroom : c.nonceSize ≤ Room.most) {s : State}
    (hworks : s.entropy.Works) :
    ∃ (nonce : Bytes) (entropy : Entropy), nonce.length = c.nonceSize
      ∧ Enciphering.chooseNonce c none s = (.ok nonce, { s with entropy }) := by
  obtain ⟨nonce, entropy, hdrawn, hlength⟩ := drawBytes_of_works hworks hroom
  exact ⟨nonce, entropy, hlength, hdrawn⟩

/-- Once there is a nonce, a box is what the cipher makes under it. -/
theorem encryptBox_of_nonce {c : Cipher} {chosen : Option Bytes} {nonce : Bytes} {s s' : State}
    (hc : Enciphering.chooseNonce c chosen s = (.ok nonce, s'))
    (associated plaintext : Bytes) :
    Enciphering.encryptBox c chosen associated plaintext s
      = ((c.encryptBox nonce associated plaintext).mapError .error, s') := by
  unfold Enciphering.encryptBox
  rw [Action.bind_of_ok hc, Action.ofExcept_apply]

/-- The flat form is that of the box, and there is none where there is no box. -/
theorem encrypt_of_encryptBox {c : Cipher} {chosen : Option Bytes}
    {nonce associated plaintext : Bytes} {s s' : State}
    (hbox : Enciphering.encryptBox c chosen associated plaintext s
      = ((c.encryptBox nonce associated plaintext).mapError .error, s')) :
    Enciphering.encrypt c chosen associated plaintext s
      = ((c.encrypt nonce associated plaintext).mapError .error, s') := by
  rw [Cipher.encrypt_eq_map]
  unfold Enciphering.encrypt
  cases hb : c.encryptBox nonce associated plaintext with
  | error e =>
      rw [hb] at hbox
      exact Action.bind_of_error hbox
  | ok box =>
      rw [hb] at hbox
      exact Action.bind_of_ok hbox

/-- Once there is a nonce, encrypting is up to the cipher. -/
theorem encrypt_of_nonce {c : Cipher} {chosen : Option Bytes} {nonce : Bytes} {s s' : State}
    (hc : Enciphering.chooseNonce c chosen s = (.ok nonce, s'))
    (associated plaintext : Bytes) :
    Enciphering.encrypt c chosen associated plaintext s
      = ((c.encrypt nonce associated plaintext).mapError .error, s') :=
  encrypt_of_encryptBox (encryptBox_of_nonce hc associated plaintext)

/-- Without a nonce from the caller, encrypting is up to the cipher and the nonce that is drawn, or
the source does not work and its error is the answer. -/
theorem encrypt_drawn_cases {c : Cipher} (hroom : c.nonceSize ≤ Room.most) (s : State)
    (associated plaintext : Bytes) :
    (∃ (nonce : Bytes) (entropy : Entropy), nonce.length = c.nonceSize
        ∧ Enciphering.encrypt c none associated plaintext s
          = ((c.encrypt nonce associated plaintext).mapError .error, { s with entropy }))
      ∨ ¬s.entropy.Works ∧ ∃ why entropy, Enciphering.encrypt c none associated plaintext s
        = (.error (.error (.randomSource why)), { s with entropy }) := by
  rcases drawBytes_cases s hroom with ⟨nonce, entropy, hdrawn, hlength⟩ | ⟨hbroken, why, entropy, h⟩
  · have hchosen : Enciphering.chooseNonce c none s = (.ok nonce, { s with entropy }) := hdrawn
    exact Or.inl ⟨nonce, entropy, hlength, encrypt_of_nonce hchosen associated plaintext⟩
  · exact Or.inr ⟨hbroken, why, entropy, Action.bind_of_error (Action.bind_of_error h)⟩

/-- A cipher that was made is the key's for tags of some size, on the provider's executor. -/
theorem cipherFactory_made {key : Aead.Key} {route : Factory.Route}
    {changes : Parameters.Aead → Parameters.Aead} {s s' : State} {o : Operation Cipher}
    (h : (cipherFactory key).make route changes s = (.ok o, s')) :
    ∃ tagSize c, key.cipher tagSize = .ok c ∧ o = ⟨c, s.executor⟩ := by
  obtain ⟨p, hconstruct⟩ := Factory.make_eq_ok h
  obtain ⟨c, s₁, hcipher, hmade⟩ := Action.bind_eq_ok hconstruct
  obtain ⟨hkey, rfl⟩ := Action.ofExcept_eq_ok hcipher
  exact ⟨p.tagSize, c, hkey, (Except.ok.inj (congrArg Prod.fst hmade)).symm⟩

/-! ## The ciphers that are handed out -/

/-- No nonce is too long to be drawn. -/
theorem nonceSize_le_most (kind : Aead.Kind) : kind.nonceSize ≤ Room.most := by
  cases kind <;> decide

/--
**Decryption accepts just what encryption makes.** For a cipher made for any key,
with tags of any size it can be had with:

* bytes decrypt to a plaintext exactly if encrypting that plaintext under some
  nonce of the cipher's length gives those bytes;
* whatever the engine admits comes back, under a given nonce as under one that is
  drawn from a source that works;
* where a tag is accepted, changing it to any other of its length is an
  authentication failure.

Associated data that is absent is empty throughout.
-/
theorem decrypt_accepts_image_of_encrypt {key : Aead.Key} {route : Factory.Route}
    {changes : Parameters.Aead → Parameters.Aead} {s s' : State} {o : Operation Cipher}
    (hmade : (cipherFactory key).make route changes s = (.ok o, s')) :
    (o.core.nonceSize = key.kind.nonceSize
        ∧ (o.core.tagSize = 16
            ∨ (key.kind = .aesGcm ∧ 12 ≤ o.core.tagSize ∧ o.core.tagSize < 16)))
      ∧ (∀ (flat plaintext : Bytes) (associated : Option Bytes),
          o.core.decrypt flat (associated.getD []) = .ok plaintext ↔
            ∃ nonce, nonce.length = o.core.nonceSize
              ∧ o.core.encrypt nonce (associated.getD []) plaintext = .ok flat)
      ∧ (∀ (chosen : Option Bytes) (plaintext : Bytes) (associated : Option Bytes) (t : State),
          (∀ nonce, chosen = some nonce → nonce.length = o.core.nonceSize) →
          (chosen = none → t.entropy.Works) →
          o.core.engine.admits (associated.getD []).length plaintext.length = true →
          ∃ flat t', Enciphering.encrypt o.core chosen (associated.getD []) plaintext t
              = (.ok flat, t')
            ∧ o.core.decrypt flat (associated.getD []) = .ok plaintext)
      ∧ ∀ (nonce text tag tag' plaintext : Bytes) (associated : Option Bytes),
          nonce.length = o.core.nonceSize → tag.length = o.core.tagSize →
          tag'.length = o.core.tagSize →
          o.core.decrypt (nonce ++ text ++ tag) (associated.getD []) = .ok plaintext →
          tag' ≠ tag →
          o.core.decrypt (nonce ++ text ++ tag') (associated.getD [])
            = .error (.crypto (some .authentication)) := by
  obtain ⟨tagSize, c, hcipher, rfl⟩ := cipherFactory_made hmade
  obtain ⟨-, hnonceSize, htagSize, hsizes⟩ := Aead.Key.cipher_eq_ok hcipher
  refine ⟨⟨hnonceSize, by rw [htagSize]; exact hsizes⟩, ?_, ?_, ?_⟩
  · intro flat plaintext associated
    exact Cipher.decrypt_eq_ok_iff
  · intro chosen plaintext associated t hlen hworks hadmits
    -- given or drawn, there is a nonce of the right length
    obtain ⟨nonce, t', hn, hchosen⟩ : ∃ (nonce : Bytes) (t' : State),
        nonce.length = c.nonceSize
          ∧ Enciphering.chooseNonce c chosen t = (.ok nonce, t') := by
      cases chosen with
      | some nonce =>
          have hn := hlen nonce rfl
          refine ⟨nonce, t, hn, ?_⟩
          rw [chooseNonce_given, Cipher.checkNonce, if_pos hn]
          rfl
      | none =>
          have hroom : c.nonceSize ≤ Room.most := by
            rw [hnonceSize]
            exact nonceSize_le_most key.kind
          obtain ⟨nonce, entropy, hn, hdrawn⟩ := chooseNonce_drawn hroom (hworks rfl)
          exact ⟨nonce, _, hn, hdrawn⟩
    obtain ⟨flat, hflat⟩ := Cipher.encrypt_of_admits hn hadmits
    refine ⟨flat, t', ?_, Cipher.decrypt_eq_ok_iff.mpr ⟨nonce, hn, hflat⟩⟩
    rw [encrypt_of_nonce hchosen, hflat]
    rfl
  · intro nonce text tag tag' plaintext associated hn ht ht' hd hne
    exact Cipher.decrypt_other_tag hn ht ht' hd hne

/-- A cipher with AES and the shortest tags: 24 bytes are accepted as the empty text exactly if
encrypting that under some nonce gives them. -/
theorem decrypt_accepts_image_shortest_tags :
    let key : Aead.Key := ⟨.aesGcm, Bytes.zeros 16, by decide⟩
    let s := State.start .inPlace (.seeded []) 0
    let c : Cipher := ⟨Aead.Gcm.engine key.bytes 12 (by decide), 12, 12, rfl, rfl⟩
    let o : Operation Cipher := ⟨c, .inPlace⟩
    (cipherFactory key).make .configure (fun _ => ⟨12⟩) s = (.ok o, s)
      ∧ (o.core.decrypt (Bytes.zeros 24) [] = .ok [] ↔
          ∃ nonce : Bytes, nonce.length = 12
            ∧ o.core.encrypt nonce [] [] = .ok (Bytes.zeros 24)) := by
  intro key s c o
  have hmade : (cipherFactory key).make .configure (fun _ => ⟨12⟩) s = (.ok o, s) := rfl
  exact ⟨hmade, (decrypt_accepts_image_of_encrypt hmade).2.1 (Bytes.zeros 24) [] none⟩

end PooledCrypto.Provider
