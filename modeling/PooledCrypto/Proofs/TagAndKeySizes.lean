import PooledCrypto.Proofs.FlatForms
import PooledCrypto.Proofs.PublicImports

/-!
# Tag and key sizes

How long a tag or a key may be is decided at four places, each with a table of its own: the check of
parameters, the generator of keys, the decoder of keys, and the engines. This file says that the
tables fit. Whoever asks for something that is not well formed at all is told so before anybody
looks whether there is such a thing (`Screened`), and on every route in the same way.

The engines check the length of their key once more (`Kind.dispatch`). A key that was handed out
never fails these checks, and all others would.
-/

namespace PooledCrypto.Aead

/-! ## The engines' own tables -/

/-- The engines know the lengths that the table of keys knows. -/
theorem Kind.dispatch_invalid_iff (kind : Kind) (key : Bytes) (tagSize : Nat) :
    (∃ why, kind.dispatch key tagSize = .error (.invalidInput why)) ↔
      key.length ∉ kind.keySizes ∧ (kind = .aesGcm ∨ tagSize = 16) := by
  cases kind with
  | aesGcm =>
      by_cases hkey : key.length = 16 ∨ key.length = 24 ∨ key.length = 32
      · by_cases hrange : 12 ≤ tagSize ∧ tagSize ≤ 16 <;> simp [dispatch, keySizes, hkey, hrange]
      · simp [dispatch, keySizes, hkey]
  | chaCha20Poly1305 | xChaCha20Poly1305 =>
      by_cases htag : tagSize = 16
      · by_cases hkey : key.length = 32 <;> simp [dispatch, keySizes, hkey, htag]
      · simp [dispatch, htag]

variable {key : Key} {tagSize : Nat}

/-- Tags of a usual length are had with AES; with the other ciphers they have sixteen bytes. -/
theorem Key.engine_of_supported (hrange : 12 ≤ tagSize ∧ tagSize ≤ 16)
    (hkind : ¬(key.kind ≠ .aesGcm ∧ tagSize ≠ 16)) : ∃ engine, key.engine tagSize = .ok engine := by
  obtain ⟨kind, bytes, hlength⟩ := key
  cases kind with
  | aesGcm =>
      have hkey : bytes.length = 16 ∨ bytes.length = 24 ∨ bytes.length = 32 := by
        simpa [Kind.keySizes] using hlength
      exact ⟨_, (if_pos hkey).trans (dif_pos hrange)⟩
  | chaCha20Poly1305 | xChaCha20Poly1305 =>
      have htag : tagSize = 16 := by simpa using hkind
      have hkey : bytes.length = 32 := by simpa [Kind.keySizes] using hlength
      exact ⟨_, (if_neg (not_not_intro htag)).trans (if_pos hkey)⟩

/-- Only AES-GCM has tags of other sizes than sixteen bytes. -/
theorem Key.engine_of_unsupported (hkind : key.kind ≠ .aesGcm ∧ tagSize ≠ 16) :
    key.engine tagSize = .error (.operationNotSupported (.tagBytes key.kind.name tagSize)) := by
  obtain ⟨kind, bytes, hlength⟩ := key
  obtain ⟨haes, htag⟩ := hkind
  cases kind with
  | aesGcm => exact absurd rfl haes
  | chaCha20Poly1305 => exact if_pos htag
  | xChaCha20Poly1305 => exact if_pos htag

theorem Key.ofBytes_of_mem {kind : Kind} {bytes : Bytes} (h : bytes.length ∈ kind.keySizes) :
    Key.ofBytes kind bytes = .ok ⟨kind, bytes, h⟩ := dif_pos h

theorem Key.ofBytes_of_not_mem {kind : Kind} {bytes : Bytes} (h : bytes.length ∉ kind.keySizes) :
    Key.ofBytes kind bytes = .error (.invalidInput (.keyLength kind.name bytes.length)) := dif_neg h

theorem Key.kind_of_ofBytes {kind : Kind} {bytes : Bytes} (h : Key.ofBytes kind bytes = .ok key) :
    key.kind = kind := by
  by_cases hlength : bytes.length ∈ kind.keySizes
  · rw [ofBytes_of_mem hlength] at h
    obtain rfl := Except.ok.inj h
    rfl
  · rw [ofBytes_of_not_mem hlength] at h
    exact absurd h (by simp)

/-- No key is longer than 32 bytes. -/
theorem Kind.le_of_mem_keySizes {kind : Kind} {n : Nat} (h : n ∈ kind.keySizes) : n ≤ 32 := by
  cases kind <;> simp [keySizes] at h <;> omega

end PooledCrypto.Aead

namespace PooledCrypto.Provider

open Aead (Cipher Kind)
open Session (Reports requireRaw_other bytes_of_ofBytes)

/-! ## Answers to what is checked twice -/

/-- The answer to a request that is first checked for being well formed and then looked up. A
request that is ill formed is an invalid input for the one reason, and one that is well formed but
for which there is nothing is not supported for the other. -/
structure Screened {α : Type} (ill missing : Prop) (why : InputFault) (what : Unsupported)
    (answer : Except Failure α) : Prop where
  invalid : (∃ w, answer = .error (.error (.invalidInput w))) ↔ ill
  unsupported : (∃ w, answer = .error (.error (.operationNotSupported w))) ↔ ¬ill ∧ missing
  given : (∃ v, answer = .ok v) ↔ ¬ill ∧ ¬missing
  reason : ∀ w, answer = .error (.error (.invalidInput w)) → w = why
  lack : ∀ w, answer = .error (.error (.operationNotSupported w)) → w = what

section Screened

variable {α : Type} {ill missing : Prop} {why : InputFault} {what : Unsupported}

/-- What is ill formed is refused first, whatever else is wrong with it. -/
theorem screened_ill (h : ill) :
    Screened (α := α) ill missing why what (.error (.error (.invalidInput why))) := by
  constructor <;> simp [h]

theorem screened_missing (hill : ¬ill) (h : missing) :
    Screened (α := α) ill missing why what (.error (.error (.operationNotSupported what))) := by
  constructor <;> simp [hill, h]

theorem screened_given (hill : ¬ill) (h : ¬missing) (v : α) :
    Screened ill missing why what (.ok v) := by
  constructor <;> simp [hill, h]

end Screened

/-! ## Ciphers -/

section Ciphers

variable {key : Aead.Key} {p q : Parameters.Aead} {s s' : State}

/-- The check of parameters accepts tags of twelve to sixteen bytes. -/
theorem check_aead_of_range (h : 12 ≤ q.tagSize ∧ q.tagSize ≤ 16) :
    Parameters.check q = .ok q := if_pos h

theorem check_aead_of_not_range (h : ¬(12 ≤ q.tagSize ∧ q.tagSize ≤ 16)) :
    Parameters.check q = .error (.invalidInput (.tagSize q.tagSize)) := if_neg h

theorem range_of_check (h : Parameters.check p = .ok p) : 12 ≤ p.tagSize ∧ p.tagSize ≤ 16 := by
  by_cases hrange : 12 ≤ p.tagSize ∧ p.tagSize ≤ 16
  · exact hrange
  · rw [check_aead_of_not_range hrange] at h
    exact absurd h (by simp)

/-- Whether a cipher has no tags of a length, among those that are well formed. -/
def LacksTag (kind : Kind) (tagSize : Nat) : Prop := kind ≠ .aesGcm ∧ tagSize ≠ 16

/-- The cipher says how long its tags are, makes them of that length and accepts no others. -/
structure TagsOf (c : Cipher) (tagSize : Nat) : Prop where
  told : c.tagSize = tagSize
  made : ∀ (chosen : Option Bytes) (associated plaintext : Bytes) (box : Aead.Box) (s s' : State),
    Enciphering.encryptBox c chosen associated plaintext s = (.ok box, s') →
      box.tag.length = tagSize
  accepted : ∀ (box : Aead.Box) (associated plaintext : Bytes),
    c.decryptBox box associated = .ok plaintext → box.tag.length = tagSize

theorem tagsOf (c : Cipher) : TagsOf c c.tagSize where
  told := rfl
  made _ _ _ _ _ _ h := by
    obtain ⟨nonce, hbox⟩ := encryptBox_eq_ok h
    obtain ⟨-, -, hengine⟩ := Cipher.encryptBox_eq_ok_iff.mp hbox
    exact (Aead.Engine.length_tag_of_encrypt? hengine).trans c.tag_fits.symm
  accepted _ _ _ h := (Cipher.decryptBox_eq_ok_iff.mp h).2.1

/-- Asking for a cipher with tags of a length is answered so, and changes nothing. -/
structure CipherAnswer (key : Aead.Key) (tagSize : Nat) (s : State)
    (answer : Except Failure (Operation Cipher) × State) : Prop where
  screened : Screened (tagSize < 12 ∨ 16 < tagSize) (LacksTag key.kind tagSize) (.tagSize tagSize)
    (.tagBytes key.kind.name tagSize) answer.1
  cipher : ∀ o, answer.1 = .ok o → TagsOf o.core tagSize
  unchanged : answer.2 = s

/-- Parameters that are well formed are looked up by the engines. -/
theorem answer_construct (key : Aead.Key) (s : State)
    (hrange : 12 ≤ q.tagSize ∧ q.tagSize ≤ 16) :
    CipherAnswer key q.tagSize s ((cipherFactory key).construct q s) := by
  have hformed : ¬(q.tagSize < 12 ∨ 16 < q.tagSize) := by omega
  by_cases hlacks : LacksTag key.kind q.tagSize
  -- well formed, but no engine of this kind has it: the error names kind and size
  · have hcipher : Action.ofExcept (key.cipher q.tagSize) s
        = (.error (.error (.operationNotSupported (.tagBytes key.kind.name q.tagSize))), s) := by
      rw [Aead.Key.cipher_of_error (Aead.Key.engine_of_unsupported hlacks), Action.ofExcept_apply]
      rfl
    have hmade : (cipherFactory key).construct q s
        = (.error (.error (.operationNotSupported (.tagBytes key.kind.name q.tagSize))), s) :=
      Action.bind_of_error hcipher
    rw [hmade]
    exact ⟨screened_missing hformed hlacks, fun o h => absurd h (by simp), rfl⟩
  · obtain ⟨engine, hengine⟩ := Aead.Key.engine_of_supported hrange hlacks
    obtain ⟨c, heq, htag⟩ : ∃ c : Cipher, key.cipher q.tagSize = .ok c ∧ c.tagSize = q.tagSize :=
      ⟨_, Aead.Key.cipher_of_engine hengine, rfl⟩
    have hcipher : Action.ofExcept (key.cipher q.tagSize) s = (.ok c, s) := by
      rw [heq, Action.ofExcept_apply]
      rfl
    have hmade : (cipherFactory key).construct q s = (.ok ⟨c, s.executor⟩, s) :=
      Action.bind_of_ok hcipher
    rw [hmade]
    refine ⟨screened_given hformed hlacks _, fun o h => ?_, rfl⟩
    obtain rfl := Except.ok.inj h
    rw [← htag]
    exact tagsOf c

/-- On every route that heeds changes, the answer is that for the changed length. -/
theorem answer_changed (key : Aead.Key) (p : Parameters.Aead) (s : State)
    {route : Factory.Route} (heeds : route ≠ .create)
    (changes : Parameters.Aead → Parameters.Aead) :
    CipherAnswer key (changes p).tagSize s
      (((cipherFactory key).withDefaults p).make route changes s) := by
  by_cases hrange : 12 ≤ (changes p).tagSize ∧ (changes p).tagSize ≤ 16
  · rw [Factory.make_of_changed heeds (check_aead_of_range hrange)]
    exact answer_construct key s hrange
  · rw [Factory.make_of_refused heeds (check_aead_of_not_range hrange)]
    have hill : (changes p).tagSize < 12 ∨ 16 < (changes p).tagSize := by omega
    exact ⟨screened_ill hill, fun o h => absurd h (by simp [Action.fail]), rfl⟩

/-- What requests of a factory leave behind. -/
def askAll {π ο : Type} [Parameters π] (f : Factory State π ο)
    (requests : List (Factory.Route × (π → π))) (s : State) : State :=
  requests.foldl (fun s r => (f.make r.1 r.2 s).2) s

/-- Asking a factory time and again changes nothing if asking it once does not. -/
theorem askAll_eq {π ο : Type} [Parameters π] {f : Factory State π ο}
    (h : ∀ route changes s, (f.make route changes s).2 = s)
    (requests : List (Factory.Route × (π → π))) (s : State) : askAll f requests s = s := by
  induction requests generalizing s with
  | nil => rfl
  | cons r rest ih =>
      show askAll f rest (f.make r.1 r.2 s).2 = s
      rw [h, ih]

/-- How the factory of a key's ciphers answers, with any defaults that pass the check. -/
structure CipherSizes (key : Aead.Key) : Prop where
  /-- Changes are answered for the length that they come to. -/
  changed : ∀ (p : Parameters.Aead) (route : Factory.Route)
    (changes : Parameters.Aead → Parameters.Aead) (s : State), route ≠ .create →
      CipherAnswer key (changes p).tagSize s
        (((cipherFactory key).withDefaults p).make route changes s)
  /-- The routes on which they are heeded are all the same. -/
  alike : ∀ (p : Parameters.Aead) (route route' : Factory.Route)
    (changes : Parameters.Aead → Parameters.Aead), route ≠ .create → route' ≠ .create →
      ((cipherFactory key).withDefaults p).make route changes
        = ((cipherFactory key).withDefaults p).make route' changes
  /-- Without heeding them, the answer is that for the defaults, whatever was asked for before. -/
  defaults : ∀ (p : Parameters.Aead) (requests : List (Factory.Route
      × (Parameters.Aead → Parameters.Aead))) (changes : Parameters.Aead → Parameters.Aead)
    (s : State), Parameters.check p = .ok p →
      CipherAnswer key p.tagSize s (((cipherFactory key).withDefaults p).make .create changes
        (askAll ((cipherFactory key).withDefaults p) requests s))
  /-- The defaults that it has to begin with are tags of sixteen bytes, which every cipher has. -/
  usual : (cipherFactory key).withDefaults ⟨16⟩ = cipherFactory key ∧ ¬LacksTag key.kind 16

theorem cipherSizes (key : Aead.Key) : CipherSizes key where
  changed p _ changes s heeds := answer_changed key p s heeds changes
  alike p route route' changes heeds heeds' := by
    rw [Factory.make_eq_configure _ route changes heeds,
      Factory.make_eq_configure _ route' changes heeds']
  defaults p requests changes s hp := by
    have hkeeps : ∀ route changes s,
        (((cipherFactory key).withDefaults p).make route changes s).2 = s := by
      intro route changes s
      by_cases hr : route = .create
      · subst hr
        exact (answer_construct key s (range_of_check hp)).unchanged
      · exact (answer_changed key p s hr changes).unchanged
    -- so what was asked for before is of no account
    rw [askAll_eq hkeeps]
    exact answer_construct key s (range_of_check hp)
  usual := ⟨rfl, fun h => h.2 rfl⟩

end Ciphers

/-! ## Keys -/

section Keys

variable {kind : Kind} {p q : Parameters.AeadKey} {s s' : State}

/-- Whether a key length in bits is no positive number of whole bytes. -/
def IllBits (bits : Nat) : Prop := bits = 0 ∨ bits % 8 ≠ 0

theorem check_aeadKey_of_not_ill (h : ¬IllBits q.keySize) : Parameters.check q = .ok q := by
  have hsize : Parameters.checkKeySize q.keySize = .ok () := if_neg h
  show (Parameters.checkKeySize q.keySize).bind (fun _ => .ok q) = .ok q
  rw [hsize]
  rfl

theorem check_aeadKey_of_ill (h : IllBits q.keySize) :
    Parameters.check q = .error (.invalidInput (.keySize q.keySize)) := by
  have hsize : Parameters.checkKeySize q.keySize = .error (.invalidInput (.keySize q.keySize)) :=
    if_pos h
  show (Parameters.checkKeySize q.keySize).bind (fun _ => .ok q) = _
  rw [hsize]
  rfl

theorem not_ill_of_check (h : Parameters.check p = .ok p) : ¬IllBits p.keySize := by
  intro hill
  rw [check_aeadKey_of_ill hill] at h
  exact absurd h (by simp)

/-- What a generator does when it is called. -/
def drawKey (kind : Kind) (len : Nat) : Action State Aead.Key := do
  let bytes ← drawBytes len
  Action.ofExcept (Aead.Key.ofBytes kind bytes)

/-- With a source that works, drawing a key of a length from the table gives one, and all that it
changes is the source. -/
theorem drawKey_of_mem {len : Nat} (hlen : len ∈ kind.keySizes) {st : State}
    (hworks : st.entropy.Works) :
    ∃ (key : Aead.Key) (entropy : Entropy), drawKey kind len st = (.ok key, { st with entropy })
      ∧ key.kind = kind ∧ key.bytes.length = len := by
  have hroom : len ≤ Room.most :=
    Nat.le_trans (Aead.Kind.le_of_mem_keySizes hlen) (by decide)
  obtain ⟨bytes, entropy, hdrawn, rfl⟩ := drawBytes_of_works hworks hroom
  refine ⟨⟨kind, bytes, hlen⟩, entropy, ?_, rfl, rfl⟩
  rw [drawKey, Action.bind_of_ok hdrawn, Aead.Key.ofBytes_of_mem hlen, Action.ofExcept_apply]
  rfl

/-- Asking for a generator of keys of so many bits is answered so, and changes nothing. -/
structure GeneratorAnswer (kind : Kind) (bits : Nat) (s : State)
    (answer : Except Failure (KeyGenerator Aead.Key) × State) : Prop where
  screened : Screened (IllBits bits) (bits / 8 ∉ kind.keySizes) (.keySize bits)
    (.keyBits kind.name bits) answer.1
  /-- A generator gives keys of that length in either shape of a call, as long as the source works. -/
  keys : ∀ (generator : KeyGenerator Aead.Key) (shape : Shape) (st : State),
    answer.1 = .ok generator → Reports generator shape → st.entropy.Works →
      ∃ (key : Aead.Key) (entropy : Entropy),
        generator.call shape generator.core st = (.ok key, { st with entropy })
          ∧ key.kind = kind ∧ key.bytes.length * 8 = bits
  /-- It runs on the provider's executor. -/
  executor : ∀ generator, answer.1 = .ok generator → generator.executor = s.executor
  unchanged : answer.2 = s

/-- A generator that is made draws a key of the size that was asked for, or none. -/
theorem generator_construct (kind : Kind) (s : State) (hformed : ¬IllBits q.keySize) :
    GeneratorAnswer kind q.keySize s ((aeadGenerator kind).construct q s) := by
  -- whole bytes, so that the number of bits in the error is the one that was given
  have hbits : q.keySize / 8 * 8 = q.keySize := by
    unfold IllBits at hformed
    omega
  by_cases hlen : q.keySize / 8 ∈ kind.keySizes
  · have hchecked : Action.ofExcept (kind.checkKeySize (q.keySize / 8)) s = (.ok (), s) := by
      rw [Kind.checkKeySize, if_pos hlen, Action.ofExcept_apply]
      rfl
    have hconstruct : (aeadGenerator kind).construct q s
        = (.ok ⟨drawKey kind (q.keySize / 8), s.executor⟩, s) := Action.bind_of_ok hchecked
    rw [hconstruct]
    refine ⟨screened_given hformed (not_not_intro hlen) _, ?_, ?_, rfl⟩
    · intro generator shape st hgenerator hreports hworks
      obtain rfl := Except.ok.inj hgenerator
      obtain ⟨key, entropy, hdrawn, hkind, hlength⟩ := drawKey_of_mem hlen hworks
      refine ⟨key, entropy, ?_, hkind, by rw [hlength, hbits]⟩
      have hresult : (drawKey kind (q.keySize / 8) st).1
          = (Except.ok key : Except Error Aead.Key).mapError Failure.error :=
        congrArg Prod.fst hdrawn
      rw [Session.call_of_result hreports hresult]
      exact hdrawn
    · intro generator hgenerator
      obtain rfl := Except.ok.inj hgenerator
      rfl
  · have hchecked : Action.ofExcept (kind.checkKeySize (q.keySize / 8)) s
        = (.error (.error (.operationNotSupported (.keyBits kind.name q.keySize))), s) := by
      rw [Kind.checkKeySize, if_neg hlen, Action.ofExcept_apply, hbits]
      rfl
    have hconstruct : (aeadGenerator kind).construct q s
        = (.error (.error (.operationNotSupported (.keyBits kind.name q.keySize))), s) :=
      Action.bind_of_error hchecked
    rw [hconstruct]
    exact ⟨screened_missing hformed hlen, fun g shape st h => absurd h (by simp),
      fun g h => absurd h (by simp), rfl⟩

/-- Sizes that are changed on the way are checked like those that were given at once. -/
theorem generator_changed (kind : Kind) (p : Parameters.AeadKey) (s : State)
    {route : Factory.Route} (heeds : route ≠ .create)
    (changes : Parameters.AeadKey → Parameters.AeadKey) :
    GeneratorAnswer kind (changes p).keySize s
      (((aeadGenerator kind).withDefaults p).make route changes s) := by
  by_cases hill : IllBits (changes p).keySize
  · rw [Factory.make_of_refused heeds (check_aeadKey_of_ill hill)]
    exact ⟨screened_ill hill, fun g shape st h => absurd h (by simp [Action.fail]),
      fun g h => absurd h (by simp [Action.fail]), rfl⟩
  · rw [Factory.make_of_changed heeds (check_aeadKey_of_not_ill hill)]
    exact generator_construct kind s hill

/-- How bytes are imported. -/
structure Imports (kind : Kind) : Prop where
  /-- Just the raw forms of a length in the table are. -/
  accepted : ∀ (format : KeyFormat) (bytes : Bytes),
    (∃ key, decodeAeadKey kind format bytes = .ok key) ↔
      format = .raw ∧ bytes.length ∈ kind.keySizes
  /-- They are the key then. -/
  key : ∀ (format : KeyFormat) (bytes : Bytes) (key : Aead.Key),
    decodeAeadKey kind format bytes = .ok key → key.kind = kind ∧ key.bytes = bytes
  /-- Other formats are not supported, whatever the bytes. -/
  format : ∀ (format : KeyFormat) (bytes : Bytes), format ≠ .raw →
    decodeAeadKey kind format bytes = .error (.operationNotSupported (.keyEncoding format))
  /-- Raw forms of any other length are invalid inputs. -/
  length : ∀ bytes : Bytes, bytes.length ∉ kind.keySizes →
    decodeAeadKey kind .raw bytes = .error (.invalidInput (.keyLength kind.name bytes.length))

/-- Keys for ciphers have the raw form only. -/
theorem decodeAeadKey_other {format : KeyFormat} (bytes : Bytes) (h : format ≠ .raw) :
    decodeAeadKey kind format bytes = .error (.operationNotSupported (.keyEncoding format)) := by
  unfold decodeAeadKey
  rw [requireRaw_other h]
  rfl

theorem decodeAeadKey_ok {format : KeyFormat} {bytes : Bytes} {key : Aead.Key}
    (h : decodeAeadKey kind format bytes = .ok key) :
    format = .raw ∧ Aead.Key.ofBytes kind bytes = .ok key := by
  by_cases hraw : format = .raw
  · subst hraw
    exact ⟨rfl, h⟩
  · rw [decodeAeadKey_other bytes hraw] at h
    exact absurd h (by simp)

theorem imports (kind : Kind) : Imports kind where
  accepted format bytes := by
    constructor
    · rintro ⟨key, h⟩
      obtain ⟨hraw, hkey⟩ := decodeAeadKey_ok h
      have hkind := Aead.Key.kind_of_ofBytes hkey
      have hbytes := bytes_of_ofBytes hkey
      refine ⟨hraw, ?_⟩
      rw [← hkind, ← hbytes]
      exact key.length_mem
    · rintro ⟨rfl, hlength⟩
      exact ⟨_, Aead.Key.ofBytes_of_mem hlength⟩
  key format bytes key h := by
    obtain ⟨-, hkey⟩ := decodeAeadKey_ok h
    exact ⟨Aead.Key.kind_of_ofBytes hkey, bytes_of_ofBytes hkey⟩
  format _ bytes h := decodeAeadKey_other bytes h
  length _ h := Aead.Key.ofBytes_of_not_mem h

/-- The keys that the decoder of a cipher and its generators hand out. -/
inductive HandedOut (kind : Kind) : Aead.Key → Prop
  | imported {key : Aead.Key} (format : KeyFormat) (bytes : Bytes) :
      decodeAeadKey kind format bytes = .ok key → HandedOut kind key
  | generated {key : Aead.Key} (p : Parameters.AeadKey) (route : Factory.Route)
      (changes : Parameters.AeadKey → Parameters.AeadKey) (generator : KeyGenerator Aead.Key)
      (shape : Shape) (s s₁ st st' : State) :
      ((aeadGenerator kind).withDefaults p).make route changes s = (.ok generator, s₁) →
      generator.call shape generator.core st = (.ok key, st') → HandedOut kind key

/-- A generator that was made draws keys of its kind. -/
theorem generator_eq_ok {route : Factory.Route}
    {changes : Parameters.AeadKey → Parameters.AeadKey} {generator : KeyGenerator Aead.Key}
    (h : ((aeadGenerator kind).withDefaults p).make route changes s = (.ok generator, s')) :
    ∃ len, generator = ⟨drawKey kind len, s.executor⟩ := by
  obtain ⟨q, hconstruct⟩ := Factory.make_eq_ok h
  obtain ⟨_, s₁, hchecked, hmade⟩ := Action.bind_eq_ok hconstruct
  obtain ⟨-, rfl⟩ := Action.ofExcept_eq_ok hchecked
  exact ⟨q.keySize / 8, (Except.ok.inj (congrArg Prod.fst hmade)).symm⟩

/-- Whichever way a key came, it is one of its cipher. -/
theorem HandedOut.kind_eq {key : Aead.Key} (h : HandedOut kind key) : key.kind = kind := by
  cases h with
  | imported format bytes h => exact ((imports kind).key format bytes key h).1
  | generated p route changes generator shape s s₁ st st' hmade hcall =>
      obtain ⟨len, rfl⟩ := generator_eq_ok hmade
      obtain ⟨bytes, s₂, -, hkey⟩ := Action.bind_eq_ok (call_eq_ok hcall)
      exact Aead.Key.kind_of_ofBytes (Action.ofExcept_eq_ok hkey).1

end Keys

/-! ## All tables together -/

/-- The checks of parameters, the tables of keys and the engines of a cipher agree. -/
structure SizesAgree (kind : Kind) : Prop where
  imported : Imports kind
  /-- Keys are generated with as many bits as the changes come to. -/
  generated : ∀ (p : Parameters.AeadKey) (route : Factory.Route)
    (changes : Parameters.AeadKey → Parameters.AeadKey) (s : State), route ≠ .create →
      GeneratorAnswer kind (changes p).keySize s
        (((aeadGenerator kind).withDefaults p).make route changes s)
  /-- Without heeding them, with as many as the defaults say. -/
  usual : ∀ (p : Parameters.AeadKey) (changes : Parameters.AeadKey → Parameters.AeadKey)
    (s : State), Parameters.check p = .ok p →
      GeneratorAnswer kind p.keySize s
        (((aeadGenerator kind).withDefaults p).make .create changes s)
  /-- Each configuration gives an executor on which they are generated in either shape. -/
  reports : ∀ (around : State.Surroundings) (config : Config) (s s' : State)
    (p : Parameters.AeadKey) (route : Factory.Route)
    (changes : Parameters.AeadKey → Parameters.AeadKey) (generator : KeyGenerator Aead.Key),
      State.ofConfig around config = .ok s →
      ((aeadGenerator kind).withDefaults p).make route changes s = (.ok generator, s') →
        ∀ shape, Reports generator shape
  /-- Each key that is handed out is of this kind, and its ciphers have the sizes there are. -/
  ciphers : ∀ key, HandedOut kind key → key.kind = kind ∧ CipherSizes key
  /-- No such key is refused by the engines as one of a bad length. -/
  engines : ∀ key, HandedOut kind key → ∀ tagSize,
    key.engine tagSize = kind.dispatch key.bytes tagSize
      ∧ ∀ why, kind.dispatch key.bytes tagSize ≠ .error (.invalidInput why)
  /-- They would refuse just the lengths that the table does not have; all but AES would look at the
  tag first. -/
  tables : ∀ (bytes : Bytes) (tagSize : Nat),
    (∃ why, kind.dispatch bytes tagSize = .error (.invalidInput why)) ↔
      bytes.length ∉ kind.keySizes ∧ (kind = .aesGcm ∨ tagSize = 16)

/--
**Tags and keys have the sizes there are.** For each cipher, what the parameters
accept, what the tables of keys hold and what the engines take fit together. The
answer to a request for a cipher or for keys depends on the size alone, and is the
same on every route; no key that is handed out is too long or too short for its
engine.
-/
theorem tag_and_key_sizes_agree (kind : Kind) : SizesAgree kind where
  imported := imports kind
  generated p _ changes s heeds := generator_changed kind p s heeds changes
  usual _ _ s hp := generator_construct kind s (not_ill_of_check hp)
  reports _ _ _ _ _ _ _ _ hconfig hmade shape := by
    obtain ⟨len, rfl⟩ := generator_eq_ok hmade
    exact Session.reports_of_config hconfig rfl shape
  ciphers key h := ⟨h.kind_eq, cipherSizes key⟩
  engines key h tagSize := by
    have hkind := h.kind_eq
    subst hkind
    refine ⟨rfl, fun why hbad => ?_⟩
    exact ((key.kind.dispatch_invalid_iff key.bytes tagSize).mp ⟨why, hbad⟩).1 key.length_mem
  tables := kind.dispatch_invalid_iff

end PooledCrypto.Provider
