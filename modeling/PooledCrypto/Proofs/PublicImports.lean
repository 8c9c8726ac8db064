import PooledCrypto.Proofs.Reimport
import PooledCrypto.Proofs.SecondCoordinates
import PooledCrypto.Proofs.SharedSecrets

/-!
# One normal form for public keys

Public keys come in at three places: as keys for signatures, as keys for agreements, and as the raw
form of a foreign peer. All three take the same bytes, and take them for the same key (`TakenFor`).
What they take are the encodings of the points of the curve, and all else is refused in the same way
(`Refused`).

A key goes out in full, whatever it came in as. So the bytes that go out are a normal form: they are
taken for the key again, and are its only encoding with both coordinates.
-/

namespace PooledCrypto.Provider

open Curve (P256.PublicKey P256.PrivateKey P256.Coordinate P256.onCurve P256.fieldOrder)
open Session (CurveUse Decoder Reports)

/-- The bytes are taken for the public key wherever one comes in. -/
structure TakenFor (bytes : Bytes) (pub : P256.PublicKey) : Prop where
  /-- By the decoder of either use. -/
  decoded : ∀ (use : CurveUse) (st : State),
    (Decoder.publicKey use .p256).decode .raw bytes st = (.ok (use.publicKey pub), st)
  /-- As the raw form of a foreign peer, by agreements with any key. -/
  agreed : ∀ (key : P256.PrivateKey) (o : Operation Agreement) (shape : Shape) (st : State),
    AgreementFor key o → Reports o shape →
      Agreement.exchange o shape (.raw bytes) st = (.ok (key.agree pub), st)

/-- The bytes are refused as an invalid point wherever a public key comes in. -/
structure Refused (bytes : Bytes) : Prop where
  decoded : ∀ (use : CurveUse) (st : State), (Decoder.publicKey use .p256).decode .raw bytes st
    = (.error (.error (.invalidInput .point)), st)
  agreed : ∀ (key : P256.PrivateKey) (o : Operation Agreement) (shape : Shape) (st : State),
    AgreementFor key o → Reports o shape → Agreement.exchange o shape (.raw bytes) st
      = (.error (.error (.invalidInput .point)), st)

/-- How public keys come in and go out. -/
structure OneNormalForm : Prop where
  /-- Any bytes are taken for one public key everywhere, or are refused everywhere. -/
  together : ∀ bytes, (∃ pub, TakenFor bytes pub) ∨ Refused bytes
  /-- The bytes that are taken for a key are its encodings: in full, by the first coordinate and the
  parity of the second one, and by the first coordinate alone if the second one is the smaller. -/
  encodings : ∀ bytes pub, TakenFor bytes pub ↔ P256.PublicKey.Encodes pub bytes
  /-- A key of either use goes out as the same 65 bytes, a mark and both coordinates of a point on
  the curve. -/
  exported : ∀ pub : P256.PublicKey, (∀ use : CurveUse, (use.publicKey pub).encode .raw
      = .ok pub.toBytes)
    ∧ pub.toBytes.length = 65 ∧ pub.toBytes = 4 :: P256.PublicKey.written pub.x
      ++ P256.PublicKey.written pub.y
    ∧ P256.onCurve pub.x pub.y ∧ pub.x.val < P256.fieldOrder ∧ pub.y.val < P256.fieldOrder
  /-- What goes out comes in again as the same key, and so goes out as the same bytes. -/
  again : ∀ pub : P256.PublicKey, TakenFor pub.toBytes pub
  /-- Bytes with both coordinates go out as they came in. -/
  full : ∀ rest pub, TakenFor (4 :: rest) pub → pub.toBytes = 4 :: rest
  /-- The first coordinate of the point with the parity of the second one is taken for the same
  key. -/
  compressed : ∀ pub : P256.PublicKey,
    TakenFor ((if pub.y.val % 2 = 0 then 2 else 3) :: P256.PublicKey.written pub.x) pub
  /-- Different keys go out as different bytes. -/
  apart : ∀ pub pub' : P256.PublicKey, pub.toBytes = pub'.toBytes → pub = pub'
  /-- Agreements can be made with every private key, and each configuration gives an executor that
  reports in either shape of a call. -/
  offered : ∀ (key : P256.PrivateKey) (st : State), ∃ o, AgreementFor key o
    ∧ ∀ around config, State.ofConfig around config = .ok st → ∀ shape, Reports o shape

variable {bytes : Bytes} {pub : P256.PublicKey} {st : State}

/-! ## Three ways in -/

/-- Whoever waits for work that only passes on a result is given the result. -/
theorem call_ofExcept {κ α : Type} {o : Operation κ} {shape : Shape} (hr : Reports o shape)
    (r : Except Error α) :
    o.call shape (Action.ofExcept r) st = (r.mapError Failure.error, st) := by
  have hpass := Action.ofExcept_apply r st
  rw [Session.call_of_result hr (congrArg Prod.fst hpass), hpass]

/-- A decoder reads the bytes and says for which use the key is. -/
theorem decode_eq (use : CurveUse) (bytes : Bytes) (st : State) :
    (Decoder.publicKey use .p256).decode .raw bytes st
      = (((P256.PublicKey.ofBytes bytes).map use.publicKey).mapError Failure.error, st) := by
  have hread : decodePublicKey .p256 .raw bytes = P256.PublicKey.ofBytes bytes := rfl
  unfold Decoder.decode
  dsimp only
  rw [hread]
  cases P256.PublicKey.ofBytes bytes <;> rfl

/-- An agreement reads the raw form in the same way. -/
theorem exchange_raw {key : P256.PrivateKey} {o : Operation Agreement} {shape : Shape}
    (ho : AgreementFor key o) (hr : Reports o shape) (bytes : Bytes) (st : State) :
    Agreement.exchange o shape (.raw bytes) st
      = (((P256.PublicKey.ofBytes bytes).map key.agree).mapError Failure.error, st) := by
  have hderive : o.core.derive bytes = (P256.PublicKey.ofBytes bytes).map key.agree := by
    rw [ho.core_eq]
    unfold Agreement.derive
    cases P256.PublicKey.ofBytes bytes <;> rfl
  rw [exchange_of_encode rfl, call_ofExcept hr, hderive]

/-- It is all in how the bytes are read. -/
theorem takenFor_iff : TakenFor bytes pub ↔ P256.PublicKey.ofBytes bytes = .ok pub := by
  constructor
  · intro h
    have hdecoded := h.decoded .ecdh (State.start .inPlace (.seeded []) 0)
    rw [decode_eq] at hdecoded
    cases hread : P256.PublicKey.ofBytes bytes with
    | error e =>
        rw [hread] at hdecoded
        exact nomatch congrArg Prod.fst hdecoded
    | ok own =>
        rw [hread] at hdecoded
        have hsame := Except.ok.inj (congrArg Prod.fst hdecoded)
        exact congrArg Except.ok (Key.ecdhPublic.inj hsame)
  · intro hread
    refine ⟨fun use st => ?_, fun key o shape st ho hr => ?_⟩
    · rw [decode_eq, hread]
      rfl
    · rw [exchange_raw ho hr, hread]
      rfl

theorem refused_of_unread (hread : P256.PublicKey.ofBytes bytes = .error (.invalidInput .point)) :
    Refused bytes where
  decoded use st := by
    rw [decode_eq, hread]
    rfl
  agreed key o shape st ho hr := by
    rw [exchange_raw ho hr, hread]
    rfl

theorem takenFor_or_refused (bytes : Bytes) : (∃ pub, TakenFor bytes pub) ∨ Refused bytes := by
  cases hread : P256.PublicKey.ofBytes? bytes with
  | some pub =>
      refine Or.inl ⟨pub, takenFor_iff.mpr ?_⟩
      rw [P256.PublicKey.ofBytes, hread]
  | none =>
      refine Or.inr (refused_of_unread ?_)
      rw [P256.PublicKey.ofBytes, hread]

theorem takenFor_iff_encodes : TakenFor bytes pub ↔ P256.PublicKey.Encodes pub bytes :=
  takenFor_iff.trans P256.PublicKey.ofBytes_eq_ok_iff_encodes

/-- **Public keys have one normal form, whatever they are for.**

Any bytes are taken for the same key, or refused with the same error, by the decoder for signatures,
by the decoder for agreements, and by an agreement with a foreign peer that has them for its raw form.
Whatever a key came in as, it goes out in full. -/
theorem public_keys_normalized : OneNormalForm where
  together := takenFor_or_refused
  encodings _ _ := takenFor_iff_encodes
  exported pub := by
    refine ⟨fun use => ?_, pub.length_toBytes, rfl, pub.on_curve, pub.x.isLt, pub.y.isLt⟩
    cases use <;> rfl
  again _ := takenFor_iff_encodes.mpr .full
  full rest pub h := by
    -- of all encodings only the full one has the mark 4
    cases takenFor_iff_encodes.mp h
    rfl
  compressed pub := by
    refine takenFor_iff_encodes.mpr ?_
    split
    · exact .even (by assumption)
    · exact .odd (by omega)
  apart pub pub' h := by
    have hread := P256.PublicKey.ofBytes?_toBytes pub
    rw [h, P256.PublicKey.ofBytes?_toBytes] at hread
    exact (Option.some.inj hread).symm
  offered key st := ⟨⟨⟨key⟩, st.executor⟩, ⟨.create, id, st, st, rfl⟩, fun _ _ hconfig shape =>
    Session.reports_of_config hconfig rfl shape⟩

/-- The base point is taken from its first coordinate alone, and goes out in full. -/
example : ∃ pub, TakenFor (3 :: Bytes.ofNatBE 32
      0x6b17d1f2e12c4247f8bce6e563a440f277037d812deb33a0f4a13945d898c296) pub
    ∧ pub.toBytes = 4 :: Bytes.ofNatBE 32
        0x6b17d1f2e12c4247f8bce6e563a440f277037d812deb33a0f4a13945d898c296
      ++ Bytes.ofNatBE 32 0x4fe342e2fe1a7f9b8ee7eb4a7c0f9e162bce33576b315ececbb6406837bf51f5 :=
  ⟨⟨_, _, Curve.P256.onCurve_base⟩, takenFor_iff_encodes.mpr (.odd (by decide)), rfl⟩

end PooledCrypto.Provider
