import PooledCrypto.Proofs.KeyedContexts
import PooledCrypto.Proofs.PublicPoints
import PooledCrypto.Provider.Agreement

/-!
# Both sides derive one secret

The holder of `a` multiplies the point of `b` by `a`, the holder of `b` the point of `a` by `b`, and
both come to the multiple of the base point by `a * b` (`multiply_point`). It is never infinity, and
the secret is its first coordinate.

A peer is known by the raw form of its key alone. `Peer.Shows` says which point that form is read as.
Whoever carries the form, and in whichever encoding, the secret depends on the point
(`exchange_eq_of_point`).
-/

namespace PooledCrypto.Curve.P256

variable {key other : PrivateKey} {pub pub' : PublicKey}

/-- A multiple of somebody's public point is a multiple of the base point. -/
theorem multiply_point (hpub : other.publicKey? = some pub) (key : PrivateKey) :
    Point.multiply key.scalar pub.point = pointOf ((other.scalar * key.scalar) • generator) := by
  rw [← pub.pointOf_element, multiply_pointOf (Nat.lt_trans key.scalar_lt (by decide)),
    PrivateKey.publicKey?_iff_element.mp hpub, ← mul_nsmul]

/-- The order in which the two factors come in makes no difference. -/
theorem multiply_point_comm (hpub : key.publicKey? = some pub)
    (hother : other.publicKey? = some pub') :
    Point.multiply key.scalar pub'.point = Point.multiply other.scalar pub.point := by
  rw [multiply_point hother, multiply_point hpub, Nat.mul_comm]

/-- The point that two share is not infinity. -/
theorem exists_shared (hpub : other.publicKey? = some pub) (key : PrivateKey) :
    ∃ x y, Point.multiply key.scalar pub.point = .affine x y := by
  have hne : (other.scalar * key.scalar) • generator ≠ 0 := by
    rw [Ne, ← addOrderOf_dvd_iff_nsmul_eq_zero, addOrderOf_generator]
    intro hdvd
    rcases prime_groupOrder.dvd_mul.mp hdvd with h | h
    · exact Nat.not_dvd_of_pos_of_lt other.scalar_pos other.scalar_lt h
    · exact Nat.not_dvd_of_pos_of_lt key.scalar_pos key.scalar_lt h
  obtain ⟨x, y, h, heq⟩ := exists_affine hne
  exact ⟨x, y, by rw [multiply_point hpub, heq, pointOf_some]⟩

theorem PrivateKey.agree_of_affine {x y : Coordinate}
    (h : Point.multiply key.scalar pub.point = .affine x y) :
    key.agree pub = PublicKey.written x := by
  rw [PrivateKey.agree, h]
  rfl

theorem PublicKey.length_written (x : Coordinate) : (PublicKey.written x).length = scalarSize :=
  Bytes.length_ofNatBE scalarSize x.val

end PooledCrypto.Curve.P256

namespace PooledCrypto.Provider

open Curve (P256.PublicKey P256.PrivateKey P256.Point P256.scalarSize)
open Session (Reports)

/-- The peer's raw form is read as the public key. -/
def Peer.Shows (peer : Peer) (pub : P256.PublicKey) : Prop :=
  ∃ raw, peer.encode = .ok raw ∧ P256.PublicKey.ofBytes raw = .ok pub

/-- The peer has the public point of the private key, in whatever encoding. -/
def Peer.Of (peer : Peer) (key : P256.PrivateKey) : Prop :=
  ∃ pub, peer.Shows pub ∧ pub.point = P256.Point.multiply key.scalar .base

/-- The agreement was made with the private key, in whatever state. -/
def AgreementFor (key : P256.PrivateKey) (o : Operation Agreement) : Prop :=
  ∃ route changes st st', (Agreement.factory key).make route changes st = (.ok o, st')

/-- The bytes are the first coordinate of the point. -/
def IsFirst (p : P256.Point) (bytes : Bytes) : Prop :=
  ∃ x y, p = .affine x y ∧ bytes = P256.PublicKey.written x

/-- How agreements with private keys come out. -/
structure SharesSecrets : Prop where
  /-- Every private key has a public point, which is read from these encodings and no others. -/
  points : ∀ key : P256.PrivateKey, ∃ pub : P256.PublicKey,
    pub.point = P256.Point.multiply key.scalar .base
      ∧ ∀ bytes, P256.PublicKey.ofBytes bytes = .ok pub ↔ pub.Encodes bytes
  /-- A public point is shown by the keys of either use and by foreign keys in any encoding. -/
  carriers : ∀ pub : P256.PublicKey, (Peer.key (.ecdhPublic pub)).Shows pub
    ∧ (Peer.key (.ecdsaPublic pub)).Shows pub
    ∧ ∀ bytes, (Peer.raw bytes).Shows pub ↔ P256.PublicKey.ofBytes bytes = .ok pub
  /-- Agreements can be made with every private key, and each configuration gives an executor that
  reports in either shape of a call. -/
  offered : ∀ (key : P256.PrivateKey) (st : State), ∃ o, AgreementFor key o
    ∧ o.executor = st.executor ∧ ∀ around config, State.ofConfig around config = .ok st →
      ∀ shape, Reports o shape
  /-- Whoever has the private key of the one and the public point of the other comes to the same
  secret as the other side. It is the first coordinate of the multiple of the other's point. -/
  both : ∀ (a b : P256.PrivateKey) (o o' : Operation Agreement) (A B : Peer) (shape shape' : Shape)
    (st st' : State), AgreementFor a o → AgreementFor b o' → Reports o shape →
    Reports o' shape' → A.Of a → B.Of b →
      ∃ secret, (Agreement.exchange o shape B st).1 = .ok secret
        ∧ (Agreement.exchange o' shape' A st').1 = .ok secret
        ∧ secret.length = o.core.secretSize ∧ secret.length = o'.core.secretSize
        ∧ secret.length = 32
        ∧ IsFirst (.multiply a.scalar (.multiply b.scalar .base)) secret
  /-- Only the point that a peer shows matters, and not how it is encoded or who carries it. -/
  point_only : ∀ (o : Operation Agreement) (shape : Shape) (st : State) (B B' : Peer)
    (pub pub' : P256.PublicKey), B.Shows pub → B'.Shows pub' → pub.point = pub'.point →
      Agreement.exchange o shape B st = Agreement.exchange o shape B' st
  /-- The error of a peer that cannot be exported is passed on, whatever the executor does. -/
  refused : ∀ (o : Operation Agreement) (shape : Shape) (st : State) (peer : Peer) (e : Error),
    peer.encode = .error e → Agreement.exchange o shape peer st = (.error (.error e), st)

variable {key : P256.PrivateKey} {pub : P256.PublicKey} {o : Operation Agreement} {peer : Peer}
  {shape : Shape} {st st' : State}

/-! ## Who shows a point -/

theorem shows_key (pub : P256.PublicKey) :
    (Peer.key (.ecdhPublic pub)).Shows pub ∧ (Peer.key (.ecdsaPublic pub)).Shows pub := by
  have hread : P256.PublicKey.ofBytes pub.toBytes = .ok pub :=
    P256.PublicKey.ofBytes_of_encodes .full
  exact ⟨⟨_, rfl, hread⟩, ⟨_, rfl, hread⟩⟩

theorem shows_raw {bytes : Bytes} :
    (Peer.raw bytes).Shows pub ↔ P256.PublicKey.ofBytes bytes = .ok pub := by
  constructor
  · rintro ⟨raw, hraw, hread⟩
    obtain rfl := Except.ok.inj hraw
    exact hread
  · intro hread
    exact ⟨bytes, rfl, hread⟩

theorem Peer.Of.publicKey? (h : peer.Of key) :
    ∃ pub, peer.Shows pub ∧ key.publicKey? = some pub := by
  obtain ⟨pub, hshows, hpoint⟩ := h
  exact ⟨pub, hshows, P256.PrivateKey.publicKey?_eq_some_iff.mpr hpoint⟩

/-! ## Agreements -/

theorem AgreementFor.core_eq (h : AgreementFor key o) : o.core = ⟨key⟩ := by
  obtain ⟨route, changes, st, st', hmake⟩ := h
  obtain ⟨p, hp⟩ := Factory.make_eq_ok hmake
  obtain rfl := Except.ok.inj (congrArg Prod.fst hp)
  rfl

/-- An exchange exports the peer's key first. -/
theorem exchange_of_encode {raw : Bytes} (h : peer.encode = .ok raw) :
    Agreement.exchange o shape peer st = o.call shape (Action.ofExcept (o.core.derive raw)) st := by
  unfold Agreement.exchange
  rw [h]
  rfl

theorem exchange_of_refusal {e : Error} (h : peer.encode = .error e) :
    Agreement.exchange o shape peer st = (.error (.error e), st) := by
  unfold Agreement.exchange
  rw [h]
  rfl

theorem derive_of_read {raw : Bytes} (a : Agreement)
    (h : P256.PublicKey.ofBytes raw = .ok pub) : a.derive raw = .ok (a.key.agree pub) := by
  unfold Agreement.derive
  rw [h]
  rfl

theorem exchange_of_shows (h : peer.Shows pub) :
    Agreement.exchange o shape peer st
      = o.call shape (Action.ofExcept (.ok (o.core.key.agree pub))) st := by
  obtain ⟨raw, hraw, hread⟩ := h
  rw [exchange_of_encode hraw, derive_of_read o.core hread]

/-- The secret depends on the peer's point. -/
theorem exchange_eq_of_point {B B' : Peer} {pub' : P256.PublicKey} (h : B.Shows pub)
    (h' : B'.Shows pub') (hpoint : pub.point = pub'.point) :
    Agreement.exchange o shape B st = Agreement.exchange o shape B' st := by
  obtain rfl := P256.PublicKey.point_injective hpoint
  rw [exchange_of_shows h, exchange_of_shows h']

/-- Whoever waits for an exchange is given the secret. -/
theorem fst_exchange (hmade : AgreementFor key o) (hr : Reports o shape) (h : peer.Shows pub) :
    (Agreement.exchange o shape peer st).1 = .ok (key.agree pub) := by
  have hkey : o.core.key = key := congrArg Agreement.key hmade.core_eq
  rw [exchange_of_shows h, hkey]
  exact Session.fst_call_of_reports hr rfl

/-- **Both sides of a key agreement derive the same secret.**

Take any two private keys, and for each a peer with its public point: a key for agreements, a key for
signatures, or a foreign key, in whichever encoding. Each side multiplies the other's point, in the
caller's place or on the executor, in any state of its provider. -/
theorem secrets_shared : SharesSecrets where
  points key := by
    obtain ⟨pub, hpub⟩ := key.exists_publicKey
    exact ⟨pub, P256.PrivateKey.publicKey?_eq_some_iff.mp hpub, fun bytes =>
      P256.PrivateKey.ofBytes_eq_ok_iff hpub⟩
  carriers pub := ⟨(shows_key pub).1, (shows_key pub).2, fun _ => shows_raw⟩
  offered key st :=
    ⟨⟨⟨key⟩, st.executor⟩, ⟨.create, id, st, st, rfl⟩, rfl, fun _ _ hconfig shape =>
      Session.reports_of_config hconfig rfl shape⟩
  both a b o o' A B shape shape' st st' ho ho' hr hr' hA hB := by
    obtain ⟨pub, hshows, hpub⟩ := hA.publicKey?
    obtain ⟨pub', hshows', hpub'⟩ := hB.publicKey?
    obtain ⟨x, y, hshared⟩ := Curve.P256.exists_shared hpub' a
    -- each side multiplies the other's point, and the order of the factors does not matter
    have hother : P256.Point.multiply b.scalar pub.point = .affine x y := by
      rw [Curve.P256.multiply_point_comm hpub' hpub, hshared]
    have hlength := P256.PublicKey.length_written x
    refine ⟨P256.PublicKey.written x, ?_, ?_, hlength, hlength, hlength, x, y, ?_, rfl⟩
    · rw [fst_exchange ho hr hshows', P256.PrivateKey.agree_of_affine hshared]
    · rw [fst_exchange ho' hr' hshows, P256.PrivateKey.agree_of_affine hother]
    · rw [← P256.PrivateKey.publicKey?_eq_some_iff.mp hpub', hshared]
  point_only o shape st B B' pub pub' hB hB' hpoint := exchange_eq_of_point hB hB' hpoint
  refused o shape st peer e he := exchange_of_refusal he

end PooledCrypto.Provider
