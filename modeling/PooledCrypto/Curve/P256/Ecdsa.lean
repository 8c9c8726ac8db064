import PooledCrypto.Curve.P256.Signature
import PooledCrypto.Mac.Hmac

/-!
# ECDSA on P-256

What is signed is the digest of a message, of which the first 32 bytes count. The secret number that
a signature needs is derived from the private key and those bytes, so that signing is a function of
key and digest alone. Both values of the second half of a signature are accepted.
-/

namespace PooledCrypto.Curve.P256

/-- The part of a digest that counts. -/
def prehash (digest : Bytes) : Bytes := digest.take scalarSize

/-- The residue of bytes. -/
def residueOf (bytes : Bytes) : Residue := residue (Bytes.toNatBE bytes)

namespace Nonce

/-- The state that secret numbers are drawn from. -/
structure Generator where
  key : Bytes
  value : Bytes

/-- The code that the generator works with. -/
def code (key message : Bytes) : Bytes := Mac.hmac Digest.Sha2.sha256 key message

/-- Works data into the generator. -/
def Generator.stir (g : Generator) (data : Bytes) : Generator :=
  let key := code g.key (g.value ++ data)
  ⟨key, code key g.value⟩

/-- The generator for a private key and a digest. -/
def Generator.start (key : PrivateKey) (digest : Bytes) : Generator :=
  let seed := key.toBytes ++ prehash digest
  let g : Generator := ⟨Bytes.zeros 32, List.replicate 32 1⟩
  (g.stir (0 :: seed)).stir (1 :: seed)

/-- The number of a generator, if it is in range. -/
def Generator.number? (g : Generator) : Option PrivateKey :=
  PrivateKey.ofScalar? (Bytes.toNatBE (code g.key g.value))

/-- The generator after a number that was out of range. -/
def Generator.retry (g : Generator) : Generator :=
  Generator.stir { g with value := code g.key g.value } [0]

/-- The first number in range of so many. -/
def Generator.search (g : Generator) : Nat → Option PrivateKey
  | 0 => none
  | n + 1 =>
    match g.number? with
    | some k => some k
    | none => g.retry.search n

/-- How many generators there are at most: both parts have 32 bytes. -/
def generators : Nat := 1 <<< 512

/-- Draws numbers until one is in range, however often that takes. It takes no more tries than there
are generators, as a search that goes on longer comes back to where it was before. -/
def Generator.draw (g : Generator) : Option PrivateKey := g.search generators

/-- The secret number for a private key and a digest. -/
def derive? (key : PrivateKey) (digest : Bytes) : Option PrivateKey :=
  (Generator.start key digest).draw

end Nonce

/-- The signature of a digest under a key with a given secret number. -/
def signWith? (key nonce : PrivateKey) (digest : Bytes) : Option Signature :=
  let r := residue (Point.multiply nonce.scalar .base).first.val
  let sum := residueOf (prehash digest) + r * residue key.scalar
  let s := Modular.inverse (residue nonce.scalar) * sum
  Signature.ofPair? r.val s.val

/-- The signature of a digest under a key, if the secret number leads to one. -/
def sign? (key : PrivateKey) (digest : Bytes) : Option Signature :=
  (Nonce.derive? key digest).bind fun nonce => signWith? key nonce digest

/-- Signs a digest. -/
def sign (key : PrivateKey) (digest : Bytes) : Except Error Signature :=
  (sign? key digest).elim (.error (.crypto (some .signing))) .ok

/-- Whether a signature belongs to a digest under a key. -/
def verify (key : PublicKey) (digest : Bytes) (sig : Signature) : Bool :=
  let w := Modular.inverse (residue sig.s)
  let u₁ := residueOf (prehash digest) * w
  let u₂ := residue sig.r * w
  let sum := (Point.multiply u₁.val .base).add (Point.multiply u₂.val key.point)
  residue sum.first.val == residue sig.r

end PooledCrypto.Curve.P256
