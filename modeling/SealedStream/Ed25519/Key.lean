import SealedStream.Ed25519.Curve
import SealedStream.Hex
import SealedStream.Sha2.Digest
import SealedStream.Signature.Scheme

/-!
Ed25519 keys: signing, and verification without cofactor.

A signature is a point `R` and a number `s` below the order. It holds when the point
`s B - k A` is written as the bytes of `R`; small-order keys are not refused.
-/

namespace SealedStream.Ed25519

/-- The number that a SHA-512 digest stands for, modulo the order. -/
def challenge (bs : Bytes) : Nat := Bytes.toNatLE (Sha2.sha512 bs) % order

structure PublicKey where
  bytes : Bytes
  point : Point
  deriving DecidableEq, Repr

namespace PublicKey

/-- The key of 32 bytes that stand for a point. -/
def ofBytes (bs : Bytes) : Except SignerError PublicKey :=
  if bs.length ≠ 32 then .error .invalidKey
  else match Point.decode bs with
    | some p => .ok ⟨bs, p⟩
    | none => .error .invalidKey

def verify (key : PublicKey) (message signature : Bytes) : Except SignerError Unit :=
  let r := signature.take 32
  let s := Bytes.toNatLE (signature.drop 32)
  if signature.length ≠ 64 ∨ order ≤ s then .error .invalidSignature
  else
    let k := challenge (r ++ key.bytes ++ message)
    let point := Point.add (Point.scale s .base) (Point.scale k key.point.neg)
    if point.encode = r then .ok () else .error .invalidSignature

/-- The form used in logs. -/
def label (key : PublicKey) : String := s!"VerifyingKey({Hex.encode key.bytes})"

end PublicKey

/-- A secret of 32 bytes. -/
structure SecretKey where
  seed : Bytes
  deriving DecidableEq

namespace SecretKey

def expanded (key : SecretKey) : Bytes := Sha2.sha512 key.seed

/-- The secret multiplier: the low half of the digest of the seed, with the lowest three bits and
the top bit cleared and the bit below the top set. -/
def scalar (key : SecretKey) : Nat :=
  let n := Bytes.toNatLE (key.expanded.take 32) % Nat.pow 2 254
  Nat.pow 2 254 + (n - n % 8)

/-- What the numbers used once are drawn from. -/
def nonceSeed (key : SecretKey) : Bytes := key.expanded.drop 32

def publicKey (key : SecretKey) : PublicKey :=
  let p := Point.scale key.scalar .base
  ⟨p.encode, p⟩

def sign (key : SecretKey) (message : Bytes) : Bytes :=
  let nonce := challenge (key.nonceSeed ++ message)
  let r := (Point.scale nonce .base).encode
  let k := challenge (r ++ key.publicKey.bytes ++ message)
  r ++ Bytes.ofNatLE 32 ((nonce + k * key.scalar) % order)

/-- Signs with this key at every call. -/
def signer (key : SecretKey) : Signer := ⟨.ed25519, fun _ message => .ok (key.sign message)⟩

/-- The form used in logs. -/
def label (_ : SecretKey) : String := "SigningKey(<redacted>)"

end SecretKey

end SealedStream.Ed25519
