import SealedStream.Sha2.Hasher
import SealedStream.Hex

/-!
The digests of a stream: 48 bytes, ordered byte by byte.

Running hashes, entire-file hashes and metadata hashes are all of this type.
-/

namespace SealedStream

/-- The digest algorithms that a file may name. -/
inductive DigestKind where
  | sha384
  deriving DecidableEq, Repr

/-- Why a value cannot be taken. -/
inductive ValueError where
  | badHex (flaw : Hex.Flaw)
  | badLength (expected actual : Nat)
  | unknownDigest (id : Int32)
  | timeOutOfRange (seconds : Int64) (nanos : UInt32)
  deriving DecidableEq, Repr

/-- The 32 bits of a number as eight hexadecimal digits. -/
def hex32 (x : Int32) : String := "0x" ++ Hex.encode (Bytes.ofInt32 x)

def ValueError.message : ValueError → String
  | .badHex flaw => s!"invalid hex string: {flaw.message}"
  | .badLength expected actual => s!"invalid byte length: expected {expected}, got {actual}"
  | .unknownDigest id => s!"unknown digest type id: {hex32 id}"
  | .timeOutOfRange seconds nanos => s!"timestamp out of range: {seconds}s {nanos}ns"

namespace DigestKind

/-- The number that stands for the algorithm in a file. -/
def id : DigestKind → Int32
  | .sha384 => 0x58ff811b

def length : DigestKind → Nat
  | .sha384 => 48

def ofId (id : Int32) : Except ValueError DigestKind :=
  if id = DigestKind.sha384.id then .ok .sha384 else .error (.unknownDigest id)

def name : DigestKind → String
  | .sha384 => "Sha384"

end DigestKind

/-- A digest of 48 bytes. -/
structure Hash where
  bytes : Bytes
  size : bytes.length = 48
  deriving DecidableEq

namespace Hash

@[ext] theorem ext {a b : Hash} (h : a.bytes = b.bytes) : a = b := by
  cases a; cases b; cases h; rfl

/-- The digest of a byte string. -/
def digest (data : Bytes) : Hash := ⟨Sha2.sha384 data, Sha2.length_sha384 data⟩

/-- The digest of what a hasher has been fed. -/
def ofHasher (s : Sha2.Hasher) : Hash := ⟨s.digest384, by simp [Sha2.Hasher.digest384]⟩

def ofBytes (bs : Bytes) : Except ValueError Hash :=
  if h : bs.length = 48 then .ok ⟨bs, h⟩ else .error (.badLength 48 bs.length)

/-- The digest whose bytes are all zero. -/
def zero : Hash := ⟨List.replicate 48 0, by simp⟩

def isZero (h : Hash) : Bool := h = zero

def toHex (h : Hash) : String := Hex.encode h.bytes

/-- The first eight hexadecimal digits. -/
def short (h : Hash) : String := Hex.encode (h.bytes.take 4)

def ofHex (s : String) : Except ValueError Hash :=
  match Hex.decode s with
  | .error flaw => .error (.badHex flaw)
  | .ok bs => ofBytes bs

/-- The form used in logs. -/
def label (h : Hash) : String := s!"Hash({h.short})"

/-- The lexicographic order of the bytes. -/
instance : Ord Hash := ⟨fun a b => compare a.bytes b.bytes⟩

theorem ofHasher_update (data : Bytes) :
    ofHasher (Sha2.Hasher.new384.update data) = digest data := by
  apply ext
  simp [ofHasher, digest, Sha2.Hasher.digest384, Sha2.Hasher.new384, Sha2.sha384,
    Sha2.Hasher.finish_update]

end Hash

end SealedStream
