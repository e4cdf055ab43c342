import SealedStream.Signature.Scheme
import SealedStream.Wire.Field
import SealedStream.Wire.Reader

/-!
Signature files: header bytes, then the signature over the entire record file and the signature
over its metadata hash.
-/

namespace SealedStream

/-- A digest and the signature over it. -/
structure SignedHash where
  hash : Hash
  scheme : Scheme
  signature : Bytes
  deriving DecidableEq

/-- What is signed of a record file: all its bytes, and its metadata hash. -/
inductive SignedPart where
  | entireFile
  | metadata
  deriving DecidableEq, Repr

def SignedPart.name : SignedPart → String
  | .entireFile => "entire file"
  | .metadata => "metadata"

namespace SignedHash

/-- The check number of a signature of `n` bytes. -/
def checksumOf (n : Nat) : Int32 := 101 - Int32.ofNat n

def checksum (s : SignedHash) : Int32 := checksumOf s.signature.length

/-- The digest, the number of the scheme, then length, check number and bytes of the signature. -/
def fields (s : SignedHash) : List Field :=
  Field.hash s.hash ++
    [Field.int32 s.scheme.id, Field.length s.signature, Field.int32 s.checksum,
      Field.raw s.signature]

open Reader in
def reader : Reader SignedHash := do
  let h ← Reader.hash
  let id ← int32
  match Scheme.ofId? id with
  | none => fail (.unknownScheme id)
  | some scheme =>
    let n ← length
    let checksum ← int32
    if checksum ≠ checksumOf n then fail (.checksumMismatch (checksumOf n) checksum)
    else
      let signature ← take n
      return ⟨h, scheme, signature⟩

end SignedHash

structure SignatureFile where
  header : Bytes
  file : SignedHash
  metadata : SignedHash
  deriving DecidableEq

namespace SignatureFile

/-- The version of the format: the first byte of the header. -/
def version? (f : SignatureFile) : Option UInt8 := f.header.head?

/-- The image of a file. A signature that is too long has none. -/
def encode (f : SignatureFile) : Except Failure Bytes :=
  Field.join (Field.raw f.header :: (f.file.fields ++ f.metadata.fields))

open Reader in
def reader (headerLength : Nat) : Reader SignatureFile := do
  let header ← take headerLength
  let file ← SignedHash.reader
  let metadata ← SignedHash.reader
  return ⟨header, file, metadata⟩

/-- The file of an image whose header has `headerLength` bytes. -/
def decode (headerLength : Nat) (image : Bytes) : Except DecodeError SignatureFile :=
  (reader headerLength).run image

end SignatureFile

end SealedStream
