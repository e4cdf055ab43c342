import SealedStream.Record.File
import SealedStream.Signature.File
import SealedStream.Storage.Basic

/-!
Reading record and signature files from a storage.
-/

namespace SealedStream

/-- Why a stored file cannot be read. -/
inductive FileError where
  | io (f : Failure)
  | decode (e : DecodeError)
  deriving DecidableEq, Repr

def FileError.message : FileError → String
  | .io f => s!"I/O error: {f.message}"
  | .decode e => e.message

/-- Reads a file and decodes its bytes. -/
def readFile {σ ω α : Type} [Storage σ ω] (decode : Bytes → Except DecodeError α) (p : Path)
    (s : σ) : Except FileError α × σ :=
  match Storage.readAll p s with
  | (.ok bytes, s) => ((decode bytes).mapError .decode, s)
  | (.error f, s) => (.error (.io f), s)

variable {σ ω : Type} [Storage σ ω]

def RecordFile.read (p : Path) (s : σ) : Except FileError RecordFile × σ :=
  readFile RecordFile.decode p s

/-- Reads a signature file whose header has `headerLength` bytes. -/
def SignatureFile.read (headerLength : Nat) (p : Path) (s : σ) :
    Except FileError SignatureFile × σ :=
  readFile (SignatureFile.decode headerLength) p s

end SealedStream
