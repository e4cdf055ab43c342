import SealedStream.Naming
import SealedStream.Signature.File
import SealedStream.Storage.Basic

/-!
Putting a signature file into a storage, whole or not at all.
-/

namespace SealedStream.SignatureFile

variable {σ ω : Type} [Storage σ ω]

/-- How storing went, and what kept a leftover from being removed. -/
structure Stored where
  result : Except Failure Unit
  stuck : Option Failure

/-- Writes an image to a new file at `part`, then moves it to `p`. An output that fails is left
unclosed. -/
def place (image : Bytes) (part p : Path) (s : σ) : Except Failure Unit × σ :=
  match Storage.create part s with
  | (.error f, s) => (.error f, s)
  | (.ok o, s) =>
    match Sink.writeAll image (o, s) with
    | (.error f, (_, s)) => (.error f, s)
    | (.ok (), (o, s)) =>
      match Storage.close o s with
      | (.error f, s) => (.error f, s)
      | (.ok (), s) => Storage.rename part p s

/-- Stores a file at `p` by way of its part path, where nothing is left when that fails. -/
def store (f : SignatureFile) (p : Path) (s : σ) : Stored × σ :=
  match f.encode with
  | .error e => (⟨.error e, none⟩, s)
  | .ok image =>
    let part := Naming.partPath p
    match place image part p s with
    | (.ok (), s) => (⟨.ok (), none⟩, s)
    | (.error e, s) =>
      if Storage.present part s then
        match Storage.remove part s with
        | (.ok (), s) => (⟨.error e, none⟩, s)
        | (.error stuck, s) => (⟨.error e, some stuck⟩, s)
      else (⟨.error e, none⟩, s)

end SealedStream.SignatureFile
