import SealedStream.Writer.Basic

/-!
Finishing a record file: its last sections, its move into place, and its signatures.
-/

namespace SealedStream.Writer

variable {σ ω : Type} [Storage σ ω]

/-- Has one part of a record file signed. -/
def signPart (w : Writer ω) (path : Path) (part : SignedPart) (hash : Hash) :
    Act σ (Option SignedHash) := do
  match ← Act.sign hash.bytes with
  | .ok signature => return some ⟨hash, ← Act.signatureScheme, signature⟩
  | .error e =>
    Act.report (.signFailed path part e)
    Act.cancel w.token
    return none

/-- Puts the signature file of a record file in place. -/
def saveSignatures (w : Writer ω) (path : Path) (file metadata : SignedHash) :
    Act σ (Option Path) := do
  let target := Naming.signaturePath path w.config.kind.signatureExtension
  let signatures : SignatureFile := ⟨w.config.kind.signatureHeader, file, metadata⟩
  let stored ← Act.onStorage (signatures.store target)
  match stored.stuck with
  | some f => Act.report (.signaturePartStuck (Naming.partPath target) f)
  | none => pure ()
  match stored.result with
  | .ok () =>
    Act.report (.signatureSaved target)
    return some target
  | .error f =>
    Act.report (.signatureFailed target f)
    Act.cancel w.token
    return none

/-- Signs a record file: all its bytes first, then its metadata hash. Gives the path of the
signature file. -/
def signFile (w : Writer ω) (path : Path) (metadata : Hash) : Act σ (Option Path) := do
  match ← Act.digest path with
  | .error f =>
    Act.report (.digestFailed path f)
    Act.cancel w.token
    return none
  | .ok entire =>
    match ← w.signPart path .entireFile entire with
    | none => return none
    | some file =>
      match ← w.signPart path .metadata metadata with
      | none => return none
      | some metadata => w.saveSignatures path file metadata

/-- What stands behind the items. -/
def closing (file : OpenFile ω) (finish : Hash) : List Section :=
  [.finish finish, .block file.window.alignment.number]

/-- Writes what stands behind the items and closes the output. -/
def complete (w : Writer ω) (file : OpenFile ω) (finish : Hash) : Act σ Bool := do
  match ← Act.writeSections (closing file finish) file.output with
  | (.error f, output) =>
    Act.report (.endFailed file.path f)
    Act.cancel w.token
    Act.discard output file.part
    return false
  | (.ok (), output) =>
    Act.report (.blockWritten file.window.alignment.number)
    match ← Act.close output with
    | .ok () => return true
    | .error f =>
      Act.report (.closeFailed file.path f)
      Act.cancel w.token
      Act.removePart file.part
      return false

/-- Moves a completed file into place, unless something stands there. -/
def publish (w : Writer ω) (file : OpenFile ω) : Act σ Bool := do
  if ← Act.present file.path then
    Act.report (.alreadyExists file.path)
    Act.removePart file.part
    return false
  else
    match ← Act.rename file.part file.path with
    | .ok () =>
      Act.report (.fileWritten file.path file.items file.first)
      return true
    | .error f =>
      Act.report (.moveFailed file.path f)
      Act.cancel w.token
      Act.removePart file.part
      return false

/-- The metadata hash of a file that ends at a running hash. -/
def metadataHash (file : OpenFile ω) (finish : Hash) : Hash :=
  Hash.ofHasher (file.metadata.update ((closing file finish).flatMap Section.metadata))

/-- Finishes a file that ends at a running hash. -/
def finishAt (w : Writer ω) (file : OpenFile ω) (finish : Hash) : Act σ (Option WrittenFile) := do
  if ← w.complete file finish then
    if ← w.publish file then
      let metadata := metadataHash file finish
      let signature ← w.signFile file.path metadata
      return some {
        record := file.path
        signature := signature
        start := file.start
        finish := finish
        metadata := metadata
        block := file.window.alignment.number
        items := file.items }
    else return none
  else return none

/-- Finishes a file once the running hash after its last item is known. -/
def finishFile (w : Writer ω) (file : OpenFile ω) : Act σ (Option WrittenFile) := do
  match ← Act.await file.lastLink w.token with
  | .error e =>
    Act.report (.noEndHash file.path e)
    Act.cancel w.token
    Act.discard file.output file.part
    return none
  | .ok finish =>
    Act.report (.endHash finish)
    w.finishAt file finish

/-- Finishes the open file, which is no longer open then. -/
def finish (w : Writer ω) (file : OpenFile ω) : Act σ (Writer ω) := do
  let written ← w.finishFile file
  return { w with phase := .idle, lastWritten := written.or w.lastWritten }

end SealedStream.Writer
