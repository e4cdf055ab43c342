import SealedStream.Ed25519.Key
import SealedStream.Record.Store

/-!
The checks that an auditor runs on stored files.

A pair of record file and signature file is honest when both signed digests belong to the record
file, its items lead from its start hash to its end hash, and the key verifies both signatures.
-/

namespace SealedStream

inductive AuditError where
  | file (e : FileError)
  | hashMismatch (part : SignedPart)
  | chain (e : ChainError)
  | unsupportedScheme (scheme : Scheme)
  | badSignature (part : SignedPart) (e : SignerError)
  deriving DecidableEq

def AuditError.message : AuditError → String
  | .file e => e.message
  | .hashMismatch part => s!"{part.name} hash in signature file does not match the record file"
  | .chain e => e.message
  | .unsupportedScheme scheme =>
    s!"unsupported signature type {scheme.name} for key verification"
  | .badSignature part e => s!"{part.name} signature rejected: {e.message}"

namespace Audit

/-- Checks one signature; keys only verify Ed25519. -/
def checkSignature (key : Ed25519.PublicKey) (part : SignedPart) (s : SignedHash) :
    Except AuditError Unit :=
  if s.scheme ≠ .ed25519 then .error (.unsupportedScheme s.scheme)
  else (key.verify s.hash.bytes s.signature).mapError (.badSignature part)

/-- Checks a record file, whose bytes have the digest `entire`, against its signatures. -/
def checkPair (key : Ed25519.PublicKey) (entire : Hash) (record : RecordFile)
    (signatures : SignatureFile) : Except AuditError Unit := do
  if signatures.file.hash ≠ entire then .error (.hashMismatch .entireFile)
  if signatures.metadata.hash ≠ record.metadataHash then .error (.hashMismatch .metadata)
  record.verifyChain.mapError .chain
  checkSignature key .entireFile signatures.file
  checkSignature key .metadata signatures.metadata

/-- Reads a record file and its signature file and checks them against each other. -/
def verifyFiles {σ ω : Type} [Storage σ ω] (record signatures : Path) (headerLength : Nat)
    (key : Ed25519.PublicKey) (s : σ) : Except AuditError (RecordFile × SignatureFile) × σ :=
  match RecordFile.read record s with
  | (.error e, s) => (.error (.file e), s)
  | (.ok r, s) =>
    match SignatureFile.read headerLength signatures s with
    | (.error e, s) => (.error (.file e), s)
    | (.ok g, s) =>
      match Storage.digest record s with
      | (.error f, s) => (.error (.file (.io f)), s)
      | (.ok entire, s) => ((checkPair key entire r g).map fun _ => (r, g), s)

/-- Every file's items lead from its start to its end. -/
def verifyEach : List RecordFile → Except ChainError Unit
  | [] => .ok ()
  | f :: rest =>
    match f.verifyChain with
    | .ok () => verifyEach rest
    | .error e => .error e

/-- Checks every file by itself, and then that each starts where the one before it ended. -/
def verifyRecords (files : List RecordFile) : Except ChainError Unit :=
  match verifyEach files with
  | .ok () => RunningHash.verifyContinuity (files.map RecordFile.segment)
  | .error e => .error e

/-- The running hash after the last file. -/
def tip (files : List RecordFile) : Option Hash := files.getLast?.map (·.finish)

end Audit

end SealedStream
