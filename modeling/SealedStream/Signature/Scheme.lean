import SealedStream.Bytes

/-!
Signature schemes, and what signs for a stream.
-/

namespace SealedStream

inductive Scheme where
  /-- RSA over SHA-384. -/
  | rsaSha384
  /-- Ed25519 over the bare bytes of a digest. -/
  | ed25519
  deriving DecidableEq, Repr

namespace Scheme

/-- The number that stands for the scheme in a file. -/
def id : Scheme → Int32
  | .rsaSha384 => 1
  | .ed25519 => 2

def ofId? (id : Int32) : Option Scheme :=
  if id = 1 then some .rsaSha384 else if id = 2 then some .ed25519 else none

def name : Scheme → String
  | .rsaSha384 => "Sha384WithRsa"
  | .ed25519 => "Ed25519"

end Scheme

/-- Why there is no signature, or none that holds. -/
inductive SignerError where
  | invalidSignature
  | invalidKey
  | failed (reason : String)
  deriving DecidableEq, Repr

def SignerError.message : SignerError → String
  | .invalidSignature => "invalid signature"
  | .invalidKey => "invalid key"
  | .failed reason => s!"signing failed: {reason}"

/-- A signer's answers; it may answer differently at each call. -/
structure Signer where
  scheme : Scheme
  sign : (call : Nat) → (message : Bytes) → Except SignerError Bytes

/-- The signer that fails at some of its calls, and otherwise answers as before. -/
def Signer.failingAt (s : Signer) (fails : Nat → Bool) (reason : String) : Signer :=
  { s with
    sign := fun call message =>
      if fails call then .error (.failed reason) else s.sign call message }

end SealedStream
