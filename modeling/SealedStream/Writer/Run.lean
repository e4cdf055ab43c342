import SealedStream.Writer.Operations

/-!
Runs of the stream writer: operations one after the other, and others who act on links and tokens
between and during them.
-/

namespace SealedStream

/-- What a caller asks of a writer. -/
inductive Operation where
  | add (o : StreamObject)
  | closeAndSign
  | clear
  | close
  | setRunningHash (h : Hash)
  | clearRunningHash
  | setCompleteWindow (on : Bool)
  | resetCancellation
  deriving DecidableEq

/-- What the caller is told. -/
inductive Reply where
  | done
  | flag (b : Bool)
  | refused (e : WriterError)
  deriving DecidableEq

namespace Surroundings

variable {σ : Type}

/-- Someone else acts on a link or a token. -/
def intervene (s : Surroundings σ) (i : Intervention) : Surroundings σ :=
  { s with pipeline := s.pipeline.perform i }

/-- Everything that others were about to do happens. -/
def settle (s : Surroundings σ) : Surroundings σ :=
  { s.coming.foldl intervene s with coming := [] }

end Surroundings

namespace Writer

variable {σ ω : Type} [Storage σ ω]

/-- Does one operation. A refused one leaves the writer as it is. -/
def apply (w : Writer ω) : Operation → Act σ (Reply × Writer ω)
  | .add o => do
    match ← w.add o with
    | .ok w => return (.done, w)
    | .error e => return (.refused e, w)
  | .closeAndSign => do return (.done, ← w.closeAndSign)
  | .clear => do return (.done, ← w.clear)
  | .close => do return (.done, ← w.close)
  | .setRunningHash h => do return (.done, ← w.setRunningHash h)
  | .clearRunningHash => do return (.done, ← w.clearRunningHash)
  | .setCompleteWindow on => return (.done, w.setCompleteWindow on)
  | .resetCancellation => do
    let (b, w) ← w.resetCancellation
    return (.flag b, w)

/-- Does operations one after the other. -/
def run (w : Writer ω) : List Operation → Act σ (Writer ω)
  | [] => return w
  | op :: rest => do
    let (_, w) ← w.apply op
    w.run rest

end Writer

end SealedStream
