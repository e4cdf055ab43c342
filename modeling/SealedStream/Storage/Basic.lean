import SealedStream.Storage.Path
import SealedStream.Transfer.Sink
import SealedStream.Transfer.Source

/-!
What is asked of the place where files are kept.

A file is made by `create`, written through the output that this gives, and closed. Every
operation may fail, and the storage goes on from whatever it has become then.
-/

namespace SealedStream

class Storage (σ : Type) (ω : outParam Type) where
  /-- Something is at the path. -/
  present : Path → σ → Bool
  /-- Makes a new file, unless something is there. -/
  create : Path → σ → Except Failure ω × σ
  /-- Offers bytes to an output, which may take a part of them. -/
  write : Bytes → ω → σ → Except Failure Nat × ω × σ
  /-- How many more offers to an output may end as interrupted. -/
  interruptions : ω → σ → Nat
  /-- Ends an output; everything it took is in the file then. -/
  close : ω → σ → Except Failure Unit × σ
  /-- Moves a file, onto what is at the target if need be. -/
  rename : (source target : Path) → σ → Except Failure Unit × σ
  /-- Takes a file away. -/
  remove : Path → σ → Except Failure Unit × σ
  /-- Opens a file for reading from its start. -/
  openRead : Path → σ → Except Failure Source × σ

namespace Storage

variable {σ ω : Type} [Storage σ ω]

/-- An output together with its storage takes bytes. -/
instance : Sink (ω × σ) where
  accept bs t :=
    let (r, o, s) := write bs t.1 t.2
    (r, o, s)
  interruptions t := interruptions t.1 t.2

/-- The bytes of a file. -/
def readAll (p : Path) (s : σ) : Except Failure Bytes × σ :=
  let (r, s) := openRead p s
  (r.bind Source.readToEnd, s)

/-- The digest of a file's bytes. -/
def digest (p : Path) (s : σ) : Except Failure Hash × σ :=
  let (r, s) := openRead p s
  (r.bind Source.digest, s)

end Storage

end SealedStream
