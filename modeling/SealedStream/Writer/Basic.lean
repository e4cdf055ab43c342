import SealedStream.Config.Basic
import SealedStream.Naming
import SealedStream.Record.Section
import SealedStream.Signature.Store
import SealedStream.Stream.Object
import SealedStream.Writer.Event

/-!
The stream writer, and the world that it acts on.

A writer groups the objects of a stream into record files, one for each window, and signs every
file once it is complete. Failures on the way do not reach the caller: they are reported, the
writer's token is cancelled, the unfinished file is thrown away and the rest of its window skipped.
-/

namespace SealedStream

/-- A record file that is being written. -/
structure OpenFile (ω : Type) where
  /-- Where the file will stand. -/
  path : Path
  /-- Where it is written. -/
  part : Path
  output : ω
  /-- Digests the metadata as it is written. -/
  metadata : Sha2.Hasher
  start : Hash
  /-- The link of the last item, or what the file starts from. -/
  lastLink : Link
  window : Window
  /-- The time of the first item. -/
  first : Timestamp
  items : Nat

inductive Phase (ω : Type) where
  | idle
  | writing (file : OpenFile ω)
  | skipping (window : Window) (reason : SkipReason)

/-- A record file that has been put in place. -/
structure WrittenFile where
  record : Path
  /-- Where the signatures are, if they could be made. -/
  signature : Option Path
  start : Hash
  finish : Hash
  metadata : Hash
  block : Int64
  items : Nat
  deriving DecidableEq

structure Writer (ω : Type) where
  config : Config
  clock : PeriodClock
  /-- Cancelled whenever a file is given up. -/
  token : Token
  /-- Leads to the running hash that the next file starts from. -/
  runningHash : Link
  phase : Phase ω
  /-- Objects are skipped until the next boundary between periods. -/
  completeWindow : Bool
  /-- The period of the last object. -/
  lastPeriod : Option Int64
  stopped : Bool
  lastWritten : Option WrittenFile

/-- Why a call of the writer is refused. -/
inductive WriterError where
  | stopped
  | config (e : ConfigError)
  deriving DecidableEq, Repr

def WriterError.message : WriterError → String
  | .stopped => "stream writer is stopped"
  | .config e => e.message

/-- What a writer acts on. -/
structure Surroundings (σ : Type) where
  storage : σ
  pipeline : Pipeline
  signer : Signer
  /-- What the signer has been asked to sign, in order. -/
  asked : List Bytes
  /-- What others do just before the writer looks at a link, a batch for each look. -/
  meanwhile : List (List Intervention) := []
  /-- What others will do, one after the other, while the writer waits for a running hash. -/
  coming : List Intervention
  /-- What has been reported, in order. -/
  events : List Event

/-- Others have had their turn. -/
def Surroundings.overtaken {σ : Type} (s : Surroundings σ) : Surroundings σ :=
  { s with
    pipeline := (s.meanwhile.headD []).foldl Pipeline.perform s.pipeline
    meanwhile := s.meanwhile.tail }

/-- An action of the writer. It has no outcome when it waits for something that never comes. -/
abbrev Act (σ α : Type) := StateT (Surroundings σ) Option α

namespace Act

variable {σ ω : Type}

def report (e : Event) : Act σ Unit := modify fun s => { s with events := s.events ++ [e] }

/-- Does something to the storage. -/
def onStorage {α : Type} (f : σ → α × σ) : Act σ α := fun s =>
  let (a, storage) := f s.storage
  some (a, { s with storage })

/-- Does something to the links and tokens. -/
def onPipeline {α : Type} (f : Pipeline → α × Pipeline) : Act σ α := fun s =>
  let (a, pipeline) := f s.pipeline
  some (a, { s with pipeline })

def newLink (state : LinkState) : Act σ Link := onPipeline (·.newLink state)

def newToken : Act σ Token := onPipeline (·.newToken)

def cancel (t : Token) : Act σ Unit := onPipeline fun p => ((), p.cancel t)

def isCancelled (t : Token) : Act σ Bool := onPipeline fun p => (p.isCancelled t, p)

/-- Waits for the hash of a link. -/
def await (l : Link) (t : Token) : Act σ (Except LinkError Hash) := fun s =>
  let s := s.overtaken
  (s.pipeline.wait l t s.coming).map fun (answer, coming, pipeline) =>
    (answer, { s with coming, pipeline })

/-- Has a message signed. -/
def sign (message : Bytes) : Act σ (Except SignerError Bytes) := fun s =>
  some (s.signer.sign s.asked.length message, { s with asked := s.asked ++ [message] })

def signatureScheme : Act σ Scheme := fun s => some (s.signer.scheme, s)

variable [Storage σ ω]

def present (p : Path) : Act σ Bool := onStorage fun s => (Storage.present p s, s)

def create (p : Path) : Act σ (Except Failure ω) := onStorage (Storage.create p)

def close (o : ω) : Act σ (Except Failure Unit) := onStorage (Storage.close o)

def rename (source target : Path) : Act σ (Except Failure Unit) :=
  onStorage (Storage.rename source target)

def remove (p : Path) : Act σ (Except Failure Unit) := onStorage (Storage.remove p)

def digest (p : Path) : Act σ (Except Failure Hash) := onStorage (Storage.digest p)

/-- Writes sections to an output; the output goes on even if that fails. -/
def writeSections (sections : List Section) (o : ω) : Act σ (Except Failure Unit × ω) :=
  onStorage fun s =>
    let (r, (o, s)) := Section.writeList sections (o, s)
    ((r, o), s)

/-- Removes an unfinished file, if it is there. -/
def removePart (part : Path) : Act σ Unit := do
  match ← remove part with
  | .ok () => pure ()
  | .error f => if f.kind = .notFound then pure () else report (.partStuck part f)

/-- Throws an unfinished file away. -/
def discard (o : ω) (part : Path) : Act σ Unit := do
  match ← close o with
  | .ok () => pure ()
  | .error f => report (.abandonedCloseFailed part f)
  removePart part

end Act

end SealedStream
