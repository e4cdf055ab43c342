import SealedStream.Stream.Alignment
import SealedStream.Storage.Path
import SealedStream.Time.Period
import SealedStream.Transfer.Failure

/-!
What a writer is told: where files go, how long a period is, and what kind of stream it writes.
-/

namespace SealedStream

/-- One kind of stream: the extensions of its files and their headers. -/
structure StreamKind where
  /-- The name used in logs. -/
  description : String
  /-- Extension of record files, without the dot. -/
  extension : String
  /-- Extension of signature files, without the dot. -/
  signatureExtension : String
  /-- The version of the format, then the three parts of the protocol version. -/
  header : List Int32
  /-- What a signature file begins with; the first byte is the version of its format. -/
  signatureHeader : Bytes
  deriving DecidableEq, Repr

/-- What is wrong with a configuration. -/
inductive ConfigFlaw where
  | zeroPeriod
  | headerSize (actual : Nat)
  | noSignatureHeader
  | emptyExtension
  | equalExtensions
  deriving DecidableEq, Repr

def ConfigFlaw.message : ConfigFlaw → String
  | .zeroPeriod => "log_period_ms must be positive"
  | .headerSize n => s!"file_header must hold 4 values, got {n}"
  | .noSignatureHeader => "sig_file_header must not be empty"
  | .emptyExtension => "extensions must not be empty"
  | .equalExtensions => "record and signature extensions must differ"

/-- Why there is no configuration. -/
inductive ConfigError where
  | unreadable
  | invalid (flaw : ConfigFlaw)
  | io (path : Path) (failure : Failure)
  deriving DecidableEq, Repr

def ConfigError.message : ConfigError → String
  | .unreadable => "failed to parse config"
  | .invalid flaw => s!"invalid config: {flaw.message}"
  | .io path failure => s!"I/O error reading {path.text}: {failure.message}"

namespace StreamKind

/-- Records at version 6 of the format and version 0.27.0 of the protocol. -/
def records : StreamKind := ⟨"records", "rcd", "rcd_sig", [6, 0, 27, 0], [6]⟩

def version (k : StreamKind) : Int32 := k.header.headD 0

def protocol (k : StreamKind) : Version :=
  ⟨k.header.getD 1 0, k.header.getD 2 0, k.header.getD 3 0⟩

/-- The first flaw of a kind. -/
def flaw? (k : StreamKind) : Option ConfigFlaw :=
  if k.header.length ≠ 4 then some (.headerSize k.header.length)
  else if k.signatureHeader = [] then some .noSignatureHeader
  else if k.extension = "" ∨ k.signatureExtension = "" then some .emptyExtension
  else if k.extension = k.signatureExtension then some .equalExtensions
  else none

def validate (k : StreamKind) : Except ConfigError Unit :=
  match k.flaw? with
  | some flaw => .error (.invalid flaw)
  | none => .ok ()

end StreamKind

structure Config where
  exportDir : Path
  periodMillis : UInt64
  /-- Skip objects until the first boundary between periods. -/
  completeWindow : Bool
  kind : StreamKind
  deriving DecidableEq, Repr

namespace Config

def standard : Config := ⟨⟨"record-streams"⟩, 2000, false, .records⟩

/-- Two configurations that say the same; their directories may be written differently. -/
def agrees (c d : Config) : Bool :=
  c.exportDir.agrees d.exportDir ∧ c.periodMillis = d.periodMillis ∧
    c.completeWindow = d.completeWindow ∧ c.kind = d.kind

/-- The clock of the configured period, which is not zero. -/
def clock (c : Config) : Except ConfigError PeriodClock :=
  match PeriodClock.ofMillis? c.periodMillis with
  | some clock => .ok clock
  | none => .error (.invalid .zeroPeriod)

/-- Looks at the period first. -/
def validate (c : Config) : Except ConfigError Unit :=
  match c.clock with
  | .error e => .error e
  | .ok _ => c.kind.validate

end Config

end SealedStream
