import SealedStream.RunningHash.Link
import SealedStream.Signature.File
import SealedStream.Storage.Path
import SealedStream.Time.Timestamp
import SealedStream.Writer.Window

/-!
What the writer reports: one event for each thing that happens, and the line of text for each.
-/

namespace SealedStream

inductive Level where
  | trace
  | debug
  | info
  | warn
  | error
  deriving DecidableEq, Repr

def Level.name : Level → String
  | .trace => "TRACE"
  | .debug => "DEBUG"
  | .info => "INFO"
  | .warn => "WARN"
  | .error => "ERROR"

/-- A message with named values. -/
structure LogLine where
  level : Level
  message : String
  fields : List (String × String)

/-- Level and message, and behind a bar the values, if there are any. -/
def LogLine.text (l : LogLine) : String :=
  l.level.name ++ " " ++ l.message ++
    match l.fields with
    | [] => ""
    | fields => " |" ++ String.join (fields.map fun (name, value) => " " ++ name ++ "=" ++ value)

inductive Event where
  | created (exportDir : Path) (periodMillis : UInt64) (stream : String)
  | periodCrossed (period : Int64)
  | waiting (period : Int64)
  | skipped (reason : SkipReason) (timestamp : Timestamp)
  | unnameable (timestamp : Timestamp) (error : ValueError)
  | alreadyExists (file : Path)
  | noStartHash (file : Path) (error : LinkError)
  | stalePart (part : Path)
  | stalePartStuck (part : Path) (failure : Failure)
  | createFailed (file : Path) (failure : Failure)
  | fileCreated (file : Path)
  | startFailed (file : Path) (failure : Failure)
  | startWritten (hash : Hash)
  | itemFailed (file : Path) (failure : Failure)
  | noEndHash (file : Path) (error : LinkError)
  | endHash (hash : Hash)
  | endFailed (file : Path) (failure : Failure)
  | blockWritten (number : Int64)
  | closeFailed (file : Path) (failure : Failure)
  | moveFailed (file : Path) (failure : Failure)
  | fileWritten (file : Path) (items : Nat) (first : Timestamp)
  | digestFailed (file : Path) (failure : Failure)
  | signFailed (file : Path) (part : SignedPart) (error : SignerError)
  | signaturePartStuck (part : Path) (failure : Failure)
  | signatureFailed (file : Path) (failure : Failure)
  | signatureSaved (file : Path)
  | abandonedCloseFailed (part : Path) (failure : Failure)
  | partStuck (part : Path) (failure : Failure)
  | clearCloseFailed (part : Path) (failure : Failure)
  | clearPartStuck (part : Path) (failure : Failure)
  | cleared
  | stopped
  deriving DecidableEq

namespace Event

/-- An event about a file. -/
def about (level : Level) (message : String) (file : Path) (more : List (String × String)) :
    LogLine :=
  ⟨level, message, ("file", file.text) :: more⟩

/-- An event about a file that something went wrong with. -/
def trouble (level : Level) (message : String) (file : Path) (error : String) : LogLine :=
  about level message file [("error", error)]

def line : Event → LogLine
  | created dir millis stream =>
    ⟨.debug, "stream writer created",
      [("export_dir", dir.text), ("period_ms", toString millis), ("stream", stream)]⟩
  | periodCrossed period =>
    ⟨.debug, "period boundary crossed, complete window starts", [("period", toString period)]⟩
  | waiting period => ⟨.debug, "waiting for a complete window", [("period", toString period)]⟩
  | skipped reason timestamp =>
    ⟨.trace, "object skipped", [("reason", reason.name), ("timestamp", timestamp.text)]⟩
  | unnameable timestamp e =>
    ⟨.error, "beginNew :: cannot name stream file",
      [("timestamp", timestamp.label), ("error", e.message)]⟩
  | alreadyExists file => about .info "Stream file already exists" file []
  | noStartHash file e =>
    trouble .error
      "beginNew :: Exception when getting startRunningHash for writing to metadata stream" file
      e.message
  | stalePart part => about .warn "removing stale partial file" part []
  | stalePartStuck part f =>
    trouble .error "beginNew :: failed to remove stale partial file" part f.message
  | createFailed file f => trouble .error "beginNew :: failed to create stream file" file f.message
  | fileCreated file => about .debug "Stream file created" file []
  | startFailed file f =>
    trouble .error "beginNew :: Got IOException when writing startRunningHash" file f.message
  | startWritten hash =>
    ⟨.debug, "beginNew :: write startRunningHash to metadata", [("hash", hash.short)]⟩
  | itemFailed file f => trouble .error "failed to write object to stream file" file f.message
  | noEndHash file e =>
    trouble .error "closeCurrentAndSign :: failed when getting endRunningHash" file e.message
  | endHash hash =>
    ⟨.debug, "closeCurrentAndSign :: write endRunningHash", [("hash", hash.short)]⟩
  | endFailed file f =>
    trouble .warn
      "closeCurrentAndSign :: IOException when serializing endRunningHash and block number" file
      f.message
  | blockWritten number =>
    ⟨.debug, "closeCurrentAndSign :: write block number", [("block_number", toString number)]⟩
  | closeFailed file f =>
    trouble .error "closeCurrentAndSign :: failed to close stream file" file f.message
  | moveFailed file f =>
    trouble .error "closeCurrentAndSign :: failed to move stream file into place" file f.message
  | fileWritten file items first =>
    about .debug "Stream file written successfully" file
      [("items", toString items), ("first", first.text)]
  | digestFailed file f =>
    trouble .error "closeCurrentAndSign :: failed to compute entire file hash" file f.message
  | signFailed file part e =>
    about .error "closeCurrentAndSign :: failed to sign hash" file
      [("which", part.name), ("error", e.message)]
  | signaturePartStuck part f =>
    trouble .warn "failed to delete partial signature file" part f.message
  | signatureFailed file f =>
    trouble .error "closeCurrentAndSign :: Fail to generate signature file" file f.message
  | signatureSaved file => about .info "signature file saved" file []
  | abandonedCloseFailed part f =>
    trouble .warn "failed to close abandoned stream file" part f.message
  | partStuck part f => trouble .warn "failed to delete partial file" part f.message
  | clearCloseFailed part f =>
    trouble .warn "StreamWriter::clear Exception in closing record stream" part f.message
  | clearPartStuck part f =>
    trouble .warn "StreamWriter::clear failed to delete partial file" part f.message
  | cleared => ⟨.debug, "StreamWriter::clear executed.", []⟩
  | stopped => ⟨.debug, "StreamWriter finished writing the last object, is stopped", []⟩

/-- The line of text for an event. -/
def text (e : Event) : String := e.line.text

end Event

end SealedStream
