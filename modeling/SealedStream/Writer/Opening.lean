import SealedStream.Writer.Basic

/-!
Opening a record file for the window of an object, and adding items to it.
-/

namespace SealedStream.Writer

variable {σ ω : Type} [Storage σ ω]

/-- Gives a window up. -/
def abandon (w : Writer ω) (window : Window) : Act σ (Phase ω) := do
  Act.cancel w.token
  return .skipping window .aborted

/-- Takes away what an earlier run has left at a part path; says whether the path is free. -/
def clearStale (part : Path) : Act σ Bool := do
  if ← Act.present part then
    Act.report (.stalePart part)
    match ← Act.remove part with
    | .ok () => return true
    | .error f =>
      Act.report (.stalePartStuck part f)
      return false
  else return true

/-- Creates the unfinished file. -/
def createPart (path part : Path) : Act σ (Option ω) := do
  if ← clearStale part then
    match ← Act.create part with
    | .ok o =>
      Act.report (.fileCreated path)
      return some o
    | .error f =>
      Act.report (.createFailed path f)
      return none
  else return none

/-- What stands in front of the items. -/
def opening (w : Writer ω) (start : Hash) : List Section :=
  [.header w.config.kind.header, .start start]

/-- Creates a file that starts from a running hash, and writes its front. -/
def openFrom (w : Writer ω) (o : StreamObject) (window : Window) (path : Path) (start : Hash) :
    Act σ (Phase ω) := do
  let part := Naming.partPath path
  match ← createPart path part with
  | none => w.abandon window
  | some output =>
    let sections := w.opening start
    match ← Act.writeSections sections output with
    | (.error f, output) =>
      Act.report (.startFailed path f)
      Act.discard output part
      w.abandon window
    | (.ok (), output) =>
      Act.report (.startWritten start)
      return .writing {
        path := path
        part := part
        output := output
        metadata := Sha2.Hasher.new384.update (sections.flatMap Section.metadata)
        start := start
        lastLink := w.runningHash
        window := window
        first := o.timestamp
        items := 0 }

/-- Opens the file of the window that begins with an object. -/
def openWindow (w : Writer ω) (o : StreamObject) (window : Window) : Act σ (Phase ω) := do
  match Naming.recordPath w.config.exportDir o.timestamp w.config.kind with
  | .error e =>
    Act.report (.unnameable o.timestamp e)
    w.abandon window
  | .ok path =>
    if ← Act.present path then
      Act.report (.alreadyExists path)
      return .skipping window .alreadyExists
    else
      match ← Act.await w.runningHash w.token with
      | .error e =>
        Act.report (.noStartHash path e)
        w.abandon window
      | .ok start => w.openFrom o window path start

/-- Adds an object to the open file. -/
def append (w : Writer ω) (file : OpenFile ω) (o : StreamObject) : Act σ (Phase ω) := do
  match ← Act.writeSections [.item o.item] file.output with
  | (.ok (), output) =>
    return .writing { file with output := output, items := file.items + 1, lastLink := o.link }
  | (.error f, output) =>
    Act.report (.itemFailed file.path f)
    Act.discard output file.part
    w.abandon file.window

end SealedStream.Writer
