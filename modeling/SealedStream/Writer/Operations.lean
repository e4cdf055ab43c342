import SealedStream.Writer.Closing
import SealedStream.Writer.Opening

/-!
The operations of the stream writer.
-/

namespace SealedStream.Writer

variable {σ ω : Type} [Storage σ ω]

/-- A writer for a valid configuration. It has no running hash to start from yet. -/
def new (config : Config) : Act σ (Except WriterError (Writer ω)) := do
  match config.validate, config.clock with
  | .error e, _ => return .error (.config e)
  | _, .error e => return .error (.config e)
  | .ok _, .ok clock =>
    Act.report (.created config.exportDir config.periodMillis config.kind.description)
    let token ← Act.newToken
    let link ← Act.newLink .pending
    return .ok {
      config := config
      clock := clock
      token := token
      runningHash := link
      phase := .idle
      completeWindow := config.completeWindow
      lastPeriod := none
      stopped := false
      lastWritten := none }

/-- Sets the running hash that the next file starts from. -/
def setRunningHash (w : Writer ω) (h : Hash) : Act σ (Writer ω) := do
  return { w with runningHash := ← Act.newLink (.resolved h) }

/-- Forgets the running hash; the next file waits until the token is cancelled. -/
def clearRunningHash (w : Writer ω) : Act σ (Writer ω) := do
  return { w with runningHash := ← Act.newLink .pending }

def setCompleteWindow (w : Writer ω) (on : Bool) : Writer ω := { w with completeWindow := on }

/-- Replaces a cancelled token; says whether it was cancelled. -/
def resetCancellation (w : Writer ω) : Act σ (Bool × Writer ω) := do
  if ← Act.isCancelled w.token then
    return (true, { w with token := ← Act.newToken })
  else return (false, w)

def isWriting (w : Writer ω) : Bool :=
  match w.phase with
  | .writing _ => true
  | _ => false

/-- The object's period is not that of the object before it. -/
def crosses (w : Writer ω) (period : Int64) : Bool :=
  match w.lastPeriod with
  | some last => last ≠ period
  | none => false

/-- A crossed boundary ends the wait for a complete window. -/
def noticeBoundary (w : Writer ω) (period : Int64) : Act σ (Writer ω) := do
  if w.completeWindow && w.crosses period then
    Act.report (.periodCrossed period)
    return { w with completeWindow := false }
  else return w

/-- Leaves the current window if an object is outside of it. -/
def leaveWindow (w : Writer ω) (alignment : Alignment) (period : Int64) : Act σ (Writer ω) :=
  match w.phase with
  | .idle => return w
  | .writing file => if file.window.contains alignment period then return w else w.finish file
  | .skipping window _ =>
    if window.contains alignment period then return w else return { w with phase := .idle }

/-- Enters the window of an object if there is no current one. -/
def enterWindow (w : Writer ω) (o : StreamObject) (period : Int64) : Act σ (Writer ω) :=
  match w.phase with
  | .idle =>
    if w.completeWindow then do
      Act.report (.waiting period)
      return { w with phase := .skipping ⟨period, .unaligned⟩ .completeWindow }
    else do
      return { w with phase := ← w.openWindow o ⟨period, o.alignment⟩ }
  | _ => return w

/-- Writes or skips an object of the current window. -/
def take (w : Writer ω) (o : StreamObject) : Act σ (Writer ω) :=
  match w.phase with
  | .idle => return w
  | .writing file => do return { w with phase := ← w.append file o }
  | .skipping _ reason => do
    Act.report (.skipped reason o.timestamp)
    return w

/-- Takes the next object of the stream. -/
def add (w : Writer ω) (o : StreamObject) : Act σ (Except WriterError (Writer ω)) := do
  if w.stopped then return .error .stopped
  else
    let period := w.clock.period o.timestamp
    let w ← w.noticeBoundary period
    let w ← w.leaveWindow o.alignment period
    let w ← w.enterWindow o period
    let w ← w.take o
    return .ok { w with runningHash := o.link, lastPeriod := some period }

/-- Finishes and signs the open file, if there is one. -/
def closeAndSign (w : Writer ω) : Act σ (Writer ω) :=
  match w.phase with
  | .writing file => w.finish file
  | _ => return { w with phase := .idle }

/-- Throws the open file away. -/
def clear (w : Writer ω) : Act σ (Writer ω) := do
  match w.phase with
  | .writing file =>
    match ← Act.close file.output with
    | .ok () => pure ()
    | .error f => Act.report (.clearCloseFailed file.part f)
    match ← Act.remove file.part with
    | .ok () => pure ()
    | .error f => Act.report (.clearPartStuck file.part f)
  | _ => pure ()
  Act.report .cleared
  return { w with phase := .idle }

/-- Finishes and signs the open file, and takes no more objects. -/
def close (w : Writer ω) : Act σ (Writer ω) := do
  let w ← w.closeAndSign
  Act.report .stopped
  return { w with stopped := true }

end SealedStream.Writer
