import SealedStream.Stream.Alignment

/-!
Windows: which objects share a record file.
-/

namespace SealedStream

/-- The window that an object with this period and this block opens. -/
structure Window where
  period : Int64
  alignment : Alignment
  deriving DecidableEq, Repr

namespace Window

/-- An object belongs to a window by its block or by its period. -/
def contains (w : Window) (alignment : Alignment) (period : Int64) : Bool :=
  w.alignment.sameBlock alignment || w.period = period

/-- The form used in logs. -/
def label (w : Window) : String :=
  "Window \x7b " ++ s!"period: {w.period}, alignment: {w.alignment.label}" ++ " \x7d"

theorem contains_of_period (w : Window) (alignment : Alignment) :
    w.contains alignment w.period = true := by simp [contains]

end Window

/-- Why a window is gone through without being written. -/
inductive SkipReason where
  /-- The first boundary between periods is still to come. -/
  | completeWindow
  /-- Opening or writing the file failed. -/
  | aborted
  /-- There is a file of that name. -/
  | alreadyExists
  deriving DecidableEq, Repr

def SkipReason.name : SkipReason → String
  | .completeWindow => "CompleteWindow"
  | .aborted => "Aborted"
  | .alreadyExists => "AlreadyExists"

end SealedStream
