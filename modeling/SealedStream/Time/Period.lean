import SealedStream.Time.Timestamp

/-!
Rollover periods: consecutive windows of equal length, counted from the epoch.
-/

namespace SealedStream

/-- The index of the period, `millis` long, that holds a timestamp; kept within 64 bits. -/
def Timestamp.periodIn (t : Timestamp) (millis : UInt64) : Int64 :=
  clamp64 (t.epochMillis / (millis.toNat : Int))

/-- Maps timestamps to periods of one length. -/
structure PeriodClock where
  millis : UInt64
  positive : millis ≠ 0
  deriving DecidableEq

namespace PeriodClock

/-- A clock of the given length, unless it is zero. -/
def ofMillis? (millis : UInt64) : Option PeriodClock :=
  if h : millis ≠ 0 then some ⟨millis, h⟩ else none

def period (c : PeriodClock) (t : Timestamp) : Int64 := t.periodIn c.millis

def samePeriod (c : PeriodClock) (s t : Timestamp) : Bool := c.period s = c.period t

end PeriodClock

end SealedStream
