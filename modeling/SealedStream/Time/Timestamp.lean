import SealedStream.Hash
import SealedStream.Decimal
import SealedStream.Time.Calendar

/-!
Consensus timestamps: whole seconds since the epoch and a nanosecond part, ordered seconds first.

Text follows ISO 8601 in UTC. The fraction has three, six or nine digits, whichever is the
shortest exact one, and is left out when zero.
-/

namespace SealedStream

/-- The nearest 64-bit integer. -/
def clamp64 (n : Int) : Int64 :=
  if n < Int64.minValue.toInt then Int64.minValue
  else if Int64.maxValue.toInt < n then Int64.maxValue
  else Int64.ofInt n

def nanosPerSecond : Nat := 1000000000

structure Timestamp where
  seconds : Int64
  nanos : UInt32
  deriving DecidableEq, Repr

namespace Timestamp

/-- Carries whole seconds out of the nanosecond part; the seconds stop at their bounds. -/
def new (seconds : Int64) (nanos : UInt32) : Timestamp :=
  ⟨clamp64 (seconds.toInt + (nanos.toNat / nanosPerSecond : Nat)),
    UInt32.ofNat (nanos.toNat % nanosPerSecond)⟩

def epoch : Timestamp := ⟨0, 0⟩

/-- The nanosecond part is below one second. -/
def Normal (t : Timestamp) : Prop := t.nanos.toNat < nanosPerSecond

instance (t : Timestamp) : Decidable t.Normal := inferInstanceAs (Decidable (_ < _))

/-- Milliseconds since the epoch, rounded down. -/
def epochMillis (t : Timestamp) : Int := t.seconds.toInt * 1000 + (t.nanos.toNat / 1000000 : Nat)

/-- Nanoseconds since the epoch. -/
def epochNanos (t : Timestamp) : Int := t.seconds.toInt * nanosPerSecond + t.nanos.toNat

def plusSeconds (t : Timestamp) (seconds : Int64) : Timestamp :=
  new (clamp64 (t.seconds.toInt + seconds.toInt)) t.nanos

def plusNanos (t : Timestamp) (nanos : UInt32) : Timestamp :=
  let total := t.nanos.toNat + nanos.toNat
  ⟨clamp64 (t.seconds.toInt + (total / nanosPerSecond : Nat)),
    UInt32.ofNat (total % nanosPerSecond)⟩

/-- Seconds first, then nanoseconds. -/
instance : Ord Timestamp :=
  ⟨fun a b => (compare a.seconds b.seconds).then (compare a.nanos b.nanos)⟩

instance : LE Timestamp := ⟨fun a b => (compare a b).isLE⟩

instance (a b : Timestamp) : Decidable (a ≤ b) := inferInstanceAs (Decidable (_ = true))

end Timestamp

/-- A moment of UTC on the calendar. A leap second is the second after 59, with its nanoseconds
counted from the start of second 59. -/
structure Moment where
  date : Date
  hour : Nat
  minute : Nat
  second : Nat
  nanos : Nat
  deriving DecidableEq, Repr

namespace Moment

/-- The years that have a text. -/
def firstYear : Int := -262143
def lastYear : Int := 262142

/-- Seconds since the epoch. -/
def seconds (m : Moment) : Int :=
  86400 * m.date.days + ((m.hour * 60 + m.minute) * 60 + m.second : Nat)

/-- A year from 0 to 9999 has four digits; any other has a sign as well. -/
def yearText (year : Int) : List Char :=
  if year < 0 then '-' :: Decimal.padded 4 year.natAbs
  else if 9999 < year then '+' :: Decimal.padded 4 year.natAbs
  else Decimal.padded 4 year.natAbs

/-- The shortest exact fraction of three, six or nine digits. -/
def fractionText (nanos : Nat) : List Char :=
  if nanos = 0 then []
  else if nanos % 1000000 = 0 then '.' :: Decimal.padded 3 (nanos / 1000000)
  else if nanos % 1000 = 0 then '.' :: Decimal.padded 6 (nanos / 1000)
  else '.' :: Decimal.padded 9 nanos

/-- The date and the time of day, to the second; a leap second shows as 60. -/
def clockText (m : Moment) : List Char :=
  yearText m.date.year ++ '-' :: Decimal.padded 2 m.date.month ++ '-' :: Decimal.padded 2 m.date.day
    ++ 'T' :: Decimal.padded 2 m.hour ++ ':' :: Decimal.padded 2 m.minute
    ++ ':' :: Decimal.padded 2 (m.second + m.nanos / nanosPerSecond)

/-- The ISO 8601 text. -/
def text (m : Moment) : List Char := m.clockText ++ fractionText m.nanos ++ ['Z']

end Moment

namespace Timestamp

/-- A nanosecond part that a moment can carry: below one second, or below two in the last second
of a minute. -/
def Placeable (t : Timestamp) : Prop :=
  t.nanos.toNat < nanosPerSecond ∨
    (t.nanos.toNat < 2 * nanosPerSecond ∧ t.seconds.toInt % 60 = 59)

instance (t : Timestamp) : Decidable t.Placeable := inferInstanceAs (Decidable (_ ∨ _))

/-- The moment at which a timestamp falls, its year not looked at. -/
def moment (t : Timestamp) : Moment :=
  let days := t.seconds.toInt / 86400
  let rest := (t.seconds.toInt % 86400).toNat
  ⟨Date.ofDays days, rest / 3600, rest / 60 % 60, rest % 60, t.nanos.toNat⟩

def toMoment (t : Timestamp) : Except ValueError Moment :=
  let m := t.moment
  if t.Placeable ∧ Moment.firstYear ≤ m.date.year ∧ m.date.year ≤ Moment.lastYear then .ok m
  else .error (.timeOutOfRange t.seconds t.nanos)

/-- The timestamp of a moment; a leap second is carried into the next minute. -/
def ofMoment (m : Moment) : Timestamp := new (clamp64 m.seconds) (UInt32.ofNat m.nanos)

def toIso (t : Timestamp) : Except ValueError String :=
  t.toMoment.map fun m => String.ofList m.text

/-- Seconds, a point, and at least nine digits of nanoseconds. -/
def plainText (t : Timestamp) : String :=
  s!"{t.seconds}." ++ String.ofList (Decimal.padded 9 t.nanos.toNat)

/-- The ISO text where there is one, else seconds and nanoseconds. -/
def text (t : Timestamp) : String :=
  match t.toIso with
  | .ok s => s
  | .error _ => t.plainText

/-- The form used in logs. -/
def label (t : Timestamp) : String := s!"ConsensusTimestamp({t.plainText})"

end Timestamp

end SealedStream
