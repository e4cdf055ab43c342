import SealedStream.Datum
import SealedStream.Time.Calendar
import SealedStream.Toml.Text

/-!
Numbers, dates and truth values of TOML.

Each of them is one run of letters, digits and signs; only a date and a time may have a blank
between them.
-/

namespace SealedStream.Toml

def isScalarChar (c : Char) : Bool := isBareKeyChar c || c = '+' || c = '.' || c = ':'

/-- Digits with single underscores between them, the underscores left out. -/
def plainDigits? (isDigit : Char → Bool) : List Char → Option (List Char)
  | [] => none
  | [c] => if isDigit c then some [c] else none
  | c :: '_' :: rest => if isDigit c then (plainDigits? isDigit rest).map (c :: ·) else none
  | c :: rest => if isDigit c then (plainDigits? isDigit rest).map (c :: ·) else none

/-- Splits a sign off; `true` means minus. -/
def splitSign : List Char → Bool × List Char
  | '-' :: cs => (true, cs)
  | '+' :: cs => (false, cs)
  | cs => (false, cs)

/-- Decimal digits without a needless zero in front. -/
def wholeDigits? (cs : List Char) : Option (List Char) :=
  match plainDigits? isDigit cs with
  | some ('0' :: _ :: _) => none
  | r => r

def inRange? (n : Int) : Option Int :=
  if Int64.minValue.toInt ≤ n ∧ n ≤ Int64.maxValue.toInt then some n else none

/-- A number in base 2, 8 or 16. -/
def based? (base : Nat) (cs : List Char) : Option Int := do
  let digits ← plainDigits? (fun c => isHexDigit c && hexValue c < base) cs
  inRange? (digitsValue base digits)

def integer? (cs : List Char) : Option Int :=
  match cs with
  | '0' :: 'x' :: rest => based? 16 rest
  | '0' :: 'o' :: rest => based? 8 rest
  | '0' :: 'b' :: rest => based? 2 rest
  | _ => do
    let (negative, rest) := splitSign cs
    let digits ← wholeDigits? rest
    let n : Int := digitsValue 10 digits
    inRange? (if negative then -n else n)

/-- Splits a text in front of the first character that passes a test. -/
def splitAtFirst (p : Char → Bool) (cs : List Char) : List Char × List Char :=
  (cs.takeWhile (!p ·), cs.dropWhile (!p ·))

/-- The parts of a number with a point or an exponent: sign, whole digits, digits behind the point,
exponent. -/
def decimalParts? (cs : List Char) : Option (Bool × List Char × List Char × Int) := do
  let (negative, rest) := splitSign cs
  let (mantissa, tail) := splitAtFirst (fun c => c = 'e' || c = 'E') rest
  let (whole, point) := splitAtFirst (· = '.') mantissa
  let whole ← wholeDigits? whole
  let fraction ← match point with
    | [] => some []
    | _ :: digits => plainDigits? isDigit digits
  let exponent : Int ← match tail with
    | [] => some 0
    | _ :: e =>
      let (down, digits) := splitSign e
      (plainDigits? isDigit digits).map fun ds =>
        let n : Int := digitsValue 10 ds
        if down then -n else n
  if point = [] ∧ tail = [] then none else return (negative, whole, fraction, exponent)

/-- The number, without its sign, is at least the least power of two that a double rounds to
infinity from. Numbers with too many digits for that to be in doubt are not worked out. -/
def overflows (whole fraction : List Char) (exponent : Int) : Bool :=
  let digits := (whole ++ fraction).dropWhile (· = '0')
  let magnitude := (digits.length : Int) - fraction.length + exponent
  if digits = [] ∨ magnitude < 309 then false
  else if 309 < magnitude then true
  else
    let n := digitsValue 10 digits
    let bound := Nat.pow 2 1024 - Nat.pow 2 970
    let shift := exponent - fraction.length
    if 0 ≤ shift then bound ≤ n * Nat.pow 10 shift.toNat
    else bound * Nat.pow 10 (-shift).toNat ≤ n

/-- A number with a point or an exponent, or one of the special values. A number above the range of
doubles is refused. -/
def decimal? (cs : List Char) : Option String :=
  let (_, rest) := splitSign cs
  if rest = ['i', 'n', 'f'] ∨ rest = ['n', 'a', 'n'] then some (String.ofList cs)
  else match decimalParts? cs with
    | none => none
    | some (negative, whole, fraction, exponent) =>
      if !negative && overflows whole fraction exponent then none else some (String.ofList cs)

/-- A number of exactly `width` digits between two bounds. -/
def bounded? (width low high : Nat) : Scanner Nat := fun cs =>
  let digits := cs.take width
  let n := digitsValue 10 digits
  if digits.length = width ∧ digits.all isDigit ∧ low ≤ n ∧ n ≤ high then some (n, cs.drop width)
  else none

def expect? (c : Char) : List Char → Option (List Char)
  | d :: cs => if d = c then some cs else none
  | [] => none

/-- Takes a date off the front. -/
def date? (cs : List Char) : Option (List Char) := do
  let (year, cs) ← bounded? 4 0 9999 cs
  let cs ← expect? '-' cs
  let (month, cs) ← bounded? 2 1 12 cs
  let cs ← expect? '-' cs
  let (_, cs) ← bounded? 2 1 (Date.monthLength year month) cs
  return cs

/-- Takes a time of day off the front. -/
def time? (cs : List Char) : Option (List Char) := do
  let (_, cs) ← bounded? 2 0 23 cs
  let cs ← expect? ':' cs
  let (_, cs) ← bounded? 2 0 59 cs
  let cs ← expect? ':' cs
  let (_, cs) ← bounded? 2 0 60 cs
  match cs with
  | '.' :: rest => if (rest.head?.any isDigit) then some (rest.dropWhile isDigit) else none
  | cs => some cs

/-- Takes an offset from UTC off the front, if one is there. -/
def offset? (cs : List Char) : Option (List Char) :=
  match cs with
  | [] => some []
  | c :: rest =>
    if c = 'Z' ∨ c = 'z' then some rest
    else if c = '+' ∨ c = '-' then do
      let (_, rest) ← bounded? 2 0 23 rest
      let rest ← expect? ':' rest
      let (_, rest) ← bounded? 2 0 59 rest
      return rest
    else none

/-- The whole run is a time, a date, or both with a letter between them. -/
def isMoment (cs : List Char) : Bool :=
  time? cs = some [] ||
    match date? cs with
    | none => false
    | some [] => true
    | some (c :: rest) => (c = 'T' || c = 't') && (time? rest).bind offset? = some []

def startsTime (cs : List Char) : Bool :=
  match cs with
  | a :: b :: ':' :: _ => isDigit a && isDigit b
  | _ => false

/-- A truth value, a number or a date. -/
def scalar? : Scanner Datum := fun cs =>
  let run := cs.takeWhile isScalarChar
  let rest := cs.dropWhile isScalarChar
  if date? run = some [] ∧ rest.head? = some ' ' ∧ startsTime rest.tail then
    let run := run ++ 'T' :: rest.tail.takeWhile isScalarChar
    if isMoment run then
      some (.moment (String.ofList run), rest.tail.dropWhile isScalarChar)
    else none
  else if run = ['t', 'r', 'u', 'e'] then some (.truth true, rest)
  else if run = ['f', 'a', 'l', 's', 'e'] then some (.truth false, rest)
  else if isMoment run then some (.moment (String.ofList run), rest)
  else match integer? run with
    | some n => some (.integer n, rest)
    | none => (decimal? run).map fun s => (.decimal s, rest)

end SealedStream.Toml
