import SealedStream.Bytes

/-!
The block that an object belongs to, and the number that stands for it in a file.
-/

namespace SealedStream

/-- Objects that share a block number belong together; unaligned ones never match. -/
inductive Alignment where
  | block (number : Int64)
  | unaligned
  deriving DecidableEq, Repr

namespace Alignment

/-- The number written for a file whose objects carry no block. -/
def noBlock : Int64 := Int64.minValue

def ofNumber (n : Int64) : Alignment := if n = noBlock then .unaligned else .block n

def number : Alignment → Int64
  | .block n => n
  | .unaligned => noBlock

def sameBlock : Alignment → Alignment → Bool
  | .block a, .block b => a = b
  | _, _ => false

/-- The form used in logs. -/
def label : Alignment → String
  | .block n => s!"Block({n})"
  | .unaligned => "Unaligned"

@[simp] theorem number_ofNumber (n : Int64) : (ofNumber n).number = n := by
  unfold ofNumber; split <;> simp_all [number]

end Alignment

/-- A protocol version of three parts. -/
structure Version where
  major : Int32
  minor : Int32
  patch : Int32
  deriving DecidableEq, Repr

def Version.text (v : Version) : String := s!"{v.major}.{v.minor}.{v.patch}"

end SealedStream
