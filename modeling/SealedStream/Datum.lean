import SealedStream.Bytes

/-!
Self-describing data, as it stands in a configuration text or in an interchange format, and the
reading of typed values from it.
-/

namespace SealedStream

inductive Datum where
  | null
  | truth (b : Bool)
  | integer (n : Int)
  /-- A number that is not written as an integer. -/
  | decimal (text : String)
  /-- A date, a time, or both. -/
  | moment (text : String)
  | text (s : String)
  | list (items : List Datum)
  | record (fields : List (String × Datum))
  deriving Inhabited

namespace Datum

def truth? : Datum → Option Bool
  | truth b => some b
  | _ => none

def text? : Datum → Option String
  | text s => some s
  | _ => none

/-- An integer between two bounds, both allowed. -/
def integerIn? (low high : Int) : Datum → Option Int
  | integer n => if low ≤ n ∧ n ≤ high then some n else none
  | _ => none

def int32? (d : Datum) : Option Int32 :=
  (d.integerIn? Int32.minValue.toInt Int32.maxValue.toInt).map Int32.ofInt

def int64? (d : Datum) : Option Int64 :=
  (d.integerIn? Int64.minValue.toInt Int64.maxValue.toInt).map Int64.ofInt

def uint8? (d : Datum) : Option UInt8 :=
  (d.integerIn? 0 (UInt8.size - 1)).map fun n => UInt8.ofNat n.toNat

def uint32? (d : Datum) : Option UInt32 :=
  (d.integerIn? 0 (UInt32.size - 1)).map fun n => UInt32.ofNat n.toNat

def uint64? (d : Datum) : Option UInt64 :=
  (d.integerIn? 0 (UInt64.size - 1)).map fun n => UInt64.ofNat n.toNat

/-- A list whose items all read. -/
def listOf? {α : Type} (read : Datum → Option α) : Datum → Option (List α)
  | list items => items.mapM read
  | _ => none

/-- The fields of the given names, in their order. They stand by name in a record, where other
names do not matter, or by position in a list. A list longer than the names is refused if `strict`;
a moment counts as a record that has none of the names. -/
def fields? (strict : Bool) (names : List String) : Datum → Option (List (Option Datum))
  | record fields => some (names.map fun n => fields.lookup n)
  | list items =>
    if strict ∧ names.length < items.length then none
    else some ((List.range names.length).map (items[·]?))
  | moment _ => some (names.map fun _ => none)
  | _ => none

/-- A field that has to be there. -/
def needed? {α : Type} (read : Datum → Option α) (field : Option Datum) : Option α :=
  field.bind read

/-- A field that may be left out. -/
def optional? {α : Type} (read : Datum → Option α) (default : α) : Option Datum → Option α
  | some d => read d
  | none => some default

/-- The name of a case without content: the bare name, or a record that maps it to null. -/
def caseName? : Datum → Option String
  | text s => some s
  | record [(s, null)] => some s
  | _ => none

/-- The name and the content of a case. -/
def caseWith? : Datum → Option (String × Datum)
  | record [(s, d)] => some (s, d)
  | _ => none

end Datum

end SealedStream
