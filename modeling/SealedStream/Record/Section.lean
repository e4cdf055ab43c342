import SealedStream.RunningHash.Chain
import SealedStream.Wire.Field

/-!
The sections of a record file.

A file is a header, the running hash before its first item, the items, the running hash after the
last one, and a block number, in this order. Each item and the end hash stand behind a tag.
-/

namespace SealedStream

inductive Section where
  | header (values : List Int32)
  | start (hash : Hash)
  | item (i : Item)
  | finish (hash : Hash)
  | block (number : Int64)
  deriving DecidableEq

namespace Section

/-- The tag in front of an item. -/
def itemTag : UInt8 := 0x01

/-- The tag in front of the end hash. -/
def endTag : UInt8 := 0x02

def headerBytes (values : List Int32) : Bytes := values.flatMap Bytes.ofInt32

def fields : Section → List Field
  | .header values => [Field.raw (headerBytes values)]
  | .start h => Field.hash h
  | .item i => Field.raw [itemTag] :: (Field.packed i.packedTransaction ++ Field.packed i.packedRecord)
  | .finish h => Field.raw [endTag] :: Field.hash h
  | .block n => [Field.int64 n]

theorem fields_item (i : Item) :
    (item i).fields =
      Field.raw [itemTag] :: (Field.payload i.transaction ++ Field.payload i.record) := by
  rw [fields, Field.packed_eq, Field.packed_eq]
  rfl

/-- What a section adds to the metadata hash: numbers and bare digests, nothing for an item. -/
def metadata : Section → Bytes
  | .header values => headerBytes values
  | .start h => h.bytes
  | .item _ => []
  | .finish h => h.bytes
  | .block n => Bytes.ofInt64 n

/-- Writes a section field by field. -/
def write {τ : Type} [Sink τ] (s : Section) (t : τ) : Except Failure Unit × τ :=
  Field.write s.fields t

/-- Writes sections in turn, up to the first that fails. -/
def writeList {τ : Type} [Sink τ] : List Section → τ → Except Failure Unit × τ
  | [], t => (.ok (), t)
  | s :: rest, t =>
    match s.write t with
    | (.ok (), t) => writeList rest t
    | (.error e, t) => (.error e, t)

end Section

end SealedStream
