import SealedStream.Record.Section
import SealedStream.Stream.Alignment
import SealedStream.Wire.Reader

/-!
Record files: their image, their metadata hash and their reading back.
-/

namespace SealedStream

structure RecordFile where
  version : Int32
  protocol : Version
  start : Hash
  items : List Item
  finish : Hash
  block : Int64
  deriving DecidableEq

/-- The digest of header, start hash, end hash and block number. -/
def metadataHash (version : Int32) (protocol : Version) (start finish : Hash) (block : Int64) :
    Hash :=
  Hash.digest (Section.headerBytes [version, protocol.major, protocol.minor, protocol.patch]
    ++ start.bytes ++ finish.bytes ++ Bytes.ofInt64 block)

namespace RecordFile

def header (f : RecordFile) : List Int32 :=
  [f.version, f.protocol.major, f.protocol.minor, f.protocol.patch]

/-- The sections in file order. -/
def sections (f : RecordFile) : List Section :=
  .header f.header :: .start f.start :: (f.items.map .item ++ [.finish f.finish, .block f.block])

/-- The image of a file. A payload that is too long has none. -/
def encode (f : RecordFile) : Except Failure Bytes := Field.join (f.sections.flatMap Section.fields)

def alignment (f : RecordFile) : Alignment := .ofNumber f.block

def metadataHash (f : RecordFile) : Hash :=
  SealedStream.metadataHash f.version f.protocol f.start f.finish f.block

/-- The items lead from the start hash to the end hash. -/
def verifyChain (f : RecordFile) : Except ChainError Unit :=
  RunningHash.verify f.start f.items f.finish

def segment (f : RecordFile) : RunningHash.Segment := ⟨f.start, f.finish⟩

/-- What stands behind a tag. -/
inductive Entry where
  | item (i : Item)
  | finish
  deriving DecidableEq

open Reader in
def readEntry : Reader Entry := do
  let offset ← position
  let tag ← byte
  if tag = Section.itemTag then
    let transaction ← payload
    let record ← payload
    return .item (.of transaction record)
  else if tag = Section.endTag then return .finish
  else fail (.unknownTag offset tag)

theorem readEntry_shrinks {c c' : Cursor} {e : Entry} (h : readEntry c = .ok (e, c')) :
    c'.rest.length < c.rest.length := by
  obtain ⟨offset, c1, h1, h⟩ := Reader.bind_eq_ok.1 h
  cases h1
  obtain ⟨tag, c2, h2, h⟩ := Reader.bind_eq_ok.1 h
  obtain ⟨bs, c3, h3, h4⟩ := Reader.bind_eq_ok.1 h2
  obtain ⟨-, rfl⟩ := Reader.pure_eq_ok.1 h4
  have hlt := Reader.take_eq_ok h3
  have hle : c'.rest.length ≤ c3.rest.length := by
    revert h
    split
    · intro h
      obtain ⟨x, d, hx, h⟩ := Reader.bind_eq_ok.1 h
      obtain ⟨y, d', hy, h⟩ := Reader.bind_eq_ok.1 h
      obtain ⟨-, rfl⟩ := Reader.pure_eq_ok.1 h
      exact Nat.le_trans (Reader.advances_payload hy) (Reader.advances_payload hx)
    · split
      · intro h
        obtain ⟨-, rfl⟩ := Reader.pure_eq_ok.1 h
        exact Nat.le_refl _
      · intro h; cases h
  omega

/-- The items up to the tag of the end hash, which is taken too. -/
def readItems (c : Cursor) : Except DecodeError (List Item × Cursor) :=
  match _h : readEntry c with
  | .error e => .error e
  | .ok (.finish, c') => .ok ([], c')
  | .ok (.item i, c') => (readItems c').map fun (items, c'') => (i :: items, c'')
termination_by c.rest.length
decreasing_by exact readEntry_shrinks _h

open Reader in
def reader : Reader RecordFile := do
  let version ← int32
  let major ← int32
  let minor ← int32
  let patch ← int32
  let start ← hash
  let items ← readItems
  let finish ← hash
  let block ← int64
  return ⟨version, ⟨major, minor, patch⟩, start, items, finish, block⟩

/-- The file of an image. -/
def decode (image : Bytes) : Except DecodeError RecordFile := reader.run image

end RecordFile

end SealedStream
