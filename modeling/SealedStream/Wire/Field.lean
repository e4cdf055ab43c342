import SealedStream.Hash
import SealedStream.Transfer.Sink

/-!
The fields that files are made of: big-endian numbers, digests and payloads behind their lengths.

A field is the bytes to write, or the failure that stands in their place.
-/

namespace SealedStream

abbrev Field := Except Failure Bytes

namespace Field

def int32 (x : Int32) : Field := .ok (Bytes.ofInt32 x)

def int64 (x : Int64) : Field := .ok (Bytes.ofInt64 x)

def raw (bs : Bytes) : Field := .ok bs

/-- The most bytes that a payload may have. -/
def maxPayload : Nat := 2147483647

def tooLong : Failure := ⟨.invalidInput, some "payload exceeds i32::MAX bytes"⟩

/-- The length of a payload; one that is too long has no form. -/
def length (bs : Bytes) : Field :=
  if bs.length ≤ maxPayload then int32 (Int32.ofNat bs.length) else .error tooLong

/-- A digest behind the number of its algorithm and its length. -/
def hash (h : Hash) : List Field :=
  [int32 DigestKind.sha384.id, int32 (Int32.ofNat h.bytes.length), raw h.bytes]

/-- A byte string behind its length, if it is not too long. -/
def payload (bs : Bytes) : List Field :=
  if bs.length ≤ maxPayload then [int32 (Int32.ofNat bs.length), raw bs] else [.error tooLong]

/-- The same of packed bytes. They are unpacked only if they are not too long. -/
def packed (data : ByteArray) : List Field :=
  if data.size ≤ maxPayload then [int32 (Int32.ofNat data.size), raw data.data.toList]
  else [.error tooLong]

theorem packed_eq (data : ByteArray) : packed data = payload data.data.toList := rfl

/-- The fields as one byte string, or the first failure among them. -/
def join : List Field → Except Failure Bytes
  | [] => .ok []
  | .error e :: _ => .error e
  | .ok bs :: rest => (join rest).map (bs ++ ·)

/-- Writes the fields in turn, up to the first that fails. -/
def write {τ : Type} [Sink τ] : List Field → τ → Except Failure Unit × τ
  | [], t => (.ok (), t)
  | .error e :: _, t => (.error e, t)
  | .ok bs :: rest, t =>
    match Sink.writeAll bs t with
    | (.ok (), t) => write rest t
    | (.error e, t) => (.error e, t)

theorem join_append (xs ys : List Field) :
    join (xs ++ ys) = (join xs).bind fun x => (join ys).map (x ++ ·) := by
  induction xs with
  | nil => cases h : join ys <;> simp [join, Except.bind, Except.map, h]
  | cons f xs ih =>
    cases f with
    | error e => rfl
    | ok bs =>
      simp only [List.cons_append, join, ih]
      cases join xs <;> cases join ys <;> simp [Except.bind, Except.map]

end Field

end SealedStream
