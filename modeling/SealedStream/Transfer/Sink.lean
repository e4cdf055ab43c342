import SealedStream.Bytes
import SealedStream.Transfer.Failure

/-!
Places that bytes go to.

One call of `accept` may take only part of what it is offered, or fail. `writeAll` calls it until
everything is taken: an interruption is tried again, and a sink that takes nothing ends the write.
-/

namespace SealedStream

class Sink (τ : Type) where
  /-- Offers bytes; the answer says how many of them, from the front, were taken. -/
  accept : Bytes → τ → Except Failure Nat × τ
  /-- How many more calls of `accept` may end as interrupted. -/
  interruptions : τ → Nat

namespace Sink

variable {τ : Type} [Sink τ]

/-- Writes by at most `calls` calls of `accept`. -/
def writeWithin : (calls : Nat) → Bytes → τ → Except Failure Unit × τ
  | _, [], t => (.ok (), t)
  | 0, _ :: _, t => (.error (.ofKind .interrupted), t)
  | n + 1, b :: bs, t =>
    match accept (b :: bs) t with
    | (.ok 0, t) => (.error (.ofKind .writeZero), t)
    | (.ok (k + 1), t) => writeWithin n (bs.drop k) t
    | (.error e, t) => if e.kind = .interrupted then writeWithin n (b :: bs) t else (.error e, t)

/-- Writes all of `bs`. Every call takes a byte or is one of the interruptions to come, so the
calls suffice. -/
def writeAll (bs : Bytes) (t : τ) : Except Failure Unit × τ :=
  writeWithin (bs.length + interruptions t) bs t

/-- Writes the pieces in turn, up to the first that fails. -/
def writeEach : List Bytes → τ → Except Failure Unit × τ
  | [], t => (.ok (), t)
  | bs :: rest, t =>
    match writeAll bs t with
    | (.ok (), t) => writeEach rest t
    | (.error e, t) => (.error e, t)

end Sink

/-- Takes everything and keeps it. -/
structure Buffer where
  bytes : Bytes
  deriving DecidableEq, Repr

instance : Sink Buffer where
  accept bs t := (.ok bs.length, ⟨t.bytes ++ bs⟩)
  interruptions _ := 0

/-- Takes everything and keeps nothing. -/
structure Discard where
  deriving DecidableEq, Repr

instance : Sink Discard where
  accept bs t := (.ok bs.length, t)
  interruptions _ := 0

/-- Keeps what it takes: at most `chunk` bytes a call and `limit` bytes in all, where these are
given. It fails as full when it can take no byte of an offer that has some. -/
structure Limited where
  chunk : Option Nat
  limit : Option Nat
  kept : Array UInt8
  deriving DecidableEq, Repr

namespace Limited

/-- What has been taken. -/
def taken (t : Limited) : Bytes := t.kept.toList

/-- As much of an offer, from the front, as the next call takes. -/
def share (t : Limited) (bs : Bytes) : Bytes :=
  let bs := match t.chunk with
    | some c => bs.take c
    | none => bs
  match t.limit with
  | some l => bs.take (l - t.kept.size)
  | none => bs

end Limited

instance : Sink Limited where
  accept bs t :=
    let piece := t.share bs
    if piece.isEmpty ∧ ¬bs.isEmpty then (.error (.ofKind .storageFull), t)
    else (.ok piece.length, { t with kept := t.kept ++ piece })
  interruptions _ := 0

end SealedStream
