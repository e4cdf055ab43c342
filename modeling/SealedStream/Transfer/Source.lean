import SealedStream.Hash
import SealedStream.Transfer.Failure

/-!
Places that bytes come from, as the answers they will give.

A piece longer than the reader's buffer is continued by the next read. An empty piece, or the end
of the answers, is the end of the input.
-/

namespace SealedStream

/-- One answer of a source. -/
inductive Reading where
  | piece (bytes : Bytes)
  | failure (f : Failure)
  deriving DecidableEq, Repr

abbrev Source := List Reading

namespace Source

/-- One read into a buffer of `size` bytes. -/
def read (size : Nat) : Source → Except Failure Bytes × Source
  | [] => (.ok [], [])
  | .failure f :: rest => (.error f, rest)
  | .piece bs :: rest =>
    if bs.length ≤ size then (.ok bs, rest) else (.ok (bs.take size), .piece (bs.drop size) :: rest)

/-- Reads that a source can still answer, for a buffer of at least one byte. -/
def remaining : Source → Nat
  | [] => 0
  | .failure _ :: rest => 1 + remaining rest
  | .piece bs :: rest => 1 + bs.length + remaining rest

theorem remaining_read {size : Nat} (h : 0 < size) {s : Source} (hs : s ≠ []) :
    remaining (s.read size).2 < remaining s := by
  match s, hs with
  | .failure _ :: _, _ => simp [read, remaining]
  | .piece bs :: rest, _ =>
    by_cases hb : bs.length ≤ size
    · simp only [read, hb, if_true, remaining]; omega
    · simp only [read, hb, if_false, remaining, List.length_drop]; omega

/-- The buffer used for digesting: 64 KiB. -/
def bufferSize : Nat := 64 * 1024

/-- Feeds the hasher until the input ends. Interrupted reads are tried again; any other failure
ends the digest. -/
def feed (hasher : Sha2.Hasher) : Source → Except Failure Sha2.Hasher
  | [] => .ok hasher
  | r :: rest =>
    match _h : read bufferSize (r :: rest) with
    | (.ok [], _) => .ok hasher
    | (.ok (b :: bs), next) => feed (hasher.update (b :: bs)) next
    | (.error f, next) => if f.kind = .interrupted then feed hasher next else .error f
termination_by s => remaining s
decreasing_by
  all_goals
    have := remaining_read (show 0 < bufferSize by decide) (s := r :: rest) (by simp)
    rw [_h] at this
    exact this

/-- The digest of everything a source yields. -/
def digest (s : Source) : Except Failure Hash := (feed .new384 s).map Hash.ofHasher

/-- Everything a source yields, read to its end. -/
def readToEnd : Source → Except Failure Bytes
  | [] => .ok []
  | .piece [] :: _ => .ok []
  | .piece bs :: rest => (readToEnd rest).map (bs ++ ·)
  | .failure f :: rest => if f.kind = .interrupted then readToEnd rest else .error f

end Source

end SealedStream
