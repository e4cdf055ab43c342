import SealedStream.Hash

/-!
The running hash over the items of a stream.

An item's hash covers its two payloads, each behind its length. The running hash after an item is
the digest of the running hash before it followed by the item's hash.
-/

namespace SealedStream

/-- A transaction and the record of its execution; both are opaque bytes, and kept packed. -/
structure Item where
  packedTransaction : ByteArray
  packedRecord : ByteArray

namespace Item

def of (transaction record : Bytes) : Item := ⟨⟨⟨transaction⟩⟩, ⟨⟨record⟩⟩⟩

def transaction (i : Item) : Bytes := i.packedTransaction.data.toList

def record (i : Item) : Bytes := i.packedRecord.data.toList

@[simp] theorem transaction_of (transaction record : Bytes) :
    (of transaction record).transaction = transaction := rfl

@[simp] theorem record_of (transaction record : Bytes) :
    (of transaction record).record = record := rfl

@[ext] theorem ext {i j : Item} (ht : i.transaction = j.transaction) (hr : i.record = j.record) :
    i = j :=
  show of i.transaction i.record = of j.transaction j.record by rw [ht, hr]

instance : DecidableEq Item := fun i j =>
  decidable_of_iff (i.transaction = j.transaction ∧ i.record = j.record)
    ⟨fun h => ext h.1 h.2, fun h => h ▸ ⟨rfl, rfl⟩⟩

/-- A length as a 32-bit number. -/
def lengthField (bs : Bytes) : Bytes := Bytes.ofInt32 (Int32.ofNat bs.length)

/-- What the hash of an item is taken of. -/
def image (i : Item) : Bytes :=
  lengthField i.transaction ++ i.transaction ++ (lengthField i.record ++ i.record)

def hash (i : Item) : Hash := Hash.digest i.image

end Item

/-- Why a stretch of the chain is refused. -/
inductive ChainError where
  | brokenLink (index : Nat)
  | endMismatch (expected computed : Hash)
  deriving DecidableEq

def ChainError.message : ChainError → String
  | .brokenLink i =>
    s!"broken link at segment {i}: start hash does not match previous end hash"
  | .endMismatch expected computed =>
    s!"end hash mismatch: expected {expected.toHex}, computed {computed.toHex}"

namespace RunningHash

/-- The running hash after an item's hash has been folded in. -/
def combine (before item : Hash) : Hash := Hash.digest (before.bytes ++ item.bytes)

def advance (before : Hash) (i : Item) : Hash := combine before i.hash

/-- The running hash after all of `items`. -/
def after (start : Hash) (items : List Item) : Hash := items.foldl advance start

@[simp] theorem after_nil (start : Hash) : after start [] = start := rfl

@[simp] theorem after_cons (start : Hash) (i : Item) (items : List Item) :
    after start (i :: items) = after (advance start i) items := rfl

theorem after_append (start : Hash) (xs ys : List Item) :
    after start (xs ++ ys) = after (after start xs) ys := by
  simp [after, List.foldl_append]

/-- The items lead from the one hash to the other. -/
def verify (start : Hash) (items : List Item) (finish : Hash) : Except ChainError Unit :=
  if after start items = finish then .ok () else .error (.endMismatch finish (after start items))

/-- A stretch of the chain: the running hashes before its first and after its last item. -/
structure Segment where
  start : Hash
  finish : Hash
  deriving DecidableEq

/-- Each segment after `previous` starts where the one before it ended; `index` counts them. -/
def continuesFrom (previous : Segment) : (index : Nat) → List Segment → Except ChainError Unit
  | _, [] => .ok ()
  | index, s :: rest =>
    if s.start = previous.finish then continuesFrom s (index + 1) rest
    else .error (.brokenLink index)

/-- Consecutive segments meet. -/
def verifyContinuity : List Segment → Except ChainError Unit
  | [] => .ok ()
  | s :: rest => continuesFrom s 1 rest

end RunningHash

end SealedStream
