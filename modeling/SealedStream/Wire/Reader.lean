import SealedStream.Hash

/-!
Reading the fields of a file image from the front.

A reader takes bytes off the image and knows how many have gone before; every error names the
place at which the image goes wrong.
-/

namespace SealedStream

/-- Why an image is refused. Offsets count bytes from the front of the image. -/
inductive DecodeError where
  | truncated (offset needed : Nat)
  | unknownTag (offset : Nat) (tag : UInt8)
  | negativeLength (offset : Nat) (length : Int32)
  | hashLength (offset expected actual : Nat)
  | unknownScheme (id : Int32)
  | checksumMismatch (expected actual : Int32)
  | trailingBytes (remaining : Nat)
  | value (e : ValueError)
  deriving DecidableEq, Repr

def DecodeError.message : DecodeError → String
  | .truncated offset needed =>
    s!"truncated input at offset {offset}: needed {needed} more bytes"
  | .unknownTag offset tag => s!"unknown section tag 0x{Hex.encode [tag]} at offset {offset}"
  | .negativeLength offset length => s!"negative length {length} at offset {offset}"
  | .hashLength offset expected actual =>
    s!"hash length {actual} at offset {offset} does not match digest length {expected}"
  | .unknownScheme id => s!"unknown signature type id {id}"
  | .checksumMismatch expected actual =>
    s!"signature checksum mismatch: expected {expected}, found {actual}"
  | .trailingBytes remaining => s!"{remaining} trailing bytes after end of file"
  | .value e => e.message

/-- What is left of an image, and how much of it has been read. -/
structure Cursor where
  rest : Bytes
  offset : Nat
  deriving DecidableEq, Repr

abbrev Reader := StateT Cursor (Except DecodeError)

namespace Reader

def position : Reader Nat := fun c => .ok (c.offset, c)

def fail {α : Type} (e : DecodeError) : Reader α := fun _ => .error e

/-- The next `n` bytes. -/
def take (n : Nat) : Reader Bytes := fun c =>
  let bs := c.rest.take n
  if bs.length = n then .ok (bs, ⟨c.rest.drop n, c.offset + n⟩)
  else .error (.truncated c.offset (n - bs.length))

def byte : Reader UInt8 := do
  let bs ← take 1
  return bs.headD 0

def int32 : Reader Int32 := do
  let bs ← take 4
  return Bytes.toInt32 bs

def int64 : Reader Int64 := do
  let bs ← take 8
  return Bytes.toInt64 bs

/-- A length, which is not negative. -/
def length : Reader Nat := do
  let offset ← position
  let n ← int32
  if n < 0 then fail (.negativeLength offset n) else return n.toInt.toNat

/-- A byte string behind its length. -/
def payload : Reader Bytes := do
  let n ← length
  take n

def ofValue {α : Type} : Except ValueError α → Reader α
  | .ok a => pure a
  | .error e => fail (.value e)

/-- A digest behind the number of its algorithm and its length. -/
def hash : Reader Hash := do
  let id ← int32
  let kind ← ofValue (DigestKind.ofId id)
  let offset ← position
  let n ← length
  if n ≠ kind.length then fail (.hashLength offset kind.length n)
  else
    let bs ← take n
    ofValue (Hash.ofBytes bs)

/-- Nothing may be left. -/
def done : Reader Unit := fun c =>
  if c.rest = [] then .ok ((), c) else .error (.trailingBytes c.rest.length)

/-- Reads a whole image. -/
def run {α : Type} (r : Reader α) (image : Bytes) : Except DecodeError α :=
  ((do let a ← r; done; return a : Reader α) ⟨image, 0⟩).map Prod.fst

/-- What is left after a read is not longer than what was there before. -/
def Advances {α : Type} (r : Reader α) : Prop :=
  ∀ ⦃c a c'⦄, r c = .ok (a, c') → c'.rest.length ≤ c.rest.length

theorem bind_eq_ok {α β : Type} {r : Reader α} {f : α → Reader β} {c c' : Cursor} {b : β} :
    (r >>= f) c = .ok (b, c') ↔ ∃ a d, r c = .ok (a, d) ∧ f a d = .ok (b, c') := by
  show (r c >>= fun p => f p.1 p.2) = _ ↔ _
  cases h : r c with
  | error e => simp [bind, Except.bind]
  | ok p =>
    obtain ⟨a, d⟩ := p
    constructor
    · intro hf; exact ⟨a, d, rfl, hf⟩
    · rintro ⟨_, _, he, hf⟩; cases he; exact hf

theorem pure_eq_ok {α : Type} {a b : α} {c c' : Cursor} :
    (pure a : Reader α) c = .ok (b, c') ↔ a = b ∧ c = c' := by
  show Except.ok (a, c) = _ ↔ _
  simp

theorem take_eq_ok {n : Nat} {c c' : Cursor} {bs : Bytes} (h : take n c = .ok (bs, c')) :
    c'.rest.length + n = c.rest.length := by
  simp only [take] at h
  split at h
  · rename_i hl
    simp only [Except.ok.injEq, Prod.mk.injEq] at h
    obtain ⟨-, rfl⟩ := h
    simp only [List.length_take, List.length_drop] at hl ⊢
    omega
  · cases h

theorem advances_bind {α β : Type} {r : Reader α} {f : α → Reader β} (hr : Advances r)
    (hf : ∀ a, Advances (f a)) : Advances (r >>= f) := by
  intro c b c' h
  obtain ⟨a, d, h1, h2⟩ := bind_eq_ok.1 h
  exact Nat.le_trans (hf a h2) (hr h1)

theorem advances_pure {α : Type} (a : α) : Advances (pure a) := by
  intro c b c' h
  obtain ⟨-, rfl⟩ := pure_eq_ok.1 h
  exact Nat.le_refl _

theorem advances_fail {α : Type} (e : DecodeError) : Advances (fail e : Reader α) := by
  intro c b c' h; cases h

theorem advances_take (n : Nat) : Advances (take n) := by
  intro c bs c' h
  have := take_eq_ok h
  omega

theorem advances_position : Advances position := by
  intro c a c' h; cases h; exact Nat.le_refl _

theorem advances_int32 : Advances int32 :=
  advances_bind (advances_take 4) fun _ => advances_pure _

theorem advances_length : Advances length :=
  advances_bind advances_position fun _ => advances_bind advances_int32 fun n => by
    by_cases h : n < 0
    · simp only [h, if_true]; exact advances_fail _
    · simp only [h, if_false]; exact advances_pure _

theorem advances_payload : Advances payload :=
  advances_bind advances_length advances_take

end Reader

end SealedStream
