import SealedStream.Sha2.Digest

/-!
A SHA-2 digest fed piece by piece.

Whole blocks are folded in as they arrive, so only a partial block is kept. How the message was
cut into pieces does not matter (`update_append`, `finish_update`).
-/

namespace SealedStream.Sha2

/-- The state after some of a message. -/
structure Hasher where
  lanes : Lanes
  /-- The bytes after the last whole block. -/
  pending : Bytes
  /-- How many bytes have been fed in all. -/
  fed : Nat
  deriving DecidableEq, Repr

namespace Hasher

def start (lanes : Lanes) : Hasher := ⟨lanes, [], 0⟩

/-- A fresh 384-bit digest. -/
def new384 : Hasher := start start384

def update (s : Hasher) (piece : Bytes) : Hasher :=
  let (lanes, pending) := absorb s.lanes (s.pending ++ piece)
  ⟨lanes, pending, s.fed + piece.length⟩

/-- The chaining value of the padded message. -/
def finish (s : Hasher) : Lanes := (absorb s.lanes (s.pending ++ padding s.fed)).1

/-- The 384-bit digest of everything fed so far. -/
def digest384 (s : Hasher) : Bytes := s.finish.toBytes.take 48

end Hasher

theorem absorb_of_short {s : Lanes} {bs : Bytes} (h : bs.length < blockSize) :
    absorb s bs = (s, bs) := by
  have : ¬(bs.take blockSize).length = blockSize := by
    rw [List.length_take]; omega
  rw [absorb, dif_neg this]

theorem absorb_of_block {s : Lanes} {bs : Bytes} (h : blockSize ≤ bs.length) :
    absorb s bs = absorb (compress s (bs.take blockSize)) (bs.drop blockSize) := by
  have : (bs.take blockSize).length = blockSize := by
    rw [List.length_take]; omega
  rw [absorb, dif_pos this]

/-- What a piece leaves over can be put in front of the next piece. -/
theorem absorb_append (s : Lanes) (x y : Bytes) :
    absorb s (x ++ y) = absorb (absorb s x).1 ((absorb s x).2 ++ y) := by
  rcases Nat.lt_or_ge x.length blockSize with h | h
  · rw [absorb_of_short h]
  · have ht : (x ++ y).take blockSize = x.take blockSize := List.take_append_of_le_length h
    have hd : (x ++ y).drop blockSize = x.drop blockSize ++ y := List.drop_append_of_le_length h
    rw [absorb_of_block (by simp; omega), ht, hd, absorb_of_block h, absorb_append]
termination_by x.length
decreasing_by simp [blockSize] at h ⊢; omega

namespace Hasher

theorem update_append (s : Hasher) (x y : Bytes) : (s.update x).update y = s.update (x ++ y) := by
  simp only [update, List.length_append, ← List.append_assoc]
  rw [absorb_append s.lanes (s.pending ++ x) y, Nat.add_assoc]

theorem finish_update (lanes : Lanes) (message : Bytes) :
    ((start lanes).update message).finish = chain lanes message := by
  simp only [start, update, finish, chain, List.nil_append, Nat.zero_add]
  rw [← absorb_append]

theorem finish_foldl_update (lanes : Lanes) (pieces : List Bytes) :
    (pieces.foldl update (start lanes)).finish = chain lanes pieces.flatten := by
  have key : ∀ (ps : List Bytes) (acc : Bytes),
      ps.foldl update ((start lanes).update acc) = (start lanes).update (acc ++ ps.flatten) := by
    intro ps
    induction ps with
    | nil => simp
    | cons p ps ih => intro acc; rw [List.foldl_cons, update_append, ih]; simp
  cases pieces with
  | nil => simp [start, finish, chain]
  | cons p ps => rw [List.foldl_cons, key, finish_update, List.flatten_cons]

end Hasher

end SealedStream.Sha2
