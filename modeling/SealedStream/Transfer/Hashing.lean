import SealedStream.Hash
import SealedStream.Transfer.Sink

/-!
A sink that digests what the sink behind it takes.
-/

namespace SealedStream

structure Hashing (τ : Type) where
  inner : τ
  hasher : Sha2.Hasher

namespace Hashing

variable {τ : Type}

def new (inner : τ) : Hashing τ := ⟨inner, .new384⟩

/-- Digests only; the bytes go nowhere. -/
def digestOnly : Hashing Discard := new ⟨⟩

/-- The digest of everything that was taken. -/
def hash (t : Hashing τ) : Hash := Hash.ofHasher t.hasher

end Hashing

/-- An offer goes to the inner sink first, and what that takes is digested. -/
instance {τ : Type} [Sink τ] : Sink (Hashing τ) where
  accept bs t :=
    match Sink.accept bs t.inner with
    | (.ok n, inner) => (.ok n, ⟨inner, t.hasher.update (bs.take n)⟩)
    | (.error e, inner) => (.error e, { t with inner })
  interruptions t := Sink.interruptions t.inner

end SealedStream
