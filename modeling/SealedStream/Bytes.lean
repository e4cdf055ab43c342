/-!
Byte strings and big-endian numbers.
-/

namespace SealedStream

abbrev Bytes := List UInt8

namespace Bytes

/-- The last `k` base-256 digits of `n`, most significant first. -/
def ofNatBE : (k : Nat) → (n : Nat) → Bytes
  | 0, _ => []
  | k + 1, n => ofNatBE k (n / 256) ++ [UInt8.ofNat n]

/-- The number that a byte string denotes, most significant byte first. -/
def toNatBE (bs : Bytes) : Nat := bs.foldl (fun n b => n * 256 + b.toNat) 0

/-- The number that a byte string denotes, least significant byte first. -/
def toNatLE (bs : Bytes) : Nat := bs.foldr (fun b n => b.toNat + 256 * n) 0

/-- The first `k` base-256 digits of `n`, least significant first. -/
def ofNatLE (k n : Nat) : Bytes := (ofNatBE k n).reverse

def ofInt32 (x : Int32) : Bytes := ofNatBE 4 x.toUInt32.toNat
def ofInt64 (x : Int64) : Bytes := ofNatBE 8 x.toUInt64.toNat
def ofUInt64 (x : UInt64) : Bytes := ofNatBE 8 x.toNat

def toInt32 (bs : Bytes) : Int32 := (UInt32.ofNat (toNatBE bs)).toInt32
def toInt64 (bs : Bytes) : Int64 := (UInt64.ofNat (toNatBE bs)).toInt64

@[simp] theorem length_ofNatBE (k n : Nat) : (ofNatBE k n).length = k := by
  induction k generalizing n with
  | zero => rfl
  | succ k ih => simp [ofNatBE, ih]

@[simp] theorem length_ofNatLE (k n : Nat) : (ofNatLE k n).length = k := by simp [ofNatLE]

@[simp] theorem length_ofInt32 (x : Int32) : (ofInt32 x).length = 4 := by simp [ofInt32]

@[simp] theorem length_ofInt64 (x : Int64) : (ofInt64 x).length = 8 := by simp [ofInt64]

@[simp] theorem length_ofUInt64 (x : UInt64) : (ofUInt64 x).length = 8 := by simp [ofUInt64]

end Bytes

end SealedStream
