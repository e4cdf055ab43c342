import Mathlib.Algebra.Ring.Int.Defs
import SealedStream.Proofs.Time.Order

/-!
Timestamps on the line of nanoseconds.

Where the nanosecond parts stay below a second, the order of timestamps is the order of this line.
-/

namespace SealedStream

/-! ### The nearest 64-bit integer -/

def Fits64 (n : ℤ) : Prop := Int64.minValue.toInt ≤ n ∧ n ≤ Int64.maxValue.toInt

instance (n : ℤ) : Decidable (Fits64 n) := inferInstanceAs (Decidable (_ ∧ _))

lemma fits64_iff {n : ℤ} : Fits64 n ↔ -2 ^ 63 ≤ n ∧ n ≤ 2 ^ 63 - 1 := Iff.rfl

lemma fits64_toInt (x : Int64) : Fits64 x.toInt := by
  have hlow := x.le_toInt
  have hhigh := x.toInt_lt
  rw [fits64_iff]
  omega

lemma toInt_clamp64 (n : ℤ) : (clamp64 n).toInt = max (-2 ^ 63) (min n (2 ^ 63 - 1)) := by
  have hmin : Int64.minValue.toInt = -2 ^ 63 := rfl
  have hmax : Int64.maxValue.toInt = 2 ^ 63 - 1 := rfl
  unfold clamp64
  split
  · omega
  · split
    · omega
    · rw [Int64.toInt_ofInt_of_le] <;> omega

lemma toInt_clamp64_of_fits {n : ℤ} (h : Fits64 n) : (clamp64 n).toInt = n := by
  rw [fits64_iff] at h
  rw [toInt_clamp64]
  omega

@[simp] lemma clamp64_toInt (x : Int64) : clamp64 x.toInt = x :=
  Int64.toInt_inj.mp (toInt_clamp64_of_fits (fits64_toInt x))

lemma clamp64_mono {m n : ℤ} (h : m ≤ n) : clamp64 m ≤ clamp64 n := by
  rw [Int64.le_iff_toInt_le, toInt_clamp64, toInt_clamp64]
  omega

namespace Timestamp

variable {a b : Timestamp}

/-! ### The order -/

lemma le_iff : a ≤ b ↔ a.seconds.toInt < b.seconds.toInt ∨
    a.seconds.toInt = b.seconds.toInt ∧ a.nanos.toNat ≤ b.nanos.toNat := by
  show (compare a b).isLE = true ↔ _
  rw [compare_eq, Ordering.isLE_then_iff_or, Std.compare_eq_lt, Std.LawfulEqCmp.compare_eq_iff_eq,
    Std.isLE_compare, Int64.lt_iff_toInt_lt, ← Int64.toInt_inj, UInt32.le_iff_toNat_le]

/-- **The order is that of the line.** -/
lemma Normal.le_iff (ha : a.Normal) (hb : b.Normal) : a ≤ b ↔ a.epochNanos ≤ b.epochNanos := by
  unfold Normal nanosPerSecond at ha hb
  rw [Timestamp.le_iff]
  unfold epochNanos nanosPerSecond
  omega

lemma epochMillis_eq (t : Timestamp) : t.epochMillis = t.epochNanos / 1000000 := by
  unfold epochMillis epochNanos nanosPerSecond
  omega

lemma Normal.epochMillis_mono (ha : a.Normal) (hb : b.Normal) (h : a ≤ b) :
    a.epochMillis ≤ b.epochMillis := by
  rw [epochMillis_eq, epochMillis_eq]
  exact Int.ediv_le_ediv (by decide) ((ha.le_iff hb).mp h)

end Timestamp

end SealedStream
