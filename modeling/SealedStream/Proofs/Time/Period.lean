import SealedStream.Proofs.Time.Line
import SealedStream.Time.Period

/-!
Periods tile the line of nanoseconds.

The index of a period is the floor of the nanoseconds by the length, kept within 64 bits. It is
reached by numbers of 128 bits, none of which overflows.
-/

namespace SealedStream

/-- A number of 128 bits, with sign. -/
structure Wide where
  val : ℤ
  lower : -2 ^ 127 ≤ val
  upper : val < 2 ^ 127

namespace Wide

def ofInt? (n : ℤ) : Option Wide :=
  if h : -2 ^ 127 ≤ n ∧ n < 2 ^ 127 then some ⟨n, h.1, h.2⟩ else none

def ofInt64 (x : Int64) : Wide :=
  ⟨x.toInt, by have := x.le_toInt; omega, by have := x.toInt_lt; omega⟩

def ofUInt64 (x : UInt64) : Wide := ⟨x.toNat, by omega, by have := x.toNat_lt; omega⟩

def ofUInt32 (x : UInt32) : Wide := ⟨x.toNat, by omega, by have := x.toNat_lt; omega⟩

@[simp] lemma val_ofInt64 (x : Int64) : (ofInt64 x).val = x.toInt := rfl

def add? (x y : Wide) : Option Wide := ofInt? (x.val + y.val)

def mul? (x y : Wide) : Option Wide := ofInt? (x.val * y.val)

/-- The quotient with a remainder that is not negative; there is none by zero. -/
def div? (x y : Wide) : Option Wide := if y.val = 0 then none else ofInt? (x.val / y.val)

def clamp (x low high : Wide) : Wide :=
  if x.val < low.val then low else if high.val < x.val then high else x

def toInt64? (x : Wide) : Option Int64 :=
  if Fits64 x.val then some (Int64.ofInt x.val) else none

variable {x y : Wide} {n : ℤ}

/-- The operation has a result, which is the exact one. -/
def Exact (r : Option Wide) (n : ℤ) : Prop := ∃ w, r = some w ∧ w.val = n

lemma exact_ofInt? (h : -2 ^ 127 ≤ n ∧ n < 2 ^ 127) : Exact (ofInt? n) n :=
  ⟨⟨n, h.1, h.2⟩, dif_pos h, rfl⟩

lemma exact_div? (hy : 0 < y.val) : Exact (x.div? y) (x.val / y.val) := by
  -- the one size that fits below zero only is that of the lower bound
  have hle := Int.natAbs_ediv_le_natAbs x.val y.val
  have hsign : x.val < 0 → x.val / y.val < 0 := fun h => Int.ediv_neg_of_neg_of_pos h hy
  have hlow := x.lower
  have hhigh := x.upper
  rw [div?, if_neg (by omega)]
  exact exact_ofInt? (by omega)

lemma toInt64?_ofInt64 (x : Int64) : (ofInt64 x).toInt64? = some x := by
  rw [toInt64?, val_ofInt64, if_pos (fits64_toInt x), Int64.ofInt_toInt]

lemma toInt64?_clamp (x : Wide) :
    (x.clamp (ofInt64 Int64.minValue) (ofInt64 Int64.maxValue)).toInt64? =
      some (clamp64 x.val) := by
  by_cases hlow : x.val < (ofInt64 Int64.minValue).val
  · have hclamp : clamp64 x.val = Int64.minValue := if_pos hlow
    rw [clamp, if_pos hlow, hclamp, toInt64?_ofInt64]
  · by_cases hhigh : (ofInt64 Int64.maxValue).val < x.val
    · have hclamp : clamp64 x.val = Int64.maxValue := (if_neg hlow).trans (if_pos hhigh)
      rw [clamp, if_neg hlow, if_pos hhigh, hclamp, toInt64?_ofInt64]
    · have hclamp : clamp64 x.val = Int64.ofInt x.val := (if_neg hlow).trans (if_neg hhigh)
      have hfits : Fits64 x.val := ⟨Int.not_lt.mp hlow, Int.not_lt.mp hhigh⟩
      rw [clamp, if_neg hlow, if_neg hhigh, hclamp, toInt64?, if_pos hfits]

end Wide

namespace Timestamp

/-- Milliseconds since the epoch, step by step in 128 bits. -/
def epochMillis? (t : Timestamp) : Option Wide := do
  let whole ← (Wide.ofInt64 t.seconds).mul? (.ofUInt32 1000)
  whole.add? (.ofUInt32 (t.nanos / 1000000))

/-- The index of the period, step by step in 128 bits. -/
def periodIn? (t : Timestamp) (millis : UInt64) : Option Int64 := do
  let total ← t.epochMillis?
  let period ← total.div? (.ofUInt64 millis)
  (period.clamp (.ofInt64 Int64.minValue) (.ofInt64 Int64.maxValue)).toInt64?

lemma exact_epochMillis? (t : Timestamp) : Wide.Exact t.epochMillis? t.epochMillis := by
  have hlow := t.seconds.le_toInt
  have hhigh := t.seconds.toInt_lt
  have hnanos := t.nanos.toNat_lt
  obtain ⟨whole, hwhole, hval⟩ : Wide.Exact
      ((Wide.ofInt64 t.seconds).mul? (.ofUInt32 1000)) (t.seconds.toInt * 1000) :=
    Wide.exact_ofInt? (n := t.seconds.toInt * 1000) (by omega)
  obtain ⟨total, htotal, hsum⟩ : Wide.Exact (whole.add? (.ofUInt32 (t.nanos / 1000000)))
      (whole.val + (t.nanos.toNat / 1000000 : ℕ)) :=
    Wide.exact_ofInt? (n := whole.val + (t.nanos.toNat / 1000000 : ℕ)) (by omega)
  refine ⟨total, ?_, by rw [hsum, hval]; rfl⟩
  rw [epochMillis?, hwhole]
  exact htotal

/-- **No step overflows**, and the index is what the steps come to. -/
lemma periodIn?_eq (t : Timestamp) {millis : UInt64} (h : millis ≠ 0) :
    t.periodIn? millis = some (t.periodIn millis) := by
  have hpos : 0 < (Wide.ofUInt64 millis).val := by
    have hne : millis.toNat ≠ 0 := fun h0 => h (UInt64.toNat_inj.mp h0)
    show (0 : ℤ) < millis.toNat
    omega
  obtain ⟨total, htotal, hval⟩ := t.exact_epochMillis?
  obtain ⟨period, hperiod, hquot⟩ := Wide.exact_div? (x := total) hpos
  rw [periodIn?, htotal, Option.bind_eq_bind, Option.bind_some, hperiod, Option.bind_some,
    Wide.toInt64?_clamp, hquot, hval]
  rfl

def index (t : Timestamp) (millis : UInt64) : ℤ := t.epochNanos / (millis.toNat * 1000000)

lemma index_eq (t : Timestamp) (millis : UInt64) :
    t.index millis = t.epochMillis / (millis.toNat : ℤ) := by
  rw [index, epochMillis_eq, Int.ediv_ediv_of_nonneg (by decide), Int.mul_comm]

lemma periodIn_eq (t : Timestamp) (millis : UInt64) :
    t.periodIn millis = clamp64 (t.index millis) := by
  rw [periodIn, index_eq]

end Timestamp

namespace PeriodClock

variable (c : PeriodClock)

lemma millis_pos : (0 : ℤ) < c.millis.toNat := by
  have hne : c.millis.toNat ≠ 0 := fun h => c.positive (UInt64.toNat_inj.mp h)
  omega

lemma period_mono {a b : Timestamp} (ha : a.Normal) (hb : b.Normal) (h : a ≤ b) :
    c.period a ≤ c.period b := by
  show a.periodIn c.millis ≤ b.periodIn c.millis
  rw [Timestamp.periodIn, Timestamp.periodIn]
  exact clamp64_mono (Int.ediv_le_ediv c.millis_pos (ha.epochMillis_mono hb h))

/-- Where a clock puts a timestamp. -/
structure Places (t : Timestamp) : Prop where
  /-- An index that fits is the period, and the timestamp lies in it. -/
  within : Fits64 (t.index c.millis) → (c.period t).toInt = t.index c.millis ∧
    t.index c.millis * c.millis.toNat ≤ t.epochMillis ∧
      t.epochMillis < (t.index c.millis + 1) * c.millis.toNat
  early : t.index c.millis < Int64.minValue.toInt → c.period t = Int64.minValue
  late : Int64.maxValue.toInt < t.index c.millis → c.period t = Int64.maxValue
  /-- The period is found in 128 bits without an overflow. -/
  computed : t.periodIn? c.millis = some (c.period t)

lemma places (t : Timestamp) : c.Places t where
  within h := by
    refine ⟨?_, ?_, ?_⟩
    · rw [period, Timestamp.periodIn_eq, toInt_clamp64_of_fits h]
    · rw [Timestamp.index_eq]
      exact Int.ediv_mul_le _ (Int.ne_of_gt c.millis_pos)
    · rw [Timestamp.index_eq]
      exact Int.lt_ediv_add_one_mul_self _ c.millis_pos
  early h := by rw [period, Timestamp.periodIn_eq, clamp64, if_pos h]
  late h := by
    have hmin : Int64.minValue.toInt ≤ Int64.maxValue.toInt := by decide
    rw [period, Timestamp.periodIn_eq, clamp64, if_neg (by omega), if_pos h]
  computed := t.periodIn?_eq c.positive

/-- **Periods tile the line.** A timestamp is in the period of its index, or in the last one on its
side; later timestamps are in no earlier periods, so that what lies between two timestamps of a
period is in it too. -/
theorem tiles_line :
    (∀ t, c.Places t) ∧
      (∀ {a b : Timestamp}, a.Normal → b.Normal → a ≤ b → c.period a ≤ c.period b) ∧
      ∀ {a b d : Timestamp}, a.Normal → b.Normal → d.Normal → a ≤ b → b ≤ d →
        c.samePeriod a d = true → c.samePeriod a b = true := by
  refine ⟨c.places, c.period_mono, ?_⟩
  intro a b d ha hb hd hab hbd hsame
  have had : c.period a = c.period d := of_decide_eq_true hsame
  have hle : c.period b ≤ c.period a := had ▸ c.period_mono hb hd hbd
  exact decide_eq_true (Int64.le_antisymm (c.period_mono ha hb hab) hle)

/-- In periods of two seconds, up to the last nanosecond before the epoch; and in periods of a
millisecond, beyond the last index. -/
theorem tiles_line_ends :
    (Timestamp.Normal ⟨-2, 0⟩ ∧ Timestamp.Normal ⟨-1, 5⟩ ∧ Timestamp.Normal ⟨-1, 999999999⟩ ∧
        (⟨-2, 0⟩ : Timestamp) ≤ ⟨-1, 5⟩ ∧ (⟨-1, 5⟩ : Timestamp) ≤ ⟨-1, 999999999⟩ ∧
        samePeriod ⟨2000, by decide⟩ ⟨-2, 0⟩ ⟨-1, 999999999⟩ = true ∧
        Fits64 (Timestamp.index ⟨-1, 5⟩ 2000) ∧
        Int64.maxValue.toInt < Timestamp.index ⟨Int64.maxValue, 999999999⟩ 1) ∧
      samePeriod ⟨2000, by decide⟩ ⟨-2, 0⟩ ⟨-1, 5⟩ = true ∧
      period ⟨2000, by decide⟩ ⟨-2, 0⟩ ≤ period ⟨2000, by decide⟩ ⟨-1, 5⟩ ∧
      (period ⟨2000, by decide⟩ ⟨-1, 5⟩).toInt = Timestamp.index ⟨-1, 5⟩ 2000 ∧
      period ⟨1, by decide⟩ ⟨Int64.maxValue, 999999999⟩ = Int64.maxValue := by
  have hfits : Fits64 (Timestamp.index ⟨-1, 5⟩ 2000) := by decide
  have hlate : Int64.maxValue.toInt < Timestamp.index ⟨Int64.maxValue, 999999999⟩ 1 := by decide
  obtain ⟨hplaces, hmono, hsame⟩ := tiles_line ⟨2000, by decide⟩
  refine ⟨⟨by decide, by decide, by decide, by decide, by decide, by decide, hfits, hlate⟩,
    hsame (d := ⟨-1, 999999999⟩) (by decide) (by decide) (by decide) (by decide) (by decide)
      (by decide),
    hmono (by decide) (by decide) (by decide), ((hplaces ⟨-1, 5⟩).within hfits).1,
    ((tiles_line ⟨1, by decide⟩).1 ⟨Int64.maxValue, 999999999⟩).late hlate⟩

end PeriodClock

end SealedStream
