import Mathlib.Data.Int.Notation
import Mathlib.Tactic.Common
import SealedStream.Time.Calendar

/-!
The calendar is exact: the day of a date that was made from a day is that day.
-/

namespace SealedStream.Date

lemma yearOfEra_lt {doe : ℕ} (h : doe < 146097) : yearOfEra doe < 400 := by
  unfold yearOfEra
  omega

lemma yearOfEra_mono {d e : ℕ} (h : d ≤ e) (he : e < 146097) : yearOfEra d ≤ yearOfEra e := by
  have h4 : ∀ a b : ℕ, a ≤ b → a - a / 1460 ≤ b - b / 1460 := by omega
  have h100 : d / 36524 ≤ e / 36524 := Nat.div_le_div_right h
  have h4' := h4 d e h
  refine Nat.div_le_div_right ?_
  rcases Nat.lt_or_ge e 146096 with hlt | hge
  · rw [Nat.div_eq_of_lt hlt, Nat.div_eq_of_lt (Nat.lt_of_le_of_lt h hlt)]
    omega
  · obtain rfl : e = 146096 := by omega
    rcases Nat.lt_or_ge d 146096 with hd | hd
    · have := h4 d 146095 (by omega)
      rw [Nat.div_eq_of_lt hd]
      omega
    · obtain rfl : d = 146096 := by omega
      exact Nat.le_refl _

lemma yearOfEra_yearStart {y : ℕ} (hy : y < 400) :
    yearOfEra (yearStart y) = y ∧ (y = 0 ∨ yearOfEra (yearStart y - 1) < y) := by
  have h : ((List.range 400).all fun y => yearOfEra (yearStart y) = y ∧
      (y = 0 ∨ yearOfEra (yearStart y - 1) < y)) = true := by
    decide +kernel
  rw [List.all_eq_true] at h
  simpa using h y (List.mem_range.mpr hy)

lemma yearStart_le {doe : ℕ} (h : doe < 146097) :
    yearStart (yearOfEra doe) ≤ doe ∧ doe < yearStart (yearOfEra doe) + 366 := by
  have hy := yearOfEra_lt h
  obtain ⟨-, hbefore⟩ := yearOfEra_yearStart hy
  constructor
  · by_contra hlt
    have hpos : yearOfEra doe ≠ 0 := by
      intro h0
      rw [h0] at hlt
      simp [yearStart] at hlt
    have hstart : yearStart (yearOfEra doe) ≤ 146097 := by
      unfold yearStart
      omega
    have := yearOfEra_mono (show doe ≤ yearStart (yearOfEra doe) - 1 by omega) (by omega)
    have := hbefore.resolve_left hpos
    omega
  · by_contra hge
    have hnext : yearStart (yearOfEra doe + 1) ≤ yearStart (yearOfEra doe) + 366 := by
      unfold yearStart
      omega
    rcases Nat.lt_or_ge (yearOfEra doe + 1) 400 with hlt | hlast
    · have := yearOfEra_mono (show yearStart (yearOfEra doe + 1) ≤ doe by omega) h
      rw [(yearOfEra_yearStart hlt).1] at this
      omega
    · obtain hlast : yearOfEra doe = 399 := by omega
      rw [hlast] at hge
      simp [yearStart] at hge
      omega

/-- **No two days have the same date.** -/
theorem days_ofDays (d : ℤ) : (ofDays d).days = d := by
  have hdoe : ((d + epochDay) % eraDays).toNat < 146097 := by
    unfold eraDays epochDay
    omega
  have hyear := yearOfEra_lt hdoe
  obtain ⟨hstart, hend⟩ := yearStart_le hdoe
  unfold ofDays
  simp only
  have hera : (d + epochDay) / eraDays * eraDays +
      (((d + epochDay) % eraDays).toNat : ℤ) = d + epochDay := by
    unfold eraDays epochDay
    omega
  generalize ((d + epochDay) % eraDays).toNat = doe at *
  generalize (d + epochDay) / eraDays = era at *
  generalize yearOfEra doe = yoe at *
  -- the day of the year and its month
  obtain ⟨doy, hdoy⟩ : ∃ doy, doy = doe - yearStart yoe := ⟨_, rfl⟩
  rw [← hdoy]
  have hm : (5 * doy + 2) / 153 < 12 := by omega
  have hday : monthStart ((5 * doy + 2) / 153) ≤ doy := by
    unfold monthStart
    omega
  generalize (5 * doy + 2) / 153 = m at *
  have key : ∀ month : ℕ, (if month ≤ 2 then month + 9 else month - 3) = m →
      ∀ year : ℤ, (if month ≤ 2 then year - 1 else year) = yoe + 400 * era →
      days ⟨year, month, doy - monthStart m + 1⟩ = d := by
    intro month hmonth year hy
    unfold days
    simp only [hmonth, hy]
    have h1 : ((yoe : ℤ) + 400 * era) / 400 = era := by omega
    have h2 : (((yoe : ℤ) + 400 * era) % 400).toNat = yoe := by omega
    rw [h1, h2]
    omega
  split
  · exact key (m + 3) (by split <;> omega) _ (by split <;> omega)
  · exact key (m - 9) (by split <;> omega) _ (by split <;> omega)

end SealedStream.Date
