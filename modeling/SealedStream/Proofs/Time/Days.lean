import Mathlib.Tactic.IntervalCases
import SealedStream.Proofs.Time.Calendar

/-!
The calendar is the Gregorian one, run on in both directions: from 1970-01-01, day by day, each
month has its length and each year its twelve months.
-/

namespace SealedStream.Date

/-- A day that its month has, of a month that a year has. -/
structure Valid (d : Date) : Prop where
  month : 1 ≤ d.month ∧ d.month ≤ 12
  day : 1 ≤ d.day ∧ d.day ≤ monthLength d.year d.month

def next (d : Date) : Date :=
  if d.day < monthLength d.year d.month then ⟨d.year, d.month, d.day + 1⟩
  else if d.month < 12 then ⟨d.year, d.month + 1, 1⟩
  else ⟨d.year + 1, 1, 1⟩

/-- Days are counted from 1970-01-01, forward and back. -/
inductive Falls : ℤ → Date → Prop
  | epoch : Falls 0 ⟨1970, 1, 1⟩
  | next {n : ℤ} {d : Date} : Falls n d → Falls (n + 1) d.next
  | previous {n : ℤ} {d : Date} : d.Valid → Falls (n + 1) d.next → Falls n d

variable {d : Date} {doe yoe m : ℕ}

lemma one_le_monthLength (year : ℤ) (month : ℕ) : 1 ≤ monthLength year month := by
  unfold monthLength
  split_ifs <;> decide

lemma valid_next (h : d.Valid) : d.next.Valid := by
  obtain ⟨hmonth, hday⟩ := h
  have hlength := one_le_monthLength
  unfold next
  split_ifs with hlt hmonths
  · exact ⟨hmonth, Nat.le_add_left 1 _, hlt⟩
  · exact ⟨⟨Nat.le_add_left 1 _, hmonths⟩, Nat.le_refl 1, hlength _ _⟩
  · exact ⟨⟨Nat.le_refl 1, Nat.le_add_left 1 11⟩, Nat.le_refl 1, hlength _ _⟩

/-! ### Years and months as they are reckoned -/

/-- The day of an era on which the year after its year `yoe` begins. -/
def yearEnd (yoe : ℕ) : ℕ := if yoe = 399 then 146097 else yearStart (yoe + 1)

/-- The month of the calendar that is reckoned as the month `m` of a year. -/
def monthOf (m : ℕ) : ℕ := if m < 10 then m + 3 else m - 9

lemma yearEnd_eq (h : yoe < 400) (era : ℤ) :
    yearEnd yoe = yearStart yoe + monthStart 11 + monthLength (yoe + 400 * era + 1) 2 := by
  simp only [yearEnd, yearStart, monthStart, monthLength, isLeap, if_true, Bool.and_eq_true,
    Bool.or_eq_true, decide_eq_true_eq]
  split_ifs <;> omega

lemma monthStart_succ (h : m < 11) (year : ℤ) :
    monthStart (m + 1) = monthStart m + monthLength year (monthOf m) := by
  interval_cases m <;> rfl

lemma yearOfEra_eq_iff (hdoe : doe < 146097) (hyoe : yoe < 400) :
    yearOfEra doe = yoe ↔ yearStart yoe ≤ doe ∧ doe < yearEnd yoe := by
  have hbefore (hlast : yoe ≠ 399) (hlt : doe < yearStart (yoe + 1)) : yearOfEra doe ≤ yoe := by
    obtain ⟨-, h⟩ := yearOfEra_yearStart (show yoe + 1 < 400 by omega)
    have hstart : yearStart (yoe + 1) ≤ 146097 := by
      unfold yearStart
      omega
    have := yearOfEra_mono (show doe ≤ yearStart (yoe + 1) - 1 by omega) (by omega)
    omega
  constructor
  · rintro rfl
    refine ⟨(yearStart_le hdoe).1, ?_⟩
    unfold yearEnd
    split_ifs with hlast
    · exact hdoe
    · by_contra hge
      have := yearOfEra_mono (show yearStart (yearOfEra doe + 1) ≤ doe by omega) hdoe
      rw [(yearOfEra_yearStart (by omega)).1] at this
      omega
  · rintro ⟨hstart, hend⟩
    have hle := yearOfEra_mono hstart hdoe
    rw [(yearOfEra_yearStart hyoe).1] at hle
    have hlt := yearOfEra_lt hdoe
    unfold yearEnd at hend
    split_ifs at hend with hlast
    · omega
    · have := hbefore hlast hend
      omega

lemma month_eq_iff {doy : ℕ} : (5 * doy + 2) / 153 = m ↔
    monthStart m ≤ doy ∧ doy < monthStart (m + 1) := by
  unfold monthStart
  omega

/-- The year of the calendar that this month of a year of an era is in. -/
def yearOf (era : ℤ) (yoe m : ℕ) : ℤ := yoe + 400 * era + if m < 10 then 0 else 1

/-- The date on the day `k` of the month `m` of the year `yoe` of an era. -/
def reckoned (era : ℤ) (yoe m k : ℕ) : Date := ⟨yearOf era yoe m, monthOf m, k + 1⟩

variable {era : ℤ} {k : ℕ}

lemma days_reckoned (hyoe : yoe < 400) (hm : m < 12) : (reckoned era yoe m k).days =
    era * eraDays + (yearStart yoe + monthStart m + k : ℕ) - epochDay := by
  have hyear : (if monthOf m ≤ 2 then yearOf era yoe m - 1 else yearOf era yoe m) =
      yoe + 400 * era := by
    unfold monthOf yearOf
    split_ifs <;> omega
  have hmonth : (if monthOf m ≤ 2 then monthOf m + 9 else monthOf m - 3) = m := by
    unfold monthOf
    split_ifs <;> omega
  unfold days reckoned
  simp only [hyear, hmonth]
  rw [show ((yoe : ℤ) + 400 * era) / 400 = era by omega,
    show (((yoe : ℤ) + 400 * era) % 400).toNat = yoe by omega]
  rfl

lemma exists_reckoned (h : d.Valid) :
    ∃ era yoe m k, yoe < 400 ∧ m < 12 ∧ d = reckoned era yoe m k := by
  obtain ⟨year, month, day⟩ := d
  obtain ⟨hmonth, hday⟩ := h
  simp only at hmonth hday
  obtain ⟨y, hy⟩ : ∃ y, y = if month ≤ 2 then year - 1 else year := ⟨_, rfl⟩
  refine ⟨y / 400, (y % 400).toNat, if month ≤ 2 then month + 9 else month - 3, day - 1, ?_, ?_, ?_⟩
  · omega
  · split_ifs <;> omega
  · rw [reckoned, Date.mk.injEq]
    unfold yearOf monthOf
    refine ⟨?_, ?_, ?_⟩ <;> split_ifs at hy ⊢ <;> omega

lemma valid_reckoned_iff (hyoe : yoe < 400) (hm : m < 12) : (reckoned era yoe m k).Valid ↔
    monthStart m + k < monthStart (m + 1) ∧ yearStart yoe + (monthStart m + k) < yearEnd yoe := by
  have hvalid : (reckoned era yoe m k).Valid ↔ k < monthLength (yearOf era yoe m) (monthOf m) := by
    constructor
    · exact fun h => h.day.2
    · intro h
      refine ⟨?_, Nat.le_add_left 1 k, h⟩
      simp only [reckoned, monthOf]
      split_ifs <;> omega
  rw [hvalid]
  have hend := yearEnd_eq hyoe era
  rcases Nat.lt_or_ge m 11 with hlt | hlast
  · have hsucc := monthStart_succ hlt (yearOf era yoe m)
    have hstart : monthStart (m + 1) ≤ monthStart 11 := by
      unfold monthStart
      omega
    omega
  · obtain rfl : m = 11 := by omega
    have hlength : monthLength (yoe + 400 * era + 1) 2 ≤ 29 := by
      unfold monthLength
      split_ifs <;> omega
    have hfebruary : monthLength (yearOf era yoe 11) (monthOf 11) =
      monthLength (yoe + 400 * era + 1) 2 := rfl
    rw [hfebruary, show monthStart (11 + 1) = monthStart 11 + 30 from rfl]
    omega

lemma ofDays_eq (n : ℤ) (hdoe : (n + epochDay) % eraDays = (doe : ℕ)) {doy : ℕ}
    (hdoy : doe - yearStart (yearOfEra doe) = doy) : ofDays n =
      reckoned ((n + epochDay) / eraDays) (yearOfEra doe) ((5 * doy + 2) / 153)
        (doy - monthStart ((5 * doy + 2) / 153)) := by
  simp only [ofDays, hdoe, Int.toNat_natCast, hdoy, reckoned, yearOf, monthOf]
  split_ifs <;> simp

lemma ofDays_eq_reckoned (hyoe : yoe < 400) (hm : m < 12) (h : (reckoned era yoe m k).Valid) :
    ofDays (era * eraDays + (yearStart yoe + monthStart m + k : ℕ) - epochDay) =
      reckoned era yoe m k := by
  obtain ⟨hmonth, hend⟩ := (valid_reckoned_iff hyoe hm).mp h
  have hdoe : yearStart yoe + (monthStart m + k) < 146097 := by
    refine Nat.lt_of_lt_of_le hend ?_
    unfold yearEnd yearStart
    split_ifs <;> omega
  have hyear := (yearOfEra_eq_iff hdoe hyoe).mpr ⟨Nat.le_add_right _ _, hend⟩
  have hm' := month_eq_iff.mpr ⟨Nat.le_add_right (monthStart m) k, hmonth⟩
  rw [Nat.add_assoc]
  generalize hdoes : yearStart yoe + (monthStart m + k) = doe at *
  have hrest : (era * eraDays + doe - epochDay + epochDay) % eraDays = doe := by
    unfold eraDays
    omega
  have hdoy : doe - yearStart (yearOfEra doe) = monthStart m + k := by
    rw [hyear, ← hdoes, Nat.add_sub_cancel_left]
  rw [ofDays_eq _ hrest hdoy, hyear, hm', Nat.add_sub_cancel_left]
  congr 1
  unfold eraDays
  omega

lemma valid_ofDays (n : ℤ) : (ofDays n).Valid := by
  obtain ⟨doe, hdoe⟩ : ∃ doe : ℕ, (n + epochDay) % eraDays = doe :=
    Int.eq_ofNat_of_zero_le (Int.emod_nonneg _ (by decide))
  have hlt : doe < 146097 := by
    unfold eraDays at hdoe
    omega
  have hyoe := yearOfEra_lt hlt
  obtain ⟨hstart, hend⟩ := (yearOfEra_eq_iff hlt hyoe).mp rfl
  have hspan := (yearStart_le hlt).2
  rw [ofDays_eq n hdoe rfl]
  generalize hdoy : doe - yearStart (yearOfEra doe) = doy
  obtain ⟨hmonth, hnext⟩ := month_eq_iff.mp (Eq.refl ((5 * doy + 2) / 153))
  refine (valid_reckoned_iff hyoe (by omega)).mpr ?_
  omega

lemma ofDays_days (h : d.Valid) : ofDays d.days = d := by
  obtain ⟨era, yoe, m, k, hyoe, hm, rfl⟩ := exists_reckoned h
  rw [days_reckoned hyoe hm, ofDays_eq_reckoned hyoe hm h]

lemma next_reckoned (hm : m < 12) (hlast : k + 1 = monthLength (yearOf era yoe m) (monthOf m)) :
    (reckoned era yoe m k).next =
      if m < 11 then reckoned era yoe (m + 1) 0
      else if yoe < 399 then reckoned era (yoe + 1) 0 0
      else reckoned (era + 1) (yoe - 399) 0 0 := by
  have hlength : ¬k + 1 < monthLength (yearOf era yoe m) (monthOf m) := by omega
  simp only [next, reckoned, hlength, if_false]
  unfold yearOf monthOf
  split_ifs <;> simp only [Date.mk.injEq, and_true, true_and] <;> omega

lemma days_next (h : d.Valid) : d.next.days = d.days + 1 := by
  obtain ⟨era, yoe, m, k, hyoe, hm, rfl⟩ := exists_reckoned h
  have hlength : k + 1 ≤ monthLength (yearOf era yoe m) (monthOf m) := h.day.2
  rw [days_reckoned hyoe hm]
  rcases Nat.lt_or_ge (k + 1) (monthLength (yearOf era yoe m) (monthOf m)) with hlt | hge
  · have hnext : (reckoned era yoe m k).next = reckoned era yoe m (k + 1) := if_pos hlt
    rw [hnext, days_reckoned hyoe hm]
    omega
  have hlast : k + 1 = monthLength (yearOf era yoe m) (monthOf m) := by omega
  rw [next_reckoned hm hlast]
  split_ifs with hmonth hyear
  · have hsucc := monthStart_succ hmonth (yearOf era yoe m)
    rw [days_reckoned hyoe (by omega)]
    omega
  · obtain rfl : m = 11 := by omega
    have hend := yearEnd_eq hyoe era
    replace hlast : k + 1 = monthLength (yoe + 400 * era + 1) 2 := hlast
    rw [yearEnd, if_neg (by omega)] at hend
    rw [days_reckoned (by omega) (by decide), hend, ← hlast, show monthStart 0 = 0 from rfl]
    omega
  · obtain rfl : m = 11 := by omega
    obtain rfl : yoe = 399 := by omega
    have hend := yearEnd_eq hyoe era
    replace hlast : k + 1 = monthLength ((399 : ℕ) + 400 * era + 1) 2 := hlast
    rw [yearEnd, if_pos rfl, ← hlast] at hend
    rw [days_reckoned (by decide) (by decide), show yearStart (399 - 399) = 0 from rfl,
      show monthStart 0 = 0 from rfl]
    unfold eraDays
    omega

lemma ofDays_succ (n : ℤ) : ofDays (n + 1) = (ofDays n).next := by
  have h := valid_ofDays n
  rw [← ofDays_days (valid_next h), days_next h, days_ofDays]

/-- **A day has one date**, the one that it falls on. -/
theorem falls_iff {n : ℤ} : Falls n d ↔ ofDays n = d := by
  constructor
  · intro h
    induction h with
    | epoch => decide
    | next _ ih => rw [ofDays_succ, ih]
    | @previous n d hd _ ih =>
      have hdays := days_next hd
      rw [← ih, days_ofDays] at hdays
      rw [← ofDays_days hd]
      congr 1
      omega
  · rintro rfl
    induction n using Int.induction_on with
    | zero => exact .epoch
    | succ n ih =>
      rw [ofDays_succ]
      exact .next ih
    | pred n ih =>
      refine .previous (valid_ofDays _) ?_
      rwa [← ofDays_succ, Int.sub_add_cancel]

end SealedStream.Date
