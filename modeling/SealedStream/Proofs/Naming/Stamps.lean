import SealedStream.Proofs.Naming
import SealedStream.Proofs.Time.Days

/-!
A name identifies its time: it shows the date and the time of day, and the time can be computed back
from what it shows.
-/

namespace SealedStream

/-- So many digits, and the number that they denote. -/
structure Decimal.Spells (cs : List Char) (width n : ℕ) : Prop where
  digits : ∀ c ∈ cs, c.isDigit = true
  length : cs.length = width
  value : Decimal.value cs = n

/-- What the calendar and the clock show at a time, which is within a second. -/
structure Timestamp.Shows (t : Timestamp) (m : Moment) : Prop where
  day : ∃ n, Date.Falls n m.date ∧
    t.seconds.toInt = 86400 * n + (3600 * m.hour + 60 * m.minute + m.second : ℕ)
  clock : m.hour < 24 ∧ m.minute < 60 ∧ m.second < 60
  nanos : t.nanos.toNat = m.nanos

namespace Moment

/-- A year has four digits, or as many as it needs; outside of 0 to 9999 it has a sign. -/
def SpellsYear (year : ℤ) (cs : List Char) : Prop :=
  ∃ width digits, Decimal.Spells digits width year.natAbs ∧
    (width = 4 ∨ 4 < width ∧ 10 ^ (width - 1) ≤ year.natAbs) ∧
    cs = (if year < 0 then ['-'] else if 9999 < year then ['+'] else []) ++ digits

/-- No fraction is none, any other is a point and the fewest of three, six or nine digits that
are exact. -/
def SpellsFraction (nanos : ℕ) (cs : List Char) : Prop :=
  nanos = 0 ∧ cs = [] ∨ nanos ≠ 0 ∧ ∃ width n digits, width ∈ [3, 6, 9] ∧
    Decimal.Spells digits width n ∧ n * 10 ^ (9 - width) = nanos ∧
    (∀ fewer ∈ [3, 6, 9], fewer < width → ¬10 ^ (9 - fewer) ∣ nanos) ∧ cs = '.' :: digits

/-- The date and the time of day, with underscores between the parts of the time. -/
def Spelled (m : Moment) (cs : List Char) : Prop :=
  ∃ year month day hour minute second fraction,
    SpellsYear m.date.year year ∧ Decimal.Spells month 2 m.date.month ∧
    Decimal.Spells day 2 m.date.day ∧ Decimal.Spells hour 2 m.hour ∧
    Decimal.Spells minute 2 m.minute ∧ Decimal.Spells second 2 m.second ∧
    SpellsFraction m.nanos fraction ∧
    cs = year ++ '-' :: month ++ '-' :: day ++ 'T' :: hour ++ '_' :: minute ++ '_' :: second ++
      fraction ++ ['Z']

end Moment

/-! ### Reading a name -/

namespace Decimal

/-- The number at the front of a text, and what comes behind it. -/
def leading (cs : List Char) : ℕ × List Char :=
  (value (cs.takeWhile Char.isDigit), cs.dropWhile Char.isDigit)

def billionths : List Char → ℕ
  | '.' :: cs =>
    let digits := cs.takeWhile Char.isDigit
    value digits * 10 ^ (9 - digits.length)
  | _ => 0

def leadingSigned : List Char → ℤ × List Char
  | '-' :: cs => (-(leading cs).1, (leading cs).2)
  | '+' :: cs => ((leading cs).1, (leading cs).2)
  | cs => ((leading cs).1, (leading cs).2)

end Decimal

def Naming.stampOf (name : String) : Timestamp :=
  let (year, cs) := Decimal.leadingSigned name.toList
  let (month, cs) := Decimal.leading (cs.drop 1)
  let (day, cs) := Decimal.leading (cs.drop 1)
  let (hour, cs) := Decimal.leading (cs.drop 1)
  let (minute, cs) := Decimal.leading (cs.drop 1)
  let (second, cs) := Decimal.leading (cs.drop 1)
  ⟨Int64.ofInt (Moment.seconds ⟨⟨year, month, day⟩, hour, minute, second, 0⟩),
    UInt32.ofNat (Decimal.billionths cs)⟩

/-! ### What is spelled -/

namespace Decimal

variable {cs r : List Char} {width n : ℕ}

lemma spells_padded (width n : ℕ) : Spells (padded width n) (max width (size n)) n :=
  ⟨fun _ => isDigit_padded, length_padded width n, value_padded width n⟩

lemma spells_padded_of_lt {w : ℕ} (h : n < 10 ^ (w + 1)) : Spells (padded (w + 1) n) (w + 1) n := by
  have hpadded := spells_padded (w + 1) n
  rwa [Nat.max_eq_left (size_le h)] at hpadded

lemma pow_le_of_lt_size {w : ℕ} (h : w + 1 < size n) : 10 ^ (w + 1) ≤ n := by
  by_contra hlt
  have := size_le (Nat.lt_of_not_le hlt)
  omega

lemma takeWhile_of_ends (h : Ends r) : r.takeWhile Char.isDigit = [] ∧
    r.dropWhile Char.isDigit = r := by
  cases r with
  | nil => exact ⟨rfl, rfl⟩
  | cons c r =>
    have hc : c.isDigit = false := h c rfl
    exact ⟨List.takeWhile_cons_of_neg (by simp [hc]), List.dropWhile_cons_of_neg (by simp [hc])⟩

lemma Spells.leading_eq (h : Spells cs width n) (hr : Ends r) : leading (cs ++ r) = (n, r) := by
  rw [leading, List.takeWhile_append_of_pos h.digits, List.dropWhile_append_of_pos h.digits,
    (takeWhile_of_ends hr).1, (takeWhile_of_ends hr).2, List.append_nil, h.value]

lemma Spells.billionths_eq (h : Spells cs width n) (hr : Ends r) :
    billionths ('.' :: (cs ++ r)) = n * 10 ^ (9 - width) := by
  rw [billionths, List.takeWhile_append_of_pos h.digits, (takeWhile_of_ends hr).1, List.append_nil,
    h.value, h.length]

end Decimal

namespace Moment

open Decimal

lemma spellsYear_yearText (year : ℤ) : SpellsYear year (yearText year) := by
  refine ⟨_, _, spells_padded 4 year.natAbs, ?_, ?_⟩
  · rcases Nat.lt_or_ge 4 (size year.natAbs) with hlong | hshort
    · rw [Nat.max_eq_right (by omega)]
      obtain ⟨w, hw⟩ : ∃ w, size year.natAbs - 1 = w + 1 := ⟨size year.natAbs - 2, by omega⟩
      exact .inr ⟨hlong, by rw [hw]; exact pow_le_of_lt_size (by omega)⟩
    · exact .inl (Nat.max_eq_left hshort)
  · unfold yearText
    split_ifs <;> rfl

lemma spellsFraction_fractionText {nanos : ℕ} (h : nanos < nanosPerSecond) :
    SpellsFraction nanos (fractionText nanos) := by
  unfold nanosPerSecond at h
  unfold fractionText
  split_ifs with hzero hmillis hmicros
  · exact .inl ⟨hzero, rfl⟩
  · refine .inr ⟨hzero, 3, nanos / 1000000, _, by simp, spells_padded_of_lt (by omega), ?_, ?_, rfl⟩
    · omega
    · simp
  · refine .inr ⟨hzero, 6, nanos / 1000, _, by simp, spells_padded_of_lt (by omega), ?_, ?_, rfl⟩
    · omega
    · simp
      omega
  · refine .inr ⟨hzero, 9, nanos, _, by simp, spells_padded_of_lt (by omega), ?_, ?_, rfl⟩
    · omega
    · simp
      omega

lemma SpellsYear.leadingSigned_eq {year : ℤ} {cs r : List Char} (h : SpellsYear year cs)
    (hr : Ends r) : leadingSigned (cs ++ r) = (year, r) := by
  obtain ⟨width, digits, hdigits, hwidth, rfl⟩ := h
  have hleading := hdigits.leading_eq hr
  split_ifs with hneg hlarge
  · show ((-(leading (digits ++ r)).1 : ℤ), (leading (digits ++ r)).2) = _
    rw [hleading, Prod.mk.injEq]
    exact ⟨by omega, rfl⟩
  · show (((leading (digits ++ r)).1 : ℤ), (leading (digits ++ r)).2) = _
    rw [hleading, Prod.mk.injEq]
    exact ⟨by omega, rfl⟩
  · -- the first of the digits is no sign
    cases digits with
    | nil =>
      have := hdigits.length
      simp only [List.length_nil] at this
      omega
    | cons c digits =>
      have hc := hdigits.digits c List.mem_cons_self
      have hsign : c ≠ '-' ∧ c ≠ '+' := by
        constructor <;> (rintro rfl; cases hc)
      rw [List.nil_append, leadingSigned, hleading, Prod.mk.injEq]
      · exact ⟨by omega, rfl⟩
      · exact fun _ heq => hsign.1 (List.cons.inj heq).1
      · exact fun _ heq => hsign.2 (List.cons.inj heq).1

lemma SpellsFraction.billionths_eq {nanos : ℕ} {cs r : List Char} (h : SpellsFraction nanos cs) :
    billionths (cs ++ 'Z' :: r) = nanos := by
  rcases h with ⟨rfl, rfl⟩ | ⟨-, width, n, digits, -, hdigits, hn, -, rfl⟩
  · rfl
  · rw [List.cons_append, hdigits.billionths_eq (ends_cons rfl), hn]

lemma SpellsFraction.ends {nanos : ℕ} {cs r : List Char} (h : SpellsFraction nanos cs) :
    Ends (cs ++ 'Z' :: r) := by
  rcases h with ⟨-, rfl⟩ | ⟨-, _, _, digits, -, -, -, -, rfl⟩ <;> exact ends_cons rfl

end Moment

variable {t : Timestamp} {m : Moment} {stem : List Char} {ext name : String}

lemma Timestamp.shows_moment (t : Timestamp) : t.Shows t.moment := by
  refine ⟨⟨t.seconds.toInt / 86400, Date.falls_iff.mpr rfl, ?_⟩, ?_, rfl⟩
  · simp only [moment]
    omega
  · simp only [moment]
    omega

lemma Timestamp.Shows.seconds_eq (h : t.Shows m) : m.seconds = t.seconds.toInt := by
  obtain ⟨n, hn, hseconds⟩ := h.day
  rw [hseconds, Moment.seconds, ← Date.falls_iff.mp hn, Date.days_ofDays]
  omega

lemma Timestamp.Shows.spelled (h : t.Shows m) (ht : t.Normal) :
    m.Spelled (m.text.map Moment.mask) := by
  obtain ⟨n, hn, -⟩ := h.day
  obtain ⟨hhour, hminute, hsecond⟩ := h.clock
  have hnanos : m.nanos < nanosPerSecond := h.nanos ▸ ht
  have hleap : m.nanos / nanosPerSecond = 0 := Nat.div_eq_of_lt hnanos
  have hdate : m.date.Valid := Date.falls_iff.mp hn ▸ Date.valid_ofDays n
  have hmonth := hdate.month.2
  have hday := hdate.day.2
  have hlength : Date.monthLength m.date.year m.date.month ≤ 31 := by
    unfold Date.monthLength
    split_ifs <;> decide
  refine ⟨_, _, _, _, _, _, _, Moment.spellsYear_yearText _,
    Decimal.spells_padded_of_lt (by omega), Decimal.spells_padded_of_lt (by omega),
    Decimal.spells_padded_of_lt (by omega), Decimal.spells_padded_of_lt (by omega),
    Decimal.spells_padded_of_lt (by omega), Moment.spellsFraction_fractionText hnanos, ?_⟩
  rw [← List.append_nil (m.text.map Moment.mask), Moment.mask_text_append, hleap]
  simp

namespace Naming

lemma stampOf_eq (h : t.Shows m) (hstem : m.Spelled stem)
    (hname : name.toList = stem ++ '.' :: ext.toList) : stampOf name = t := by
  obtain ⟨year, month, day, hour, minute, second, fraction, hyear, hmonth, hday, hhour, hminute,
    hsecond, hfraction, rfl⟩ := hstem
  simp only [List.append_assoc, List.cons_append, List.nil_append] at hname
  have hdash (r : List Char) : Decimal.Ends ('-' :: r) := Decimal.ends_cons rfl
  have hletter (r : List Char) : Decimal.Ends ('T' :: r) := Decimal.ends_cons rfl
  have hbar (r : List Char) : Decimal.Ends ('_' :: r) := Decimal.ends_cons rfl
  unfold stampOf
  rw [hname, hyear.leadingSigned_eq (hdash _)]
  simp only [List.drop_succ_cons, List.drop_zero, hmonth.leading_eq (hdash _),
    hday.leading_eq (hletter _), hhour.leading_eq (hbar _), hminute.leading_eq (hbar _),
    hsecond.leading_eq hfraction.ends, hfraction.billionths_eq]
  have hseconds : Moment.seconds ⟨m.date, m.hour, m.minute, m.second, 0⟩ = t.seconds.toInt :=
    h.seconds_eq
  rw [hseconds, Int64.ofInt_toInt, ← h.nanos, UInt32.ofNat_toNat]

/-- **A name identifies its time**: no other time has it, with whatever extension. It shows the
date and the time of day at a time that is within a second, with no colon and no slash in front of
the extension, and the time can be computed back from it. -/
theorem fileName_identifies (h : fileName t ext = .ok name) :
    (∀ t' ext', fileName t' ext' = .ok name → t' = t ∧ ext' = ext) ∧
    (t.Normal → ∃ m stem, t.Shows m ∧ m.Spelled stem ∧ name.toList = stem ++ '.' :: ext.toList ∧
      ':' ∉ stem ∧ '/' ∉ stem ∧ stampOf name = t) := by
  obtain ⟨hplace, hname⟩ := fileName_eq_ok h
  constructor
  · intro t' ext' h'
    obtain ⟨hplace', hname'⟩ := fileName_eq_ok h'
    obtain ⟨hmoment, hext⟩ :=
      Moment.mask_text_inj hplace'.nanos_lt hplace.nanos_lt (hname'.symm.trans hname)
    exact ⟨Timestamp.moment_inj hmoment, String.toList_inj.mp (List.cons.inj hext).2⟩
  · intro ht
    have hshows := t.shows_moment
    have hspelled := hshows.spelled ht
    refine ⟨_, _, hshows, hspelled, hname, ?_, slash_not_mem_text _,
      stampOf_eq hshows hspelled hname⟩
    intro hcolon
    have := mem_text hcolon
    simp at this

/-- A name with a year of six digits before the year 0. -/
theorem fileName_identifies_early :
    fileName ⟨-8000000000000, 120000000⟩ "rcd" = .ok "-251540-02-03T09_46_40.120Z.rcd" ∧
    (∀ t' ext', fileName t' ext' = .ok "-251540-02-03T09_46_40.120Z.rcd" →
      t' = ⟨-8000000000000, 120000000⟩ ∧ ext' = "rcd") ∧
    Timestamp.Normal ⟨-8000000000000, 120000000⟩ ∧
    ∃ m stem, Timestamp.Shows ⟨-8000000000000, 120000000⟩ m ∧ m.Spelled stem ∧
      "-251540-02-03T09_46_40.120Z.rcd".toList = stem ++ '.' :: "rcd".toList ∧
      ':' ∉ stem ∧ '/' ∉ stem ∧
      stampOf "-251540-02-03T09_46_40.120Z.rcd" = ⟨-8000000000000, 120000000⟩ := by
  have h : fileName ⟨-8000000000000, 120000000⟩ "rcd" = .ok "-251540-02-03T09_46_40.120Z.rcd" := by
    decide +kernel
  have hnormal : Timestamp.Normal ⟨-8000000000000, 120000000⟩ := by decide
  obtain ⟨hother, hshows⟩ := fileName_identifies h
  exact ⟨h, hother, hnormal, hshows hnormal⟩

end Naming

end SealedStream
