import Mathlib.Data.Int.Notation
import Mathlib.Tactic.Common
import SealedStream.Proofs.Digits
import SealedStream.Proofs.Time.Calendar
import SealedStream.Time.Timestamp

/-!
The text of a moment says which moment it is, and with it the timestamp; even where every colon is
written as an underscore, and whatever comes behind the text.
-/

namespace SealedStream

open Decimal

namespace Moment

def mask (c : Char) : Char := if c = ':' then '_' else c

lemma map_mask_of_digits {cs : List Char} (h : ∀ c ∈ cs, c.isDigit = true) : cs.map mask = cs := by
  refine (List.map_congr_left fun c hc => ?_).trans (List.map_id cs)
  have hd := h c hc
  unfold mask
  split
  · rename_i hcolon
    rw [hcolon] at hd
    cases hd
  · rfl

@[simp] lemma map_mask_padded (w n : ℕ) : (padded w n).map mask = padded w n :=
  map_mask_of_digits fun _ => isDigit_padded

@[simp] lemma map_mask_yearText (year : ℤ) : (yearText year).map mask = yearText year := by
  unfold yearText
  split
  · simp [mask]
  · split <;> simp [mask]

@[simp] lemma map_mask_fractionText (nanos : ℕ) :
    (fractionText nanos).map mask = fractionText nanos := by
  unfold fractionText
  split
  · rfl
  · split
    · simp [mask]
    · split <;> simp [mask]

lemma mask_text_append (m : Moment) (r : List Char) :
    m.text.map mask ++ r = yearText m.date.year ++ '-' :: (padded 2 m.date.month ++
      '-' :: (padded 2 m.date.day ++ 'T' :: (padded 2 m.hour ++ '_' :: (padded 2 m.minute ++
        '_' :: (padded 2 (m.second + m.nanos / nanosPerSecond) ++
          (fractionText m.nanos ++ 'Z' :: r)))))) := by
  simp [text, clockText, mask]

lemma yearText_cases (y : ℤ) :
    (y < 0 ∧ yearText y = '-' :: padded 4 y.natAbs) ∨
      (9999 < y ∧ yearText y = '+' :: padded 4 y.natAbs) ∨
      (0 ≤ y ∧ yearText y = padded 4 y.natAbs) := by
  unfold yearText
  split
  · exact Or.inl ⟨‹_›, rfl⟩
  · split
    · exact Or.inr (Or.inl ⟨‹_›, rfl⟩)
    · exact Or.inr (Or.inr ⟨by omega, rfl⟩)

lemma yearText_inj {y z : ℤ} {r t : List Char}
    (h : yearText y ++ '-' :: r = yearText z ++ '-' :: t) : y = z ∧ r = t := by
  have hdash : ∀ r, Ends ('-' :: r) := fun _ => ends_cons rfl
  have hsame : padded 4 y.natAbs ++ '-' :: r = padded 4 z.natAbs ++ '-' :: t →
      y.natAbs = z.natAbs ∧ r = t := by
    intro h
    obtain ⟨hn, hrt, -⟩ := padded_append_inj (hdash r) (hdash t) h
    exact ⟨hn, (List.cons.inj hrt).2⟩
  have hsign : ∀ {c : Char} {n : ℕ} {xs ys : List Char}, c.isDigit = false →
      c :: xs ≠ padded 4 n ++ ys := by
    rintro c n xs ys hc h
    obtain ⟨d, ds, hd, hdigit⟩ := padded_eq_cons 4 n
    rw [hd, List.cons_append, List.cons.injEq] at h
    rw [h.1, hdigit] at hc
    cases hc
  rcases yearText_cases y with ⟨hy, ey⟩ | ⟨hy, ey⟩ | ⟨hy, ey⟩ <;>
    rcases yearText_cases z with ⟨hz, ez⟩ | ⟨hz, ez⟩ | ⟨hz, ez⟩ <;>
    rw [ey, ez] at h
  · obtain ⟨hn, hrt⟩ := hsame (List.cons.inj h).2
    exact ⟨by omega, hrt⟩
  · simp at h
  · exact (hsign rfl h).elim
  · simp at h
  · obtain ⟨hn, hrt⟩ := hsame (List.cons.inj h).2
    exact ⟨by omega, hrt⟩
  · exact (hsign rfl h).elim
  · exact (hsign rfl h.symm).elim
  · exact (hsign rfl h.symm).elim
  · obtain ⟨hn, hrt⟩ := hsame h
    exact ⟨by omega, hrt⟩

lemma fractionText_cases {n : ℕ} (h0 : n ≠ 0) (h : n < 2 * nanosPerSecond) :
    ∃ w k, fractionText n = '.' :: padded w (n / k) ∧ k * (n / k) = n ∧
      (k = 1000000 ∧ (padded w (n / k)).length ≤ 4 ∨
        k = 1000 ∧ 6 ≤ (padded w (n / k)).length ∧ (padded w (n / k)).length ≤ 7 ∨
        k = 1 ∧ 9 ≤ (padded w (n / k)).length) := by
  unfold nanosPerSecond at h
  unfold fractionText
  rw [if_neg h0]
  split
  · have hs := size_le (n := n / 1000000) (w := 3) (by omega)
    exact ⟨3, 1000000, rfl, by omega, Or.inl ⟨rfl, by rw [length_padded]; omega⟩⟩
  · split
    · have hs := size_le (n := n / 1000) (w := 6) (by omega)
      refine ⟨6, 1000, rfl, by omega, Or.inr (Or.inl ⟨rfl, ?_, ?_⟩)⟩ <;>
        rw [length_padded] <;> omega
    · exact ⟨9, 1, by rw [Nat.div_one], by omega, Or.inr (Or.inr ⟨rfl, by
        rw [length_padded]; omega⟩)⟩

lemma fractionText_inj {n n' : ℕ} {r t : List Char} (hn : n < 2 * nanosPerSecond)
    (hn' : n' < 2 * nanosPerSecond) (h : fractionText n ++ 'Z' :: r = fractionText n' ++ 'Z' :: t) :
    n = n' ∧ r = t := by
  have hz : ∀ r, Ends ('Z' :: r) := fun _ => ends_cons rfl
  rcases Nat.eq_zero_or_pos n with rfl | h0 <;> rcases Nat.eq_zero_or_pos n' with rfl | h0'
  · simpa [fractionText] using h
  · obtain ⟨w, k, htext, -⟩ := fractionText_cases (by omega) hn'
    simp [htext, show fractionText 0 = [] from rfl] at h
  · obtain ⟨w, k, htext, -⟩ := fractionText_cases (by omega) hn
    simp [htext, show fractionText 0 = [] from rfl] at h
  · obtain ⟨w, k, htext, hk, hlen⟩ := fractionText_cases (by omega) hn
    obtain ⟨w', k', htext', hk', hlen'⟩ := fractionText_cases (by omega) hn'
    rw [htext, htext', List.cons_append, List.cons_append, List.cons.injEq] at h
    obtain ⟨hval, hrt, hsame⟩ := padded_append_inj (hz r) (hz t) h.2
    have hkk : k = k' := by omega
    refine ⟨?_, (List.cons.inj hrt).2⟩
    rw [← hk, ← hk', hval, hkk]

lemma ends_fractionText (n : ℕ) (r : List Char) : Ends (fractionText n ++ 'Z' :: r) := by
  unfold fractionText
  split
  · exact ends_cons rfl
  · split
    · exact ends_cons rfl
    · split <;> exact ends_cons rfl

/-- **A masked text is that of one moment**, and ends in one way. -/
theorem mask_text_inj {m m' : Moment} {r t : List Char} (hm : m.nanos < 2 * nanosPerSecond)
    (hm' : m'.nanos < 2 * nanosPerSecond)
    (h : m.text.map mask ++ r = m'.text.map mask ++ t) : m = m' ∧ r = t := by
  rw [mask_text_append, mask_text_append] at h
  have sep : ∀ {c : Char}, c.isDigit = false → ∀ r, Ends (c :: r) := fun hc _ => ends_cons hc
  obtain ⟨hyear, h⟩ := yearText_inj h
  obtain ⟨hmonth, h, -⟩ := padded_append_inj (sep rfl _) (sep rfl _) h
  obtain ⟨hday, h, -⟩ := padded_append_inj (sep rfl _) (sep rfl _) (List.cons.inj h).2
  obtain ⟨hhour, h, -⟩ := padded_append_inj (sep rfl _) (sep rfl _) (List.cons.inj h).2
  obtain ⟨hminute, h, -⟩ := padded_append_inj (sep rfl _) (sep rfl _) (List.cons.inj h).2
  obtain ⟨hsecond, h, -⟩ :=
    padded_append_inj (ends_fractionText _ _) (ends_fractionText _ _) (List.cons.inj h).2
  obtain ⟨hnanos, h⟩ := fractionText_inj hm hm' h
  refine ⟨?_, h⟩
  rw [hnanos, Nat.add_right_cancel_iff] at hsecond
  rcases m with ⟨⟨y, mo, d⟩, ho, mi, s, n⟩
  rcases m' with ⟨⟨y', mo', d'⟩, ho', mi', s', n'⟩
  simp_all

end Moment

/-! ### Timestamps -/

namespace Timestamp

lemma Placeable.nanos_lt {t : Timestamp} (h : t.Placeable) :
    t.nanos.toNat < 2 * nanosPerSecond := by
  rcases h with h | h
  · unfold nanosPerSecond at h ⊢
    omega
  · exact h.1

/-- **A moment is that of one timestamp.** -/
theorem moment_inj {t t' : Timestamp} (h : t.moment = t'.moment) : t = t' := by
  have hdays := congrArg (fun m : Moment => m.date.days) h
  have hhour := congrArg Moment.hour h
  have hminute := congrArg Moment.minute h
  have hsecond := congrArg Moment.second h
  have hnanos := congrArg Moment.nanos h
  simp only [moment, Date.days_ofDays] at hdays hhour hminute hsecond hnanos
  have hseconds : t.seconds.toInt = t'.seconds.toInt := by omega
  rcases t with ⟨s, n⟩
  rcases t' with ⟨s', n'⟩
  rw [Int64.toInt_inj] at hseconds
  rw [UInt32.toNat_inj] at hnanos
  simp only at hseconds hnanos
  rw [hseconds, hnanos]

end Timestamp

end SealedStream
