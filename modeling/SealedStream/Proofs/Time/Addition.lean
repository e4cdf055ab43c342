import SealedStream.Proofs.Time.Line

/-!
Sums of timestamps.

A sum is what stands at the exact number of nanoseconds, if any timestamp does. Beyond the last one
the seconds stop while the nanosecond part begins again at zero, so that sums may fall back there.
-/

namespace SealedStream.Timestamp

variable {a b t r : Timestamp} {m n : ℤ}

/-- The timestamp at a number of nanoseconds. The seconds stop at their bounds, the nanosecond part
does not. -/
def ofNanos (n : ℤ) : Timestamp :=
  ⟨clamp64 (n / nanosPerSecond), UInt32.ofNat (n % nanosPerSecond).toNat⟩

def OnLine (n : ℤ) : Prop := ∃ t : Timestamp, t.Normal ∧ t.epochNanos = n

lemma toInt_seconds_ofNanos (n : ℤ) :
    (ofNanos n).seconds.toInt = max (-2 ^ 63) (min (n / nanosPerSecond) (2 ^ 63 - 1)) :=
  toInt_clamp64 _

lemma toNat_nanos_ofNanos (n : ℤ) : ((ofNanos n).nanos.toNat : ℤ) = n % nanosPerSecond := by
  show (((UInt32.ofNat (n % nanosPerSecond).toNat).toNat : ℕ) : ℤ) = _
  unfold nanosPerSecond
  rw [UInt32.toNat_ofNat']
  omega

lemma normal_ofNanos (n : ℤ) : (ofNanos n).Normal := by
  have hnanos := toNat_nanos_ofNanos n
  unfold Normal nanosPerSecond at *
  omega

lemma epochNanos_ofNanos (h : Fits64 (n / nanosPerSecond)) : (ofNanos n).epochNanos = n := by
  rw [epochNanos, toInt_seconds_ofNanos, toNat_nanos_ofNanos]
  rw [fits64_iff] at h
  unfold nanosPerSecond at *
  omega

lemma Normal.seconds_eq (h : t.Normal) : t.epochNanos / nanosPerSecond = t.seconds.toInt := by
  unfold Normal at h
  unfold epochNanos
  unfold nanosPerSecond at *
  omega

lemma Normal.ofNanos_epochNanos (h : t.Normal) : ofNanos t.epochNanos = t := by
  rcases t with ⟨s, k⟩
  have hseconds : clamp64 ((epochNanos ⟨s, k⟩) / nanosPerSecond) = s := by
    rw [h.seconds_eq, clamp64_toInt]
  have hnanos : UInt32.ofNat (epochNanos ⟨s, k⟩ % nanosPerSecond).toNat = k := by
    rw [← UInt32.toNat_inj]
    have hk : k.toNat < nanosPerSecond := h
    have hmod := toNat_nanos_ofNanos (epochNanos ⟨s, k⟩)
    simp only [ofNanos, epochNanos] at hmod ⊢
    unfold nanosPerSecond at *
    omega
  rw [ofNanos, hseconds, hnanos]

lemma onLine_iff : OnLine n ↔ Fits64 (n / nanosPerSecond) := by
  constructor
  · rintro ⟨t, ht, rfl⟩
    rw [ht.seconds_eq]
    exact fits64_toInt _
  · intro h
    exact ⟨ofNanos n, normal_ofNanos n, epochNanos_ofNanos h⟩

/-! ### Both sums are taken on the line -/

lemma plusNanos_eq (t : Timestamp) (k : UInt32) :
    t.plusNanos k = ofNanos (t.epochNanos + k.toNat) := by
  have hdiv : (t.epochNanos + k.toNat) / nanosPerSecond =
      t.seconds.toInt + ((t.nanos.toNat + k.toNat) / nanosPerSecond : ℕ) := by
    unfold epochNanos nanosPerSecond
    omega
  have hmod : ((t.epochNanos + k.toNat) % nanosPerSecond).toNat =
      (t.nanos.toNat + k.toNat) % nanosPerSecond := by
    unfold epochNanos nanosPerSecond
    omega
  rw [ofNanos, hdiv, hmod]
  rfl

lemma Normal.plusSeconds_eq (h : t.Normal) (s : Int64) :
    t.plusSeconds s = ofNanos (t.epochNanos + s.toInt * nanosPerSecond) := by
  have hk : t.nanos.toNat < nanosPerSecond := h
  have hdiv : (t.epochNanos + s.toInt * nanosPerSecond) / nanosPerSecond =
      t.seconds.toInt + s.toInt := by
    unfold epochNanos
    unfold nanosPerSecond at *
    omega
  have hmod : ((t.epochNanos + s.toInt * nanosPerSecond) % nanosPerSecond).toNat =
      t.nanos.toNat := by
    unfold epochNanos
    unfold nanosPerSecond at *
    omega
  -- no whole second is left in the nanosecond part to be carried
  rw [ofNanos, hdiv, hmod, plusSeconds, new, Nat.div_eq_of_lt hk, Nat.mod_eq_of_lt hk,
    Int.natCast_zero, Int.add_zero, clamp64_toInt]

/-- What a sum is: a timestamp below a second, and the one at the exact number if there is one. -/
structure Sum (t : Timestamp) (amount : ℤ) (r : Timestamp) : Prop where
  normal : r.Normal
  exact : OnLine (t.epochNanos + amount) → r.epochNanos = t.epochNanos + amount

lemma sum_of_eq {amount : ℤ} (h : r = ofNanos (t.epochNanos + amount)) : t.Sum amount r where
  normal := h ▸ normal_ofNanos _
  exact hline := h ▸ epochNanos_ofNanos (onLine_iff.mp hline)

/-! ### Falling back -/

/-- The seconds of `n` are stopped where those of `m` are, and its nanosecond part is the smaller
one. -/
def FallsBack (m n : ℤ) : Prop :=
  Int64.maxValue.toInt ≤ m / nanosPerSecond ∧ Int64.maxValue.toInt < n / nanosPerSecond ∧
    n % nanosPerSecond < m % nanosPerSecond

instance (m n : ℤ) : Decidable (FallsBack m n) := inferInstanceAs (Decidable (_ ∧ _))

lemma FallsBack.not_onLine (h : FallsBack m n) : ¬OnLine n := by
  rw [onLine_iff]
  exact fun hfits => Int.not_lt.mpr hfits.2 h.2.1

/-- **Timestamps are in the order of their numbers** unless they fall back. -/
lemma ofNanos_le_iff (h : m ≤ n) (hm : Int64.minValue.toInt ≤ m / nanosPerSecond) :
    ofNanos m ≤ ofNanos n ↔ ¬FallsBack m n := by
  have hmin : Int64.minValue.toInt = -2 ^ 63 := rfl
  have hmax : Int64.maxValue.toInt = 2 ^ 63 - 1 := rfl
  have hm' := toNat_nanos_ofNanos m
  have hn' := toNat_nanos_ofNanos n
  rw [le_iff, toInt_seconds_ofNanos, toInt_seconds_ofNanos, FallsBack]
  unfold nanosPerSecond at *
  omega

lemma Normal.sum_le_sum_iff (ha : a.Normal) (hb : b.Normal) (hab : a ≤ b) {i j : ℤ} (hi : 0 ≤ i)
    (hij : i ≤ j) : ofNanos (a.epochNanos + i) ≤ ofNanos (b.epochNanos + j) ↔
      ¬FallsBack (a.epochNanos + i) (b.epochNanos + j) := by
  have hle := (ha.le_iff hb).mp hab
  refine ofNanos_le_iff (by omega) ?_
  have hlow : Int64.minValue.toInt ≤ a.epochNanos / nanosPerSecond := by
    rw [ha.seconds_eq]
    exact (fits64_toInt _).1
  exact Int.le_trans hlow (Int.ediv_le_ediv (by decide) (by omega))

lemma le_refl (t : Timestamp) : t ≤ t := le_iff.mpr (.inr ⟨rfl, Nat.le_refl _⟩)

/-- **Sums are in order** unless they fall back, which they do only where no timestamp stands at the
exact sum. The seconds that are added leave the nanosecond part as it is, so a sum of seconds does
not fall behind what it is added to. -/
theorem sums_in_order_iff (ha : a.Normal) (hb : b.Normal) (hab : a ≤ b) (k : UInt32) {s : Int64}
    (hs : 0 ≤ s) :
    a.Sum k.toNat (a.plusNanos k) ∧ a.Sum (s.toInt * nanosPerSecond) (a.plusSeconds s) ∧
      (a ≤ a.plusNanos k ↔ ¬FallsBack a.epochNanos (a.epochNanos + k.toNat)) ∧
      a ≤ a.plusSeconds s ∧
      (a.plusNanos k ≤ b.plusNanos k ↔
        ¬FallsBack (a.epochNanos + k.toNat) (b.epochNanos + k.toNat)) ∧
      (a.plusSeconds s ≤ b.plusSeconds s ↔
        ¬FallsBack (a.epochNanos + s.toInt * nanosPerSecond)
          (b.epochNanos + s.toInt * nanosPerSecond)) ∧
      ∀ m n, FallsBack m n → ¬OnLine n := by
  have hamount : 0 ≤ s.toInt * nanosPerSecond :=
    Int.mul_nonneg (Int64.le_iff_toInt_le.mp hs) (by decide)
  have hstay : ¬FallsBack a.epochNanos (a.epochNanos + s.toInt * nanosPerSecond) := by
    rintro ⟨-, -, hless⟩
    rw [Int.add_mul_emod_self_right] at hless
    exact Int.lt_irrefl _ hless
  have hown {i : ℤ} (hi : 0 ≤ i) :=
    ha.sum_le_sum_iff ha (le_refl a) (Int.le_refl 0) hi
  simp only [Int.add_zero, ha.ofNanos_epochNanos] at hown
  rw [a.plusNanos_eq, b.plusNanos_eq, ha.plusSeconds_eq, hb.plusSeconds_eq]
  exact ⟨sum_of_eq rfl, sum_of_eq rfl, hown (Int.natCast_nonneg _), (hown hamount).mpr hstay,
    ha.sum_le_sum_iff hb hab (Int.natCast_nonneg _) (Int.le_refl _),
    ha.sum_le_sum_iff hb hab hamount (Int.le_refl _), fun _ _ h => h.not_onLine⟩

def last : Timestamp := ⟨Int64.maxValue, 999999999⟩

/-- A nanosecond takes the last timestamp back, and a second brings the one a second before it
behind the one that is a nanosecond later. -/
theorem sums_in_order_iff_last :
    (last.Normal ∧ last ≤ last ∧
        Normal ⟨Int64.maxValue - 1, 999999999⟩ ∧ Normal ⟨Int64.maxValue, 0⟩ ∧
        (⟨Int64.maxValue - 1, 999999999⟩ : Timestamp) ≤ ⟨Int64.maxValue, 0⟩ ∧ (0 : Int64) ≤ 1) ∧
      ¬last ≤ last.plusNanos 1 ∧
      ¬plusSeconds ⟨Int64.maxValue - 1, 999999999⟩ 1 ≤ plusSeconds ⟨Int64.maxValue, 0⟩ 1 := by
  have hlast : last.Normal := by decide
  have ha : Normal ⟨Int64.maxValue - 1, 999999999⟩ := by decide
  have hb : Normal ⟨Int64.maxValue, 0⟩ := by decide
  have hab : (⟨Int64.maxValue - 1, 999999999⟩ : Timestamp) ≤ ⟨Int64.maxValue, 0⟩ := by decide
  have hs : (0 : Int64) ≤ 1 := by decide
  obtain ⟨-, -, hnanos, -⟩ := sums_in_order_iff hlast hlast (le_refl last) 1 hs
  obtain ⟨-, -, -, -, -, hseconds, -⟩ := sums_in_order_iff ha hb hab 0 hs
  exact ⟨⟨hlast, le_refl last, ha, hb, hab, hs⟩, fun h => hnanos.mp h (by decide),
    fun h => hseconds.mp h (by decide)⟩

end SealedStream.Timestamp
