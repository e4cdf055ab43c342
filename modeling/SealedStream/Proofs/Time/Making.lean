import SealedStream.Config.Reading
import SealedStream.Proofs.Time.Addition
import SealedStream.Proofs.Time.Period

/-!
How timestamps are made, and whether their order is that of time.

Whatever is put together or added up has a nanosecond part below one second. A datum is taken at its
word: a timestamp that was just read may have whole seconds in its nanosecond part, and then come
before timestamps that are earlier than it is.
-/

namespace SealedStream

/-! ### Numbers of a datum -/

namespace Datum

variable {d : Datum}

lemma integerIn?_eq_some_iff {low high n : ℤ} :
    d.integerIn? low high = some n ↔ d = .integer n ∧ low ≤ n ∧ n ≤ high := by
  cases d <;> grind [integerIn?]

lemma int64?_eq_some_iff {x : Int64} : d.int64? = some x ↔ d = .integer x.toInt := by
  rw [int64?, Option.map_eq_some_iff]
  constructor
  · rintro ⟨n, hn, rfl⟩
    obtain ⟨rfl, hfits⟩ := integerIn?_eq_some_iff.mp hn
    obtain ⟨hlow, hhigh⟩ := fits64_iff.mp hfits
    rw [Int64.toInt_ofInt_of_le hlow (by omega)]
  · rintro rfl
    exact ⟨x.toInt, integerIn?_eq_some_iff.mpr ⟨rfl, fits64_toInt x⟩, Int64.ofInt_toInt x⟩

lemma uint32?_eq_some_iff {x : UInt32} : d.uint32? = some x ↔ d = .integer x.toNat := by
  have hx := x.toNat_lt
  rw [uint32?, Option.map_eq_some_iff]
  constructor
  · rintro ⟨n, hn, rfl⟩
    obtain ⟨rfl, hlow, hhigh⟩ := integerIn?_eq_some_iff.mp hn
    rw [UInt32.toNat_ofNat', Nat.mod_eq_of_lt (by unfold UInt32.size at hhigh; omega),
      Int.toNat_of_nonneg hlow]
  · rintro rfl
    refine ⟨x.toNat, integerIn?_eq_some_iff.mpr ⟨rfl, by omega, by unfold UInt32.size; omega⟩, ?_⟩
    rw [Int.toNat_natCast, UInt32.ofNat_toNat]

lemma needed?_eq_some_iff {α : Type} {read : Datum → Option α} {field : Option Datum} {x : α} :
    needed? read field = some x ↔ ∃ d, field = some d ∧ read d = some x :=
  Option.bind_eq_some_iff

end Datum

namespace Timestamp

variable {a b t : Timestamp} {d : Datum}

/-- **A datum is taken at its word**: both numbers are those that it says. -/
lemma ofDatum?_eq_some_iff : ofDatum? d = some t ↔ d.fields? true ["seconds", "nanos"] =
    some [some (.integer t.seconds.toInt), some (.integer t.nanos.toNat)] := by
  unfold ofDatum?
  split
  · rename_i seconds nanos hfields
    simp only [hfields, Option.bind_eq_bind, Option.bind_eq_some_iff, Option.pure_def,
      Option.some.injEq, List.cons.injEq, and_true, Datum.needed?_eq_some_iff,
      Datum.int64?_eq_some_iff, Datum.uint32?_eq_some_iff, exists_eq_right]
    constructor
    · rintro ⟨s, hs, k, hk, rfl⟩
      exact ⟨hs, hk⟩
    · rintro ⟨hs, hk⟩
      exact ⟨t.seconds, hs, t.nanos, hk, rfl⟩
  · rename_i hother
    constructor
    · intro h
      cases h
    · intro h
      exact absurd h (hother _ _)

lemma ofDatum?_toDatum (t : Timestamp) : ofDatum? t.toDatum = some t :=
  ofDatum?_eq_some_iff.mpr rfl

/-! ### Making -/

lemma normal_plusNanos (t : Timestamp) (k : UInt32) : (t.plusNanos k).Normal := by
  rw [plusNanos_eq]
  exact normal_ofNanos _

lemma new_eq_plusNanos (s : Int64) (k : UInt32) : new s k = plusNanos ⟨s, 0⟩ k := by
  have hzero : (0 : UInt32).toNat + k.toNat = k.toNat := Nat.zero_add _
  simp only [plusNanos, hzero, new]

lemma normal_new (s : Int64) (k : UInt32) : (new s k).Normal := by
  rw [new_eq_plusNanos]
  exact normal_plusNanos _ k

/-- How a timestamp is made: from its parts, from a moment or from a datum, or as a sum. -/
inductive Making where
  | parts (seconds : Int64) (nanos : UInt32)
  | moment (moment : Moment)
  | datum (d : Datum)
  | secondsAfter (m : Making) (seconds : Int64)
  | nanosAfter (m : Making) (nanos : UInt32)

namespace Making

variable {m : Making}

/-- The timestamp that is made. There is none if a datum cannot be read. -/
def timestamp? : Making → Option Timestamp
  | parts s k => some (new s k)
  | moment m => some (ofMoment m)
  | datum d => ofDatum? d
  | secondsAfter m s => m.timestamp?.map (·.plusSeconds s)
  | nanosAfter m k => m.timestamp?.map (·.plusNanos k)

/-- A datum with a second or more in its nanosecond part. What is added to one is not. -/
def Overfull : Making → Prop
  | datum d => ∃ (s : Option Datum) (n : ℤ),
      d.fields? true ["seconds", "nanos"] = some [s, some (.integer n)] ∧ nanosPerSecond ≤ n
  | _ => False

lemma overfull_datum_iff (h : ofDatum? d = some t) : (datum d).Overfull ↔ ¬t.Normal := by
  rw [Overfull, ofDatum?_eq_some_iff.mp h, Normal, Nat.not_lt]
  simp

/-- **The nanosecond part is below a second**, unless the timestamp is an overfull datum. -/
lemma normal_iff (h : m.timestamp? = some t) : t.Normal ↔ ¬m.Overfull := by
  cases m with
  | parts s k =>
    cases h
    exact iff_of_true (normal_new s k) not_false
  | moment m =>
    cases h
    exact iff_of_true (normal_new _ _) not_false
  | datum d => rw [overfull_datum_iff h, not_not]
  -- a sum carries whatever the other timestamp holds
  | secondsAfter m s =>
    obtain ⟨u, -, rfl⟩ := Option.map_eq_some_iff.mp h
    exact iff_of_true (normal_new _ _) not_false
  | nanosAfter m k =>
    obtain ⟨u, -, rfl⟩ := Option.map_eq_some_iff.mp h
    exact iff_of_true (normal_plusNanos u k) not_false

end Making

/-! ### Order and time -/

/-- The milliseconds in the nanosecond part of `a` are more than the seconds by which it comes
first, with those in the nanosecond part of `b`. -/
def Overtakes (a b : Timestamp) : Prop :=
  a.seconds.toInt < b.seconds.toInt ∧
    (b.seconds.toInt - a.seconds.toInt) * 1000 + (b.nanos.toNat / 1000000 : ℕ) <
      (a.nanos.toNat / 1000000 : ℕ)

instance (a b : Timestamp) : Decidable (Overtakes a b) := inferInstanceAs (Decidable (_ ∧ _))

lemma overtakes_iff : Overtakes a b ↔ a ≤ b ∧ b.epochMillis < a.epochMillis := by
  rw [le_iff]
  unfold Overtakes epochMillis
  omega

lemma Overtakes.not_normal (h : Overtakes a b) : ¬a.Normal := by
  obtain ⟨hseconds, hmillis⟩ := h
  unfold Normal nanosPerSecond
  omega

end Timestamp

namespace PeriodClock

variable (c : PeriodClock) {a b t : Timestamp}

/-- A period begins at this millisecond. The first one has no beginning. -/
def Begins (n : ℤ) : Prop := ∃ i : Int64, Int64.minValue < i ∧ n = i.toInt * c.millis.toNat

lemma le_period_iff {i : Int64} (hi : Int64.minValue < i) :
    i ≤ c.period t ↔ i.toInt * c.millis.toNat ≤ t.epochMillis := by
  have hmin : Int64.minValue.toInt = -2 ^ 63 := rfl
  have hlow := Int64.lt_iff_toInt_lt.mp hi
  have hhigh := i.toInt_lt
  rw [Int64.le_iff_toInt_le, period, Timestamp.periodIn, toInt_clamp64,
    ← Int.le_ediv_iff_mul_le c.millis_pos]
  omega

/-- **A period is later** just if one begins between the two timestamps. -/
lemma period_lt_iff : c.period b < c.period a ↔
    ∃ n, c.Begins n ∧ b.epochMillis < n ∧ n ≤ a.epochMillis := by
  constructor
  · intro h
    -- what is later than some period has a beginning
    have hi : Int64.minValue < c.period a := Int64.lt_of_le_of_lt (Int64.minValue_le _) h
    refine ⟨_, ⟨c.period a, hi, rfl⟩, ?_, (c.le_period_iff hi).mp (Int64.le_refl _)⟩
    rw [← Int.not_le, ← c.le_period_iff hi]
    exact Int64.not_le.mpr h
  · rintro ⟨n, ⟨i, hi, rfl⟩, hb, ha⟩
    rw [← Int.not_le, ← c.le_period_iff hi, Int64.not_le] at hb
    exact Int64.lt_of_lt_of_le hb ((c.le_period_iff hi).mpr ha)

end PeriodClock

namespace Timestamp

variable {a b : Timestamp}

/-- **The order is that of time** unless the first overtakes the second. -/
lemma in_time_iff (h : a ≤ b) : (a.epochMillis ≤ b.epochMillis ∧
    ∀ c : PeriodClock, c.period a ≤ c.period b) ↔ ¬Overtakes a b := by
  constructor
  · rintro ⟨hmillis, -⟩ hover
    exact Int.not_lt.mpr hmillis (overtakes_iff.mp hover).2
  · intro hover
    have hmillis : a.epochMillis ≤ b.epochMillis :=
      Int.not_lt.mp fun hlt => hover (overtakes_iff.mpr ⟨h, hlt⟩)
    refine ⟨hmillis, fun c => Int64.not_lt.mp fun hlt => ?_⟩
    obtain ⟨n, -, hb, ha⟩ := c.period_lt_iff.mp hlt
    omega

namespace Making

variable {m m' : Making}

/-- **Timestamps are in the order of time**, however they are made, unless the first one is an
overfull datum that overtakes the second; and the nanosecond part of any but an overfull datum is
below a second. Where one overtakes another, a clock shows it just if a period begins between the
two. A datum can say any two numbers. -/
theorem order_is_time_iff (ha : m.timestamp? = some a) (hb : m'.timestamp? = some b) :
    (a.Normal ↔ ¬m.Overfull) ∧ (b.Normal ↔ ¬m'.Overfull) ∧
      (¬m.Overfull → ¬m'.Overfull → (a ≤ b ↔ a.epochNanos ≤ b.epochNanos)) ∧
      (a ≤ b → ((a.epochMillis ≤ b.epochMillis ∧ ∀ c : PeriodClock, c.period a ≤ c.period b) ↔
        ¬Overtakes a b)) ∧
      (Overtakes a b → a ≤ b ∧ m.Overfull) ∧
      (∀ c : PeriodClock, c.period b < c.period a ↔
        ∃ n, c.Begins n ∧ b.epochMillis < n ∧ n ≤ a.epochMillis) ∧
      ∀ t : Timestamp, (datum t.toDatum).timestamp? = some t := by
  have hfirst := normal_iff ha
  have hsecond := normal_iff hb
  refine ⟨hfirst, hsecond, ?_, in_time_iff, ?_, fun c => c.period_lt_iff, ofDatum?_toDatum⟩
  · intro hm hm'
    exact (hfirst.mpr hm).le_iff (hsecond.mpr hm')
  · intro hover
    exact ⟨(overtakes_iff.mp hover).1, not_not.mp fun hm => hover.not_normal (hfirst.mpr hm)⟩

/-- A datum that says a second and a half in its nanosecond part. -/
def unreduced : Datum := toDatum ⟨0, 1500000000⟩

/-- It comes before the second that it is half a second after, and is in a later period of half a
second. Adding nothing to it mends it. -/
theorem order_is_time_iff_unreduced :
    ((datum unreduced).timestamp? = some ⟨0, 1500000000⟩ ∧ (parts 1 0).timestamp? = some ⟨1, 0⟩ ∧
        (nanosAfter (datum unreduced) 0).timestamp? = some ⟨1, 500000000⟩ ∧
        (⟨0, 1500000000⟩ : Timestamp) ≤ ⟨1, 0⟩) ∧
      ¬Normal ⟨0, 1500000000⟩ ∧ Normal ⟨1, 500000000⟩ ∧
      ¬(epochMillis ⟨0, 1500000000⟩ ≤ epochMillis ⟨1, 0⟩ ∧
        ∀ c : PeriodClock, c.period ⟨0, 1500000000⟩ ≤ c.period ⟨1, 0⟩) ∧
      PeriodClock.period ⟨500, by decide⟩ ⟨1, 0⟩ <
        PeriodClock.period ⟨500, by decide⟩ ⟨0, 1500000000⟩ := by
  have ha : (datum unreduced).timestamp? = some ⟨0, 1500000000⟩ := by decide
  have hb : (parts 1 0).timestamp? = some ⟨1, 0⟩ := by decide
  have hsum : (nanosAfter (datum unreduced) 0).timestamp? = some ⟨1, 500000000⟩ := by decide
  have hab : (⟨0, 1500000000⟩ : Timestamp) ≤ ⟨1, 0⟩ := by decide
  have hover : Overtakes ⟨0, 1500000000⟩ ⟨1, 0⟩ := by decide
  obtain ⟨hfull, -, -, htime, hcause, hperiod, -⟩ := order_is_time_iff ha hb
  obtain ⟨hmended, -⟩ := order_is_time_iff hsum hb
  refine ⟨⟨ha, hb, hsum, hab⟩, fun h => hfull.mp h (hcause hover).2, hmended.mpr not_false,
    fun h => (htime hab).mp h hover, (hperiod _).mpr ⟨1500, ⟨3, by decide, by decide⟩, ?_⟩⟩
  decide

end Making

end Timestamp

end SealedStream
