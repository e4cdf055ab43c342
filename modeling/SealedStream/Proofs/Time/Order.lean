import Mathlib.Tactic.Common
import SealedStream.Time.Timestamp

/-!
The order of timestamps.
-/

namespace SealedStream.Timestamp

variable {a b : Timestamp}

/-- Strictly earlier. -/
instance : LT Timestamp := ⟨fun a b => compare a b = .lt⟩

instance (a b : Timestamp) : Decidable (a < b) := inferInstanceAs (Decidable (_ = _))

lemma compare_eq (a b : Timestamp) :
    compare a b = (compare a.seconds b.seconds).then (compare a.nanos b.nanos) := rfl

lemma compare_eq_eq (h : compare a b = .eq) : a = b := by
  rw [compare_eq, Ordering.then_eq_eq] at h
  rcases a with ⟨s, n⟩
  rcases b with ⟨s', n'⟩
  rw [Timestamp.mk.injEq]
  exact ⟨Std.LawfulEqCmp.eq_of_compare h.1, Std.LawfulEqCmp.eq_of_compare h.2⟩

lemma ne_of_lt (h : a < b) : a ≠ b := by
  rintro rfl
  have h : compare a a = .lt := h
  rw [compare_eq] at h
  simp at h

lemma compare_swap (a b : Timestamp) : compare a b = (compare b a).swap := by
  rw [compare_eq, compare_eq, Ordering.swap_then, ← Std.OrientedCmp.eq_swap,
    ← Std.OrientedCmp.eq_swap]

lemma le_antisymm (h : a ≤ b) (h' : b ≤ a) : a = b := by
  have hab : (compare a b).isLE = true := h
  have hba : (compare b a).isLE = true := h'
  refine compare_eq_eq ?_
  rw [compare_swap] at hba
  cases hc : compare a b with
  | lt => rw [hc] at hba; cases hba
  | eq => rfl
  | gt => rw [hc] at hab; cases hab

end SealedStream.Timestamp
