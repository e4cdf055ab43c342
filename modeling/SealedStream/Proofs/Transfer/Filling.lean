import Mathlib.Tactic.Common
import SealedStream.Wire.Field

/-!
Sinks with room for so many bytes, which take an offer piece by piece.

However an offer is cut, what is taken in the end is as much of it as fits, and a write fails only
if that is not all.
-/

namespace SealedStream

/-- A sink that keeps what it takes: a front of each offer, at most `chunk` bytes of it and at most
`limit` bytes in all. It fails once it is full. -/
structure Vessel (τ : Type) [Sink τ] (chunk limit : ℕ) where
  Sound : τ → Prop
  taken : τ → Bytes
  takes : ∀ {t : τ} (b : UInt8) (bs : Bytes), Sound t → (taken t).length < limit →
    ∃ k t', Sink.accept (b :: bs) t = (.ok (k + 1), t') ∧ k + 1 ≤ chunk ∧ k ≤ bs.length ∧
      (taken t).length + (k + 1) ≤ limit ∧ Sound t' ∧ taken t' = taken t ++ (b :: bs).take (k + 1)
  full : ∀ {t : τ} (b : UInt8) (bs : Bytes), Sound t → limit ≤ (taken t).length →
    ∃ e t', Sink.accept (b :: bs) t = (.error e, t') ∧ e.kind ≠ .interrupted ∧ Sound t' ∧
      taken t' = taken t

namespace Vessel

variable {τ : Type} [Sink τ] {chunk limit : ℕ} (V : Vessel τ chunk limit)

/-- What comes of writing `bs`: as much as fits is taken, and it fails if that is not all. -/
structure Pours (t : τ) (bs : Bytes) (r : Except Failure Unit × τ) : Prop where
  sound : V.Sound r.2
  taken : V.taken r.2 = V.taken t ++ bs.take (limit - (V.taken t).length)
  fails : r.1.isOk = false ↔ bs ≠ [] ∧ limit < (V.taken t).length + bs.length

variable {V} {t t' : τ} {xs ys bs : Bytes} {r : Except Failure Unit × τ}

lemma pours_nil (ht : V.Sound t) : V.Pours t [] (.ok (), t) :=
  ⟨ht, by simp, by simp [Except.isOk, Except.toBool]⟩

lemma Pours.after (htaken : V.taken t' = V.taken t ++ xs)
    (hfit : xs ≠ [] → (V.taken t).length + xs.length ≤ limit) (h : V.Pours t' ys r) :
    V.Pours t (xs ++ ys) r := by
  have hlen : (V.taken t').length = (V.taken t).length + xs.length := by
    rw [htaken, List.length_append]
  refine ⟨h.sound, ?_, ?_⟩
  · have hall : xs.take (limit - (V.taken t).length) = xs := by
      rcases eq_or_ne xs [] with rfl | hne
      · exact List.take_nil
      · have := hfit hne
        exact List.take_of_length_le (by omega)
    rw [h.taken, htaken, List.take_append, hall, List.append_assoc, List.length_append,
      Nat.sub_sub]
  · rw [h.fails, hlen, List.length_append]
    rcases eq_or_ne ys [] with rfl | hne
    · rw [List.append_nil]
      refine iff_of_false (fun h => h.1 rfl) ?_
      rintro ⟨hne, hlong⟩
      have := hfit hne
      rw [List.length_nil] at hlong
      omega
    · rw [Nat.add_assoc]
      exact and_congr_left' (iff_of_true hne (List.append_ne_nil_of_right_ne_nil _ hne))

lemma Pours.stop {e : Failure} (h : V.Pours t xs (.error e, t')) :
    V.Pours t (xs ++ ys) (.error e, t') := by
  obtain ⟨hne, hlong⟩ := h.fails.mp rfl
  refine ⟨h.sound, ?_, ?_⟩
  · rw [h.taken, List.take_append_of_le_length (by omega)]
  · refine iff_of_true rfl ⟨List.append_ne_nil_of_left_ne_nil hne _, ?_⟩
    rw [List.length_append]
    omega

/-- The induction is on the calls, of which each takes a byte. -/
lemma pours_writeWithin {n : ℕ} (hn : bs.length ≤ n) (ht : V.Sound t) :
    V.Pours t bs (Sink.writeWithin n bs t) := by
  induction n generalizing bs t with
  | zero =>
    obtain rfl := List.length_eq_zero_iff.mp (Nat.le_zero.mp hn)
    exact pours_nil ht
  | succ n ih =>
    rcases bs with _ | ⟨b, bs⟩
    · exact pours_nil ht
    rw [Sink.writeWithin]
    rcases Nat.lt_or_ge (V.taken t).length limit with hroom | hfull
    · obtain ⟨k, t', haccept, -, hk, hfit, ht', htaken⟩ := V.takes b bs ht hroom
      rw [haccept]
      have hlen : (bs.drop k).length ≤ n := by
        simp only [List.length_cons, List.length_drop] at hn ⊢
        omega
      have hrest := Pours.after htaken (fun _ => by simp; omega) (ih hlen ht')
      rwa [List.take_succ_cons, List.cons_append, List.take_append_drop] at hrest
    · obtain ⟨e, t', haccept, hkind, ht', htaken⟩ := V.full b bs ht hfull
      rw [haccept]
      simp only [hkind, if_false]
      refine ⟨ht', ?_, iff_of_true rfl ⟨List.cons_ne_nil _ _, ?_⟩⟩
      · simp [htaken, Nat.sub_eq_zero_of_le hfull]
      · simp only [List.length_cons]
        omega

lemma pours_writeAll (bs : Bytes) (ht : V.Sound t) : V.Pours t bs (Sink.writeAll bs t) :=
  pours_writeWithin (Nat.le_add_right _ _) ht

lemma pours_fields {fields : List Field} (h : Field.join fields = .ok bs) (ht : V.Sound t) :
    V.Pours t bs (Field.write fields t) := by
  induction fields generalizing t bs with
  | nil =>
    cases h
    exact pours_nil ht
  | cons field fields ih =>
    cases field with
    | error e => cases h
    | ok xs =>
      rw [Field.join] at h
      cases hrest : Field.join fields with
      | error e =>
        rw [hrest] at h
        cases h
      | ok ys =>
        rw [hrest] at h
        cases h
        have hfirst := pours_writeAll xs ht
        rw [Field.write]
        rcases hwrite : Sink.writeAll xs t with ⟨_ | _, t'⟩ <;> rw [hwrite] at hfirst
        · exact hfirst.stop
        · -- the first field has been taken as a whole
          have hfit : xs ≠ [] → (V.taken t).length + xs.length ≤ limit := by
            intro hne
            by_contra hlong
            exact Bool.noConfusion (hfirst.fails.mpr ⟨hne, by omega⟩)
          have htaken : V.taken t' = V.taken t ++ xs := by
            rw [hfirst.taken]
            rcases eq_or_ne xs [] with rfl | hne
            · rw [List.take_nil]
            · have := hfit hne
              rw [List.take_of_length_le (by omega)]
          exact Pours.after htaken hfit (ih hrest hfirst.sound)

end Vessel

namespace Limited

variable {chunk limit : ℕ} {kept : Array UInt8}

lemma share_eq (bs : Bytes) :
    (⟨some chunk, some limit, kept⟩ : Limited).share bs =
      bs.take (min (limit - kept.size) chunk) :=
  List.take_take

def vessel (hchunk : 1 ≤ chunk) (limit : ℕ) : Vessel Limited chunk limit where
  Sound t := t.chunk = some chunk ∧ t.limit = some limit
  taken := taken
  takes := by
    rintro ⟨_, _, kept⟩ b bs ⟨rfl, rfl⟩ hroom
    replace hroom : kept.size < limit := by simpa [taken] using hroom
    obtain ⟨n, hn⟩ : ∃ n, min (limit - kept.size) chunk = n + 1 :=
      ⟨_, (Nat.sub_add_cancel (by omega)).symm⟩
    have hpiece : (⟨some chunk, some limit, kept⟩ : Limited).share (b :: bs) = b :: bs.take n := by
      rw [share_eq, hn, List.take_succ_cons]
    refine ⟨(bs.take n).length, ⟨some chunk, some limit, kept ++ b :: bs.take n⟩, ?_, ?_, ?_, ?_,
      ⟨rfl, rfl⟩, ?_⟩
    · simp [Sink.accept, hpiece]
    · rw [List.length_take]
      omega
    · exact List.length_take_le' _ _
    · simp only [taken, Array.length_toList, List.length_take]
      omega
    · simp [taken, List.take_eq_take_iff]
  full := by
    rintro ⟨_, _, kept⟩ b bs ⟨rfl, rfl⟩ hfull
    replace hfull : limit ≤ kept.size := by simpa [taken] using hfull
    have hpiece : (⟨some chunk, some limit, kept⟩ : Limited).share (b :: bs) = [] := by
      rw [share_eq, Nat.sub_eq_zero_of_le hfull, Nat.zero_min, List.take_zero]
    exact ⟨.ofKind .storageFull, _, by simp [Sink.accept, hpiece], nofun, ⟨rfl, rfl⟩, rfl⟩

end Limited

end SealedStream
