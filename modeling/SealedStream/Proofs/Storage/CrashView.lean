import Mathlib.Data.Nat.Notation
import SealedStream.Proofs.Storage.FileView

/-!
A storage that crashes, seen as the one inside of it is.

It does a number of operations. From then on nothing has any effect, so what is inside is what a
later run will find.
-/

namespace SealedStream

structure Crashing (σ : Type) where
  inner : σ
  /-- How many operations are done before the crash. -/
  left : ℕ

namespace Crashing

open Function (update)

def failure : Failure := ⟨.other, none⟩

section

variable {σ ω α : Type}

def spend (act : σ → Except Failure α × σ) (s : Crashing σ) : Except Failure α × Crashing σ :=
  match s.left with
  | 0 => (.error failure, s)
  | n + 1 =>
    let (r, inner) := act s.inner
    (r, ⟨inner, n⟩)

instance [Storage σ ω] : Storage (Crashing σ) ω where
  present p s := Storage.present p s.inner
  create p := spend (Storage.create p)
  write bs o s :=
    match s.left with
    | 0 => (.error failure, o, s)
    | n + 1 =>
      let (r, o, inner) := Storage.write bs o s.inner
      (r, o, ⟨inner, n⟩)
  interruptions o s := Storage.interruptions o s.inner
  close o := spend (Storage.close o)
  rename source target := spend (Storage.rename source target)
  remove p := spend (Storage.remove p)
  openRead p := spend (Storage.openRead p)

variable {act : σ → Except Failure α × σ} {s s' : Crashing σ}

lemma spend_ok {a : α} (h : spend act s = (.ok a, s')) : act s.inner = (.ok a, s'.inner) := by
  unfold spend at h
  split at h
  · cases h
  · rcases hact : act s.inner with ⟨r, inner⟩
    rw [hact] at h
    cases h
    rfl

lemma spend_error {e : Failure} (h : spend act s = (.error e, s')) :
    s'.inner = s.inner ∨ act s.inner = (.error e, s'.inner) := by
  unfold spend at h
  split at h
  · cases h
    exact .inl rfl
  · rcases hact : act s.inner with ⟨r, inner⟩
    rw [hact] at h
    cases h
    exact .inr rfl

end

variable {σ ω : Type} [Storage σ ω] {V : FileView σ ω} {s s' : Crashing σ} {o o' : ω} {p : Path}
  {bs data : Bytes}

lemma write_cases {r : Except Failure ℕ} (h : Storage.write data o s = (r, o', s')) :
    r = .error failure ∧ o' = o ∧ s' = s ∨
      Storage.write data o s.inner = (r, o', s'.inner) := by
  change (match s.left with
    | 0 => ((.error failure : Except Failure ℕ), o, s)
    | n + 1 => _) = _ at h
  split at h
  · cases h
    exact .inl ⟨rfl, rfl, rfl⟩
  · cases h
    exact .inr rfl

/-- **The view of a storage, up to a crash and after it.** -/
def view (V : FileView σ ω) : FileView (Crashing σ) ω where
  Reach := V.Reach
  Sound s := V.Sound s.inner
  file s := V.file s.inner
  Open s := V.Open s.inner
  present_eq h hp := V.present_eq h hp
  open_isSome h ho := V.open_isSome h ho
  create_ok h hp hcreate := V.create_ok h hp (spend_ok hcreate)
  create_error h hp hcreate := by
    rcases spend_error hcreate with hinner | hact
    · exact ⟨hinner ▸ h, by rw [hinner]⟩
    · exact V.create_error h hp hact
  write_ok h ho hwrite := by
    rcases write_cases hwrite with ⟨hr, -, -⟩ | hact
    · cases hr
    · exact V.write_ok h ho hact
  write_error h ho hwrite := by
    rcases write_cases hwrite with ⟨-, rfl, rfl⟩ | hact
    · obtain ⟨c, hc⟩ := Option.isSome_iff_exists.mp (V.open_isSome h ho)
      refine ⟨h, ⟨0, fun _ => rfl, by simpa using ho⟩, c, ?_⟩
      rw [← hc, Function.update_eq_self]
    · exact V.write_error h ho hact
  close_ok h ho hclose := V.close_ok h ho (spend_ok hclose)
  close_error h ho hclose := by
    rcases spend_error hclose with hinner | hact
    · obtain ⟨c, hc⟩ := Option.isSome_iff_exists.mp (V.open_isSome h ho)
      refine ⟨hinner ▸ h, c, ?_⟩
      rw [hinner, ← hc, Function.update_eq_self]
    · exact V.close_error h ho hact
  rename_ok h hp hq hne hrename := V.rename_ok h hp hq hne (spend_ok hrename)
  rename_error h hp hq hne hrename := by
    rcases spend_error hrename with hinner | hact
    · exact ⟨hinner ▸ h, by rw [hinner]⟩
    · exact V.rename_error h hp hq hne hact
  remove_ok h hp hremove := V.remove_ok h hp (spend_ok hremove)
  remove_error h hp hremove := by
    rcases spend_error hremove with hinner | hact
    · exact ⟨hinner ▸ h, by rw [hinner]⟩
    · exact V.remove_error h hp hact
  read_ok h hp hread := V.read_ok h hp (spend_ok hread)
  read_error h hp hread := by
    rcases spend_error hread with hinner | hact
    · exact ⟨hinner ▸ h, by rw [hinner]⟩
    · exact V.read_error h hp hact

end Crashing

end SealedStream
