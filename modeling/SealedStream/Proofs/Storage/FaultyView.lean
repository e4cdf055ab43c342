import Mathlib.Data.Nat.Notation
import SealedStream.Proofs.Storage.FileView
import SealedStream.Storage.Faulty

/-!
A storage that fails on purpose, seen as the one inside of it is.

One rule is left out: a read that is interrupted, and at its end when it is tried again, would pass
for a file with nothing in it.
-/

namespace SealedStream.Faulty

open Function (update)

section

variable {σ ω α : Type} {s s' : Faulty σ} {f : Option Failure} {act : σ → Except Failure α × σ}

lemma guarded_ok {a : α} (h : guarded f act s = (.ok a, s')) :
    act s.inner = (.ok a, s'.inner) ∧ s'.faults = s.faults := by
  unfold guarded at h
  cases f with
  | some g => cases h
  | none =>
    rcases hact : act s.inner with ⟨r, inner⟩
    rw [hact] at h
    cases h
    exact ⟨rfl, rfl⟩

lemma guarded_error {e : Failure} (h : guarded f act s = (.error e, s')) :
    s'.faults = s.faults ∧ (s'.inner = s.inner ∨ act s.inner = (.error e, s'.inner)) := by
  unfold guarded at h
  cases f with
  | some g =>
    cases h
    exact ⟨rfl, .inl rfl⟩
  | none =>
    rcases hact : act s.inner with ⟨r, inner⟩
    rw [hact] at h
    cases h
    exact ⟨rfl, .inr rfl⟩

end

variable {σ ω : Type} [Storage σ ω] {V : FileView σ ω} {s s' : Faulty σ} {o o' : FaultyOutput ω}
  {p : Path} {bs : Bytes}

lemma create_cases {r : Except Failure (FaultyOutput ω)} (h : Storage.create p s = (r, s')) :
    ∃ q, guarded (failure? s.faults.create p) (Storage.create p) s = (q, s') ∧
      r = q.map fun inner => ⟨inner, p, 0⟩ := by
  cases h
  exact ⟨_, rfl, rfl⟩

lemma write_cases {r : Except Failure ℕ} (h : Storage.write bs o s = (r, o', s')) :
    s'.faults = s.faults ∧ ((∃ f, r = .error f) ∧ o' = o ∧ s' = s ∨
      Storage.write bs o.inner s.inner = (r, o'.inner, s'.inner)) := by
  simp only [Storage.write] at h
  split at h
  · cases h
    exact ⟨rfl, .inl ⟨⟨_, rfl⟩, rfl, rfl⟩⟩
  · cases h
    exact ⟨rfl, .inr rfl⟩

/-- Closing is done before it fails. -/
lemma close_cases {r : Except Failure Unit} (h : Storage.close o s = (r, s')) :
    s'.faults = s.faults ∧ (Storage.close o.inner s.inner = (r, s'.inner) ∨
      (∃ f, r = .error f) ∧ Storage.close o.inner s.inner = (.ok (), s'.inner)) := by
  rcases hact : Storage.close o.inner s.inner with ⟨q, inner⟩
  simp only [Storage.close, hact] at h
  split at h
  · cases h
    exact ⟨rfl, .inr ⟨⟨_, rfl⟩, rfl⟩⟩
  · cases h
    exact ⟨rfl, .inl rfl⟩

lemma openRead_cases {r : Except Failure Source} (h : Storage.openRead p s = (r, s')) :
    ∃ q, guarded (failure? s.faults.openRead p) (Storage.openRead p) s = (q, s') ∧
      (r = q ∨ ∃ source rule, q = .ok source ∧ s.faults.read = some rule ∧
        r = .ok [.failure rule.failure]) := by
  rcases hg : guarded (failure? s.faults.openRead p) (Storage.openRead p) s with ⟨q, t⟩
  simp only [Storage.openRead, hg] at h
  split at h
  · rename_i source f hf
    cases h
    have hfaults := (guarded_ok hg).2
    unfold failure? at hf
    split at hf
    · rename_i rule hrule
      split at hf
      · cases hf
        exact ⟨_, rfl, .inr ⟨source, rule, rfl, hfaults ▸ hrule, rfl⟩⟩
      · cases hf
    · cases hf
  · cases h
    exact ⟨_, rfl, .inl rfl⟩

/-- The inside is sound, and no read fails as interrupted. -/
structure Sound (V : FileView σ ω) (s : Faulty σ) : Prop where
  inner : V.Sound s.inner
  reads {r : FaultRule} : s.faults.read = some r → r.kind ≠ .interrupted

lemma Sound.next (h : Sound V s) (hinner : V.Sound s'.inner) (hfaults : s'.faults = s.faults) :
    Sound V s' :=
  ⟨hinner, hfaults ▸ h.reads⟩

/-- **The view of a storage, through whatever faults.** -/
def view (V : FileView σ ω) : FileView (Faulty σ) (FaultyOutput ω) where
  Reach := V.Reach
  Sound := Sound V
  file s := V.file s.inner
  Open s o := V.Open s.inner o.inner
  present_eq h hp := V.present_eq h.inner hp
  open_isSome h ho := V.open_isSome h.inner ho
  create_ok {s s' o p} h hp hcreate := by
    obtain ⟨q, hg, hq⟩ := create_cases hcreate
    cases q with
    | error e => cases hq
    | ok inner =>
      cases hq
      obtain ⟨hact, hfaults⟩ := guarded_ok hg
      obtain ⟨hsound, hnone, hopen, hfile⟩ := V.create_ok h.inner hp hact
      exact ⟨h.next hsound hfaults, hnone, hopen, hfile⟩
  create_error {s s' e p} h hp hcreate := by
    obtain ⟨q, hg, hq⟩ := create_cases hcreate
    cases q with
    | ok inner => cases hq
    | error e =>
      obtain ⟨hfaults, hinner | hact⟩ := guarded_error hg
      · exact ⟨h.next (hinner ▸ h.inner) hfaults, by rw [hinner]⟩
      · obtain ⟨hsound, hfile⟩ := V.create_error h.inner hp hact
        exact ⟨h.next hsound hfaults, hfile⟩
  write_ok {s s' o o' p bs data n} h ho hwrite := by
    obtain ⟨hfaults, ⟨⟨f, hf⟩, -⟩ | hact⟩ := write_cases hwrite
    · cases hf
    · obtain ⟨hsound, hle, hopen, hfile⟩ := V.write_ok h.inner ho hact
      exact ⟨h.next hsound hfaults, hle, hopen, hfile⟩
  write_error {s s' o o' p bs data e} h ho hwrite := by
    obtain ⟨hfaults, ⟨-, rfl, rfl⟩ | hact⟩ := write_cases hwrite
    · obtain ⟨c, hc⟩ := Option.isSome_iff_exists.mp (V.open_isSome h.inner ho)
      refine ⟨h, ⟨0, fun _ => rfl, by simpa using ho⟩, c, ?_⟩
      rw [← hc, Function.update_eq_self]
    · obtain ⟨hsound, hopen, hfile⟩ := V.write_error h.inner ho hact
      exact ⟨h.next hsound hfaults, hopen, hfile⟩
  close_ok {s s' o p bs} h ho hclose := by
    obtain ⟨hfaults, hact | ⟨⟨f, hf⟩, -⟩⟩ := close_cases hclose
    · obtain ⟨hsound, hfile⟩ := V.close_ok h.inner ho hact
      exact ⟨h.next hsound hfaults, hfile⟩
    · cases hf
  close_error {s s' o p bs e} h ho hclose := by
    obtain ⟨hfaults, hact | ⟨-, hact⟩⟩ := close_cases hclose
    · obtain ⟨hsound, hfile⟩ := V.close_error h.inner ho hact
      exact ⟨h.next hsound hfaults, hfile⟩
    · obtain ⟨hsound, hfile⟩ := V.close_ok h.inner ho hact
      exact ⟨h.next hsound hfaults, bs, hfile⟩
  rename_ok {s s' p q} h hp hq hne hrename := by
    obtain ⟨hact, hfaults⟩ := guarded_ok hrename
    obtain ⟨hsound, hfile⟩ := V.rename_ok h.inner hp hq hne hact
    exact ⟨h.next hsound hfaults, hfile⟩
  rename_error {s s' p q e} h hp hq hne hrename := by
    obtain ⟨hfaults, hinner | hact⟩ := guarded_error hrename
    · exact ⟨h.next (hinner ▸ h.inner) hfaults, by rw [hinner]⟩
    · obtain ⟨hsound, hfile⟩ := V.rename_error h.inner hp hq hne hact
      exact ⟨h.next hsound hfaults, hfile⟩
  remove_ok {s s' p} h hp hremove := by
    obtain ⟨hact, hfaults⟩ := guarded_ok hremove
    obtain ⟨hsound, hfile⟩ := V.remove_ok h.inner hp hact
    exact ⟨h.next hsound hfaults, hfile⟩
  remove_error {s s' p e} h hp hremove := by
    obtain ⟨hfaults, hinner | hact⟩ := guarded_error hremove
    · exact ⟨h.next (hinner ▸ h.inner) hfaults, by rw [hinner]⟩
    · obtain ⟨hsound, hfile⟩ := V.remove_error h.inner hp hact
      exact ⟨h.next hsound hfaults, hfile⟩
  read_ok {s s' p source} h hp hread := by
    obtain ⟨q, hg, rfl | ⟨source', rule, rfl, hrule, hq⟩⟩ := openRead_cases hread
    · obtain ⟨hact, hfaults⟩ := guarded_ok hg
      obtain ⟨hsound, hfile, hbytes⟩ := V.read_ok h.inner hp hact
      exact ⟨h.next hsound hfaults, hfile, hbytes⟩
    · obtain ⟨hact, hfaults⟩ := guarded_ok hg
      obtain ⟨hsound, hfile, -⟩ := V.read_ok h.inner hp hact
      refine ⟨h.next hsound hfaults, hfile, fun c hc => ?_⟩
      cases hq
      simp [Source.readToEnd, FaultRule.failure, h.reads hrule] at hc
  read_error {s s' p e} h hp hread := by
    obtain ⟨q, hg, rfl | ⟨source, rule, -, -, hq⟩⟩ := openRead_cases hread
    · obtain ⟨hfaults, hinner | hact⟩ := guarded_error hg
      · exact ⟨h.next (hinner ▸ h.inner) hfaults, by rw [hinner]⟩
      · obtain ⟨hsound, hfile⟩ := V.read_error h.inner hp hact
        exact ⟨h.next hsound hfaults, hfile⟩
    · cases hq

/-! ### Faults that stay -/

section

variable {α : Type}

lemma faults_guarded {f : Option Failure} {act : σ → Except Failure α × σ} {r : Except Failure α}
    (h : guarded f act s = (r, s')) : s'.faults = s.faults := by
  cases r with
  | ok a => exact (guarded_ok h).2
  | error e => exact (guarded_error h).1

lemma faults_create {r : Except Failure (FaultyOutput ω)} (h : Storage.create p s = (r, s')) :
    s'.faults = s.faults := by
  obtain ⟨q, hg, -⟩ := create_cases h
  exact faults_guarded hg

lemma faults_openRead {r : Except Failure Source} (h : Storage.openRead p s = (r, s')) :
    s'.faults = s.faults := by
  obtain ⟨q, hg, -⟩ := openRead_cases h
  exact faults_guarded hg

end

def viewThrough (V : FileView σ ω) (faults : Faults) : FileView (Faulty σ) (FaultyOutput ω) where
  Reach := V.Reach
  Sound s := Sound V s ∧ s.faults = faults
  file := (view V).file
  Open := (view V).Open
  present_eq h hp := (view V).present_eq h.1 hp
  open_isSome h ho := (view V).open_isSome h.1 ho
  create_ok h hp hcreate :=
    ((view V).create_ok h.1 hp hcreate).imp_left fun h' => ⟨h', (faults_create hcreate).trans h.2⟩
  create_error h hp hcreate :=
    ((view V).create_error h.1 hp hcreate).imp_left fun h' =>
      ⟨h', (faults_create hcreate).trans h.2⟩
  write_ok h ho hwrite :=
    ((view V).write_ok h.1 ho hwrite).imp_left fun h' => ⟨h', (write_cases hwrite).1.trans h.2⟩
  write_error h ho hwrite :=
    ((view V).write_error h.1 ho hwrite).imp_left fun h' => ⟨h', (write_cases hwrite).1.trans h.2⟩
  close_ok h ho hclose :=
    ((view V).close_ok h.1 ho hclose).imp_left fun h' => ⟨h', (close_cases hclose).1.trans h.2⟩
  close_error h ho hclose :=
    ((view V).close_error h.1 ho hclose).imp_left fun h' => ⟨h', (close_cases hclose).1.trans h.2⟩
  rename_ok h hp hq hne hrename :=
    ((view V).rename_ok h.1 hp hq hne hrename).imp_left fun h' =>
      ⟨h', (faults_guarded hrename).trans h.2⟩
  rename_error h hp hq hne hrename :=
    ((view V).rename_error h.1 hp hq hne hrename).imp_left fun h' =>
      ⟨h', (faults_guarded hrename).trans h.2⟩
  remove_ok h hp hremove :=
    ((view V).remove_ok h.1 hp hremove).imp_left fun h' => ⟨h', (faults_guarded hremove).trans h.2⟩
  remove_error h hp hremove :=
    ((view V).remove_error h.1 hp hremove).imp_left fun h' =>
      ⟨h', (faults_guarded hremove).trans h.2⟩
  read_ok h hp hread :=
    ((view V).read_ok h.1 hp hread).imp_left fun h' => ⟨h', (faults_openRead hread).trans h.2⟩
  read_error h hp hread :=
    ((view V).read_error h.1 hp hread).imp_left fun h' => ⟨h', (faults_openRead hread).trans h.2⟩

lemma removes_viewThrough (hV : V.Removes) {faults : Faults} (hnone : faults.remove = none) :
    (viewThrough V faults).Removes := by
  intro s p hs hp hsome
  obtain ⟨inner, hremove⟩ := hV hs.1.inner hp hsome
  have hcalm : failure? s.faults.remove p = none := by
    rw [hs.2, hnone]
    rfl
  refine ⟨{ s with inner }, ?_⟩
  show guarded (failure? s.faults.remove p) (Storage.remove p) s = _
  rw [hcalm]
  simp [guarded, hremove]

end SealedStream.Faulty
