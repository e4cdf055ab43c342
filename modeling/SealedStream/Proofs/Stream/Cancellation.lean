import SealedStream.Proofs.Stream.Export
import SealedStream.Proofs.Writer.Standstill

/-!
After a cancellation a writer publishes nothing, until it is given a new token.
-/

namespace SealedStream

variable {σ ω : Type}

namespace Stage

variable [Storage σ ω] {config : Config} {s₀ : Surroundings (Logged σ)}
  {before more : List Step} {t : Stage (Logged σ) ω}

lemma run_stays (hc : t.world.pipeline.Cancelled t.writer.token)
    (hreset : .call .resetCancellation ∉ more) :
    ∃ u removed, run more t = some u ∧ u.world.pipeline.Cancelled u.writer.token ∧
      t.writer.Stays removed t.world u.writer u.world := by
  induction more generalizing t with
  | nil => exact ⟨t, [], rfl, hc, .refl _, rfl, rfl, .inl rfl⟩
  | cons x more ih =>
    rw [List.mem_cons, not_or] at hreset
    obtain ⟨t₁, removed₁, hstep, h₁⟩ : ∃ t₁ removed, t.step x = some t₁ ∧
        t.writer.Stays removed t.world t₁.writer t₁.world := by
      cases x with
      | outside i =>
        exact ⟨_, [], rfl, ⟨by simp [Surroundings.intervene], rfl, rfl,
          (Pipeline.grows_perform _ i).extends⟩, rfl, rfl, .inl rfl⟩
      | call op =>
        obtain ⟨⟨reply, w⟩, s, happly, removed, h⟩ :=
          t.writer.rests_apply hc (show op ≠ .resetCancellation by simpa [eq_comm] using hreset.1)
        exact ⟨⟨w, s, _⟩, removed, step_call happly, h⟩
    obtain ⟨u, removed₂, hu, hcu, h₂⟩ := ih (h₁.cancelled hc) hreset.2
    refine ⟨u, removed₁ ++ removed₂, ?_, hcu, h₁.trans h₂⟩
    rw [run_cons, hstep]
    exact hu

/-- **After a cancellation nothing is published** until the caller asks for a new token. From
wherever a run has come to with its token cancelled, by a failure or by others, and whatever storage
and signer do, all further calls come back. They make no file and move none, the signer is not
asked, no record file is reported, and the last one written stays the last. A file that was open is
still open, or it has been taken away, and no other is. -/
theorem standstill (hbefore : (start config s₀).bind (run before) = some t)
    (hcancelled : t.world.pipeline.isCancelled t.writer.token = true)
    (hreset : .call .resetCancellation ∉ more) :
    ∃ (u : Stage (Logged σ) ω) (removed : List Path), run more t = some u ∧
      u.world.storage.log = t.world.storage.log ++ removed.map .remove ∧
      u.world.asked = t.world.asked ∧ u.world.placed = t.world.placed ∧
      u.writer.lastWritten = t.writer.lastWritten ∧
      u.world.pipeline.isCancelled u.writer.token = true ∧
      (∀ file', u.writer.phase = .writing file' →
        ∃ file, t.writer.phase = .writing file ∧ file'.part = file.part) ∧
      ∀ file, t.writer.phase = .writing file → u.writer.isWriting = false →
        file.part ∈ removed := by
  obtain ⟨u, removed, hu, hcu, h⟩ := run_stays ⟨given hbefore, hcancelled⟩ hreset
  refine ⟨u, removed, hu, h.still.log, h.still.asked, h.still.placed, h.written, hcu.2,
    fun file' hw' => ?_, fun file hw hclosed => ?_⟩
  · rcases h.opened with heq | ⟨hnone, -⟩
    · rw [hw'] at heq
      obtain ⟨file, hw, hpart⟩ := Phase.part?_eq_some_iff.mp heq.symm
      exact ⟨file, hw, hpart.symm⟩
    · rw [hw'] at hnone
      cases hnone
  · rcases h.opened with heq | ⟨-, hgone⟩
    · rw [hw] at heq
      obtain ⟨file', hw', -⟩ := Phase.part?_eq_some_iff.mp heq
      rw [Writer.isWriting, hw'] at hclosed
      cases hclosed
    · exact hgone file.part (by rw [hw]; rfl)

/-- The first object of a small stream has been added when the writer is cancelled from outside. -/
def interrupted : List Step :=
  .call (.setRunningHash .zero) :: (Outset.few.take 1).map (.call ∘ .add) ++
    [.outside (.cancel ⟨0⟩)]

def remainder : List Step := (Outset.few.drop 1).map (.call ∘ .add) ++ [.call .close]

/-- A disk with a log, and a signer that would sign. -/
def observed : Surroundings (Logged Disk) where
  storage := ⟨Outset.sample.storage, []⟩
  pipeline := Outset.sample.pipeline
  signer := Outset.sample.signer
  asked := []
  coming := []
  events := []

/-- The file that was open is taken away when the next object comes, and the rest is skipped. -/
theorem standstill_interrupted :
    ∃ (t u : Stage (Logged Disk) DiskOutput) (removed : List Path),
      (start .standard observed).bind (run interrupted) = some t ∧ t.writer.isWriting = true ∧
      run remainder t = some u ∧
      u.world.storage.log = t.world.storage.log ++ removed.map .remove ∧
      u.world.asked = [] ∧ u.world.placed = [] ∧ u.writer.lastWritten = none := by
  have hrun : ((start .standard observed).bind (run interrupted)).any (fun t =>
      t.writer.isWriting && t.world.pipeline.isCancelled t.writer.token &&
        t.world.asked.isEmpty && t.world.placed.isEmpty && t.writer.lastWritten.isNone) = true := by
    decide +kernel
  obtain ⟨t, ht, hfacts⟩ := (Option.any_eq_true _ _).mp hrun
  simp only [Bool.and_eq_true, List.isEmpty_iff, Option.isNone_iff_eq_none] at hfacts
  obtain ⟨⟨⟨⟨hwriting, hcancelled⟩, hasked⟩, hplaced⟩, hwritten⟩ := hfacts
  have hreset : .call .resetCancellation ∉ remainder := by simp [remainder, Outset.few]
  obtain ⟨u, removed, hu, hlog, hasked', hplaced', hwritten', -⟩ := standstill ht hcancelled hreset
  exact ⟨t, u, removed, ht, hwriting, hu, hlog, hasked'.trans hasked, hplaced'.trans hplaced,
    hwritten'.trans hwritten⟩

end Stage

end SealedStream
