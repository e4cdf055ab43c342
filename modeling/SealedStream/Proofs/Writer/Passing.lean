import SealedStream.Proofs.Writer.Sparing

/-!
Passing over a stream: a writer that writes no file, and is asked to open none but where one stands
already, leaves storage and signer alone.
-/

namespace SealedStream

open Act

variable {σ ω : Type} [Storage σ ω] {w : Writer ω} {s : Surroundings σ} {o : StreamObject}
  {period : Int64}

namespace Writer

lemma isWriting_iff : w.isWriting = true ↔ ∃ file, w.phase = .writing file := by
  unfold isWriting
  cases w.phase <;> simp

lemma isWriting_eq_false_iff : w.isWriting = false ↔ ∀ file, w.phase ≠ .writing file := by
  rw [← Bool.not_eq_true, isWriting_iff, not_exists]

/-- From the one world to the other storage and signer have been left alone, by a writer that writes
no file, and has not been set going again. -/
structure Passes (w : Writer ω) (s : Surroundings σ) (w' : Writer ω) (s' : Surroundings σ) :
    Prop where
  closed : w'.isWriting = false
  config : w'.config = w.config
  stopped : w.stopped = true → w'.stopped = true
  storage : s'.storage = s.storage
  asked : s'.asked = s.asked

omit [Storage σ ω] in
lemma Passes.trans {w₁ w₂ : Writer ω} {s₁ s₂ : Surroundings σ} (h : w.Passes s w₁ s₁)
    (h' : w₁.Passes s₁ w₂ s₂) : w.Passes s w₂ s₂ where
  closed := h'.closed
  config := h'.config.trans h.config
  stopped hw := h'.stopped (h.stopped hw)
  storage := h'.storage.trans h.storage
  asked := h'.asked.trans h.asked

/-! ### Adding an object -/

omit [Storage σ ω] in
lemma exists_noticeBoundary (hw : w.isWriting = false) (period : Int64) (s : Surroundings σ) :
    ∃ w' s', (w.noticeBoundary period : Act σ _) s = some (w', s') ∧ w.Passes s w' s' := by
  unfold noticeBoundary
  split <;> exact ⟨_, _, rfl, hw, rfl, id, rfl, rfl⟩

lemma exists_leaveWindow (hw : w.isWriting = false) (alignment : Alignment) (period : Int64)
    (s : Surroundings σ) :
    ∃ w' s', (w.leaveWindow alignment period : Act σ _) s = some (w', s') ∧ w.Passes s w' s' := by
  rcases w.leaveWindow_cases (σ := σ) alignment period with h | h <;> rw [h]
  · exact ⟨w, s, rfl, hw, rfl, id, rfl, rfl⟩
  · rw [closeAndSign_of_not_writing (isWriting_eq_false_iff.mp hw)]
    exact ⟨_, _, rfl, rfl, rfl, id, rfl, rfl⟩

lemma exists_turnTo (hw : w.isWriting = false) (o : StreamObject) (s : Surroundings σ) :
    ∃ w' s', (w.turnTo o : Act σ _) s = some (w', s') ∧ w.Passes s w' s' := by
  obtain ⟨w₁, s₁, hnotice, h₁⟩ := exists_noticeBoundary hw (w.clock.period o.timestamp) s
  obtain ⟨w₂, s₂, hleave, h₂⟩ :=
    exists_leaveWindow h₁.closed o.alignment (w.clock.period o.timestamp) s₁
  exact ⟨w₂, s₂, bind_eq_some.mpr ⟨w₁, s₁, hnotice, hleave⟩, h₁.trans h₂⟩

lemma exists_openWindow (window : Window)
    (hstands : ∀ path, Naming.recordPath w.config.exportDir o.timestamp w.config.kind = .ok path →
      Storage.present (ω := ω) path s.storage = true) :
    ∃ reason s', (w.openWindow o window : Act σ _) s = some (.skipping window reason, s') ∧
      s'.storage = s.storage ∧ s'.asked = s.asked := by
  unfold openWindow
  cases name : Naming.recordPath w.config.exportDir o.timestamp w.config.kind with
  | error e => exact ⟨.aborted, _, rfl, rfl, rfl⟩
  | ok path =>
    refine ⟨.alreadyExists, s.told (.alreadyExists path), ?_, rfl, rfl⟩
    refine bind_eq_some.mpr ⟨true, s, ?_, rfl⟩
    rw [← hstands path name]
    rfl

lemma exists_enterWindow (o : StreamObject) (period : Int64) (hw : w.isWriting = false)
    (hstands : w.phase = .idle → w.completeWindow = false → ∀ path,
      Naming.recordPath w.config.exportDir o.timestamp w.config.kind = .ok path →
        Storage.present (ω := ω) path s.storage = true) :
    ∃ w' s', (w.enterWindow o period : Act σ _) s = some (w', s') ∧ w.Passes s w' s' := by
  cases hphase : w.phase with
  | writing file => exact (isWriting_eq_false_iff.mp hw file hphase).elim
  | skipping window reason =>
    refine ⟨w, s, ?_, hw, rfl, id, rfl, rfl⟩
    simp only [enterWindow, hphase]
    rfl
  | idle =>
    cases hcw : w.completeWindow with
    | true =>
      refine ⟨{ w with phase := .skipping ⟨period, .unaligned⟩ .completeWindow },
        s.told (.waiting period), ?_, rfl, rfl, id, rfl, rfl⟩
      simp only [enterWindow, hphase, hcw]
      rfl
    | false =>
      obtain ⟨reason, s', hopen, hstorage, hasked⟩ :=
        exists_openWindow ⟨period, o.alignment⟩ (hstands hphase hcw)
      refine ⟨{ w with phase := .skipping ⟨period, o.alignment⟩ reason }, s', ?_, rfl, rfl, id,
        hstorage, hasked⟩
      rw [enterWindow_of_idle hphase hcw]
      exact bind_eq_some.mpr ⟨_, s', hopen, rfl⟩

lemma exists_take (hw : w.isWriting = false) (o : StreamObject) (s : Surroundings σ) :
    ∃ w' s', (w.take o : Act σ _) s = some (w', s') ∧ w.Passes s w' s' := by
  unfold take
  cases hphase : w.phase with
  | writing file => exact (isWriting_eq_false_iff.mp hw file hphase).elim
  | idle => exact ⟨w, s, rfl, hw, rfl, id, rfl, rfl⟩
  | skipping window reason => exact ⟨w, _, rfl, hw, rfl, id, rfl, rfl⟩

/-- **Adding an object** whose window is not opened. -/
lemma exists_add (hw : w.isWriting = false)
    (hstands : ∀ path, w.Enters s (.add o) path →
      Storage.present (ω := ω) path s.storage = true) :
    ∃ r s', (w.apply (.add o) : Act σ _) s = some (r, s') ∧ w.Passes s r.2 s' := by
  cases hstopped : w.stopped with
  | true =>
    refine ⟨(.refused .stopped, w), s, ?_, hw, rfl, id, rfl, rfl⟩
    rw [apply, add_of_stopped hstopped]
    rfl
  | false =>
    obtain ⟨w₁, s₁, hturn, h₁⟩ := exists_turnTo hw o s
    have hstands₁ : w₁.phase = .idle → w₁.completeWindow = false → ∀ path,
        Naming.recordPath w₁.config.exportDir o.timestamp w₁.config.kind = .ok path →
          Storage.present (ω := ω) path s₁.storage = true := fun hidle hcw path name => by
      rw [h₁.storage]
      rw [h₁.config] at name
      exact hstands path ⟨o, w₁, s₁, rfl, hstopped, hturn, hidle, hcw, name⟩
    obtain ⟨w₂, s₂, henter, h₂⟩ :=
      exists_enterWindow o (w.clock.period o.timestamp) h₁.closed hstands₁
    obtain ⟨w₃, s₃, htake, h₃⟩ := exists_take h₂.closed o s₂
    have hadd : (w.add o : Act σ _) s = some (.ok { w₃ with
        runningHash := o.link
        lastPeriod := some (w.clock.period o.timestamp) }, s₃) := by
      rw [add_eq hstopped]
      refine bind_eq_some.mpr ⟨w₁, s₁, hturn, bind_eq_some.mpr ⟨_, s₃, ?_, rfl⟩⟩
      exact bind_eq_some.mpr ⟨w₂, s₂, henter, bind_eq_some.mpr ⟨w₃, s₃, htake, rfl⟩⟩
    have hpasses := (h₁.trans h₂).trans h₃
    exact ⟨_, s₃, bind_eq_some.mpr ⟨_, s₃, hadd, rfl⟩, { hpasses with }⟩

/-! ### Any operation -/

/-- **A writer that writes no file**, and opens none but where one stands, leaves storage and signer
alone, and comes back. -/
theorem exists_apply (op : Operation) (s : Surroundings σ) (hw : w.isWriting = false)
    (hstands : ∀ path, w.Enters s op path → Storage.present (ω := ω) path s.storage = true) :
    ∃ r s', (w.apply op : Act σ _) s = some (r, s') ∧ w.Passes s r.2 s' := by
  have hclosed := isWriting_eq_false_iff.mp hw
  cases op with
  | add o => exact exists_add hw hstands
  | closeAndSign =>
    refine ⟨(.done, { w with phase := .idle }), s, ?_, rfl, rfl, id, rfl, rfl⟩
    rw [apply, closeAndSign_of_not_writing hclosed]
    rfl
  | clear =>
    refine ⟨(.done, { w with phase := .idle }), s.told .cleared, ?_, rfl, rfl, id, rfl, rfl⟩
    rw [apply, clear_of_not_writing hclosed]
    rfl
  | close =>
    refine ⟨(.done, { w with phase := .idle, stopped := true }), s.told .stopped, ?_, rfl, rfl,
      fun _ => rfl, rfl, rfl⟩
    rw [apply, close, closeAndSign_of_not_writing hclosed]
    rfl
  | setRunningHash hash => exact ⟨_, _, rfl, hw, rfl, id, rfl, rfl⟩
  | clearRunningHash => exact ⟨_, _, rfl, hw, rfl, id, rfl, rfl⟩
  | setCompleteWindow on => exact ⟨_, _, rfl, hw, rfl, id, rfl, rfl⟩
  | resetCancellation =>
    have hreset := resetCancellation_eq w s
    split at hreset <;> exact ⟨_, _, bind_eq_some.mpr ⟨_, _, hreset, rfl⟩, hw, rfl, id, rfl, rfl⟩

end Writer

end SealedStream
