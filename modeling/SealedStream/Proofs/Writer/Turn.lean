import SealedStream.Proofs.Writer.Opening
import SealedStream.Writer.Operations

/-!
Adding an object in two steps: the writer turns to the window of the object, and then receives the
object there.
-/

namespace SealedStream

open Act

variable {σ ω : Type} [Storage σ ω] {V : FileView σ ω} {s s' : Surroundings σ} {w w' : Writer ω}
  {o : StreamObject} {period : Int64}

def Phase.window? : Phase ω → Option Window
  | .idle => none
  | .writing file => some file.window
  | .skipping window _ => some window

namespace Writer

lemma closeAndSign_of_not_writing (hw : ∀ file, w.phase ≠ .writing file) :
    (w.closeAndSign : Act σ _) = return { w with phase := .idle } := by
  unfold closeAndSign
  cases hphase : w.phase with
  | writing file => exact (hw file hphase).elim
  | _ => rfl

/-- **A window is left** for an object that is outside of it as if it were closed. -/
lemma leaveWindow_eq (w : Writer ω) (alignment : Alignment) (period : Int64) :
    (w.leaveWindow alignment period : Act σ _) =
      if w.phase.window?.all (·.contains alignment period) then pure w else w.closeAndSign := by
  unfold leaveWindow closeAndSign
  cases hw : w.phase <;> rfl

lemma leaveWindow_cases (w : Writer ω) (alignment : Alignment) (period : Int64) :
    (w.leaveWindow alignment period : Act σ _) = pure w ∨
      (w.leaveWindow alignment period : Act σ _) = w.closeAndSign := by
  rw [leaveWindow_eq]
  split
  · exact .inl rfl
  · exact .inr rfl

/-- Leaves the current window if the object is outside of it. If there is none then, this is the
moment at which the object's window is to be opened. -/
def turnTo (w : Writer ω) (o : StreamObject) : Act σ (Writer ω) := do
  let w' ← w.noticeBoundary (w.clock.period o.timestamp)
  w'.leaveWindow o.alignment (w.clock.period o.timestamp)

/-- Takes an object into its window. -/
def receive (w : Writer ω) (o : StreamObject) (period : Int64) : Act σ (Writer ω) := do
  let w' ← w.enterWindow o period
  let w' ← w'.take o
  return { w' with runningHash := o.link, lastPeriod := some period }

lemma add_of_stopped (h : w.stopped = true) :
    (w.add o : Act σ _) = return .error .stopped := by
  simp [add, h]

lemma add_eq (h : w.stopped = false) : (w.add o : Act σ _) = do
    let w' ← w.turnTo o
    let w' ← w'.receive o (w.clock.period o.timestamp)
    return .ok w' := by
  simp [add, turnTo, receive, h]

/-- What comes of adding an object. -/
inductive Adding (w : Writer ω) (o : StreamObject) (s : Surroundings σ) :
    Except WriterError (Writer ω) → Surroundings σ → Prop where
  | refused (stopped : w.stopped = true) : Adding w o s (.error .stopped) s
  | taken {w₁ w' : Writer ω} {s₁ s' : Surroundings σ} (running : w.stopped = false)
    (turned : w.turnTo o s = some (w₁, s₁))
    (received : w₁.receive o (w.clock.period o.timestamp) s₁ = some (w', s')) :
    Adding w o s (.ok w') s'

/-- **Adding an object** is refused, or is done in the two steps. -/
lemma gives_adding (w : Writer ω) (o : StreamObject) (s : Surroundings σ) :
    (w.add o : Act σ _).Gives s (w.Adding o s) := by
  intro r s' hrun
  cases h : w.stopped with
  | true =>
    rw [add_of_stopped h] at hrun
    cases hrun
    exact .refused h
  | false =>
    rw [add_eq h] at hrun
    obtain ⟨w₁, s₁, hturn, hrun⟩ := bind_eq_some.mp hrun
    obtain ⟨w₂, s₂, hreceive, hpure⟩ := bind_eq_some.mp hrun
    cases hpure
    exact .taken h hturn hreceive

end Writer

/-- What can come of an object that the writer has turned to. -/
inductive Receiving (V : FileView σ ω) (w : Writer ω) (o : StreamObject) (s s' : Surroundings σ)
    (w' : Writer ω) : Prop where
  | written {file : OpenFile ω} (writing : w'.phase = .writing file)
  | passed {window : Window} {reason : SkipReason} (skipping : w.phase = .skipping window reason)
  | waiting (idle : w.phase = .idle) (pending : w.completeWindow = true)
  | standing {path : Path} (idle : w.phase = .idle)
    (name : Naming.recordPath w.config.exportDir o.timestamp w.config.kind = .ok path)
    (there : (V.file s.storage path).isSome)
  | givenUp (cancelled : s'.pipeline.isCancelled w.token = true)

namespace Writer

lemma enterWindow_of_idle (hw : w.phase = .idle) (hcw : w.completeWindow = false) :
    (w.enterWindow o period : Act σ _) = do
      let phase ← w.openWindow o ⟨period, o.alignment⟩
      return { w with phase := phase } := by
  simp [enterWindow, hw, hcw]

lemma gives_take_writing {file : OpenFile ω} {items : List Item} (hw : w.phase = .writing file)
    (hs : V.Sound s.storage) (hp : V.Reach file.part)
    (hf : file.Holds V w.config.kind items s.storage) :
    (w.take o : Act σ _).Gives s fun w' s' =>
      (∃ file', w'.phase = .writing file') ∨ s'.pipeline.isCancelled w.token = true := by
  unfold take
  rw [hw]
  refine (gives_append hs hp hf).bind fun ph s' happ => gives_pure ?_
  cases happ with
  | failed givenUp fault => exact .inr givenUp.cancelled
  | appended touches holds => exact .inl ⟨_, rfl⟩

lemma gives_take_skipping {window : Window} {reason : SkipReason}
    (hw : w.phase = .skipping window reason) :
    (w.take o : Act σ _).Gives s fun _ s' => s'.pipeline = s.pipeline := by
  unfold take
  rw [hw]
  rintro _ _ ⟨⟩
  rfl

/-- **Receiving an object**: it is written, its window is skipped for a reason, or the token is
cancelled. -/
theorem gives_receive (hs : V.Sound s.storage)
    (hreach : ∀ path, Naming.recordPath w.config.exportDir o.timestamp w.config.kind = .ok path →
      V.Reach path ∧ V.Reach (Naming.partPath path))
    (hopen : ∀ file, w.phase = .writing file →
      V.Reach file.part ∧ ∃ items, file.Holds V w.config.kind items s.storage) :
    (w.receive o period : Act σ _).Gives s fun w' s' => Receiving V w o s s' w' := by
  -- what is left to do once the window has been entered
  have hlast : ∀ {w₁ : Writer ω} {s₁ : Surroundings σ},
      (w₁.take o : Act σ _).Gives s₁ (fun w' s' =>
        (∃ file', w'.phase = .writing file') ∨ s'.pipeline.isCancelled w.token = true) →
      (do let w' ← w₁.take o; return { w' with runningHash := o.link, lastPeriod := some period } :
        Act σ (Writer ω)).Gives s₁ fun w' s' => Receiving V w o s s' w' :=
    fun htake => htake.bind fun w' s' h => gives_pure (h.elim (fun h => .written h.choose_spec)
      .givenUp)
  cases hw : w.phase with
  | skipping window reason => exact fun _ _ _ => .passed hw
  | writing file =>
    obtain ⟨hp, items, hf⟩ := hopen file hw
    simp only [receive, enterWindow, hw, pure_bind]
    exact hlast (gives_take_writing hw hs hp hf)
  | idle =>
    cases hcw : w.completeWindow with
    | true => exact fun _ _ _ => .waiting hw hcw
    | false =>
      rw [receive, enterWindow_of_idle hw hcw]
      simp only [bind_assoc, pure_bind]
      refine (gives_openWindow hs hreach).bind fun ph s₁ hopening => ?_
      have hskip : ∀ {window : Window} {reason : SkipReason}, ph = .skipping window reason →
          s₁.pipeline.isCancelled w.token = true →
          (({ w with phase := ph } : Writer ω).take o : Act σ _).Gives s₁ fun w' s' =>
            (∃ file', w'.phase = .writing file') ∨ s'.pipeline.isCancelled w.token = true :=
        fun hph hc => (gives_take_skipping hph).mono fun _ _ h => .inr (by rw [h]; exact hc)
      cases hopening with
      | unnamed name quiet cancelled => exact hlast (hskip rfl cancelled)
      | there name there same => exact fun _ _ _ => .standing hw name there
      | noStart name free fault quiet cancelled => exact hlast (hskip rfl cancelled)
      | failed name free givenUp fault => exact hlast (hskip rfl givenUp.cancelled)
      | @opened path start file name free quiet alive undisturbed resolved holds fields =>
        have hp : V.Reach file.part := by
          rw [holds.part, fields.1]
          exact (hreach path name).2
        exact hlast (gives_take_writing (w := { w with phase := .writing file }) rfl quiet.sound hp
          holds)

end Writer

end SealedStream
