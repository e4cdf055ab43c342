import SealedStream.Proofs.Storage.ChangeLog
import SealedStream.Proofs.Transfer.Calls
import SealedStream.Proofs.Writer.Sparing
import SealedStream.Proofs.Writer.Tokens

/-!
A writer whose token is cancelled makes nothing and moves nothing.

It opens a window or finishes a file only with a hash that it has waited for, and a wait with a
cancelled token brings none. So all that it asks of the storage is to write to an open file, to
close it and to take it away, and the signer is not asked at all. The storage may be any, and its
log tells.
-/

namespace SealedStream

open Act

variable {σ ω α β : Type}

/-! ### Writing -/

section Sinks

variable {τ : Type} [Sink τ] {I : τ → Prop}

lemma Field.keep_write (hI : ∀ bs t, I t → I (Sink.accept bs t).2) (fields : List Field) {t : τ}
    (ht : I t) : I (Field.write fields t).2 := by
  induction fields generalizing t with
  | nil => exact ht
  | cons f fields ih =>
    cases f with
    | error e => exact ht
    | ok bs =>
      have hwrite : I (Sink.writeAll bs t).2 := Sink.keep_writeWithin hI _ bs ht
      rw [Field.write]
      generalize Sink.writeAll bs t = r at hwrite ⊢
      obtain ⟨_ | _, u⟩ := r
      · exact hwrite
      · exact ih hwrite

end Sinks

lemma Logged.log_writeList [Storage σ ω] (sections : List Section) (o : ω) (s : Logged σ) :
    (Section.writeList sections (o, s)).2.2.log = s.log := by
  rw [Section.writeList_eq]
  exact Field.keep_write (I := fun t : ω × Logged σ => t.2.log = s.log) (fun _ _ ht => ht) _ rfl

/-! ### What an action comes to -/

namespace Act

/-- The action comes back from `s`, with what satisfies `Q`. -/
def Yields (m : Act σ α) (s : Surroundings σ) (Q : α → Surroundings σ → Prop) : Prop :=
  ∃ a s', m s = some (a, s') ∧ Q a s'

variable {m : Act σ α} {f : α → Act σ β} {s : Surroundings σ}
  {P : α → Surroundings σ → Prop} {Q : β → Surroundings σ → Prop}

lemma yields_pure {a : α} (h : P a s) : (pure a : Act σ α).Yields s P := ⟨a, s, rfl, h⟩

lemma Yields.bind (hm : m.Yields s P) (hf : ∀ a s₁, P a s₁ → (f a).Yields s₁ Q) :
    (m >>= f).Yields s Q := by
  obtain ⟨a, s₁, h₁, hP⟩ := hm
  obtain ⟨b, s', h₂, hQ⟩ := hf a s₁ hP
  exact ⟨b, s', bind_eq_some.mpr ⟨a, s₁, h₁, h₂⟩, hQ⟩

lemma Yields.mono {P' : α → Surroundings σ → Prop} (hm : m.Yields s P)
    (h : ∀ a s', P a s' → P' a s') : m.Yields s P' :=
  hm.imp fun a => Exists.imp fun s' hs => ⟨hs.1, h a s' hs.2⟩

end Act

/-! ### Keeping still -/

/-- From the one world to the other the storage has been asked to take these files away, and to make
or move none. No file was reported as put in place, and the signer was not asked. -/
structure Still (removed : List Path) (s s' : Surroundings (Logged σ)) : Prop where
  log : s'.storage.log = s.storage.log ++ removed.map .remove
  asked : s'.asked = s.asked
  placed : s'.placed = s.placed
  pipeline : s.pipeline.Extends s'.pipeline

variable {removed removed' : List Path} {s s₁ s' : Surroundings (Logged σ)}

lemma Still.refl (s : Surroundings (Logged σ)) : Still [] s s :=
  ⟨by simp, rfl, rfl, .refl _⟩

lemma Still.trans (h : Still removed s s₁) (h' : Still removed' s₁ s') :
    Still (removed ++ removed') s s' where
  log := by rw [h'.log, h.log, List.map_append, List.append_assoc]
  asked := h'.asked.trans h.asked
  placed := h'.placed.trans h.placed
  pipeline := h.pipeline.trans h'.pipeline

lemma Still.after (h : Still [] s s₁) (h' : Still removed s₁ s') : Still removed s s' := h.trans h'

lemma Still.before (h : Still removed s s₁) (h' : Still [] s₁ s') : Still removed s s' := by
  simpa using h.trans h'

namespace Act

variable [Storage σ ω]

omit [Storage σ ω] in
lemma yields_report {e : Event} (he : e.isRoutine = true) (s : Surroundings (Logged σ)) :
    (report e : Act (Logged σ) Unit).Yields s fun _ s' => Still [] s s' := by
  refine ⟨(), s.told e, rfl, by simp [Surroundings.told], rfl, ?_, .refl _⟩
  simp [Surroundings.placed_told, Event.placed?_of_isRoutine he]

omit [Storage σ ω] in
lemma yields_cancel (t : Token) (s : Surroundings (Logged σ)) :
    (cancel t : Act (Logged σ) Unit).Yields s fun _ s' => Still [] s s' :=
  ⟨_, _, rfl, by simp, rfl, rfl, (Pipeline.grows_cancel _ _).extends⟩

omit [Storage σ ω] in
/-- **A wait with a cancelled token** ends at once, without a hash. -/
lemma yields_await {t : Token} (ht : s.pipeline.isCancelled t = true) (l : Link) :
    (await l t : Act (Logged σ) _).Yields s fun r s' => r = .error .cancelled ∧ Still [] s s' := by
  have hgrows : s.pipeline.Grows s.overtaken.pipeline := Pipeline.grows_foldl _ _
  have hread : s.overtaken.pipeline.read l t = some (.error .cancelled) :=
    Pipeline.read_of_cancelled (hgrows.cancelled ht)
  refine ⟨.error .cancelled, s.overtaken, ?_, rfl, by simp [Surroundings.overtaken], rfl, rfl,
    hgrows.extends⟩
  unfold await
  simp only [Pipeline.wait_of_read hread]
  rfl

lemma yields_present (p : Path) (s : Surroundings (Logged σ)) :
    (present p : Act (Logged σ) Bool).Yields s fun _ s' => s' = s := ⟨_, _, rfl, rfl⟩

lemma yields_close (o : ω) (s : Surroundings (Logged σ)) :
    (close o : Act (Logged σ) _).Yields s fun _ s' => Still [] s s' :=
  ⟨_, _, rfl, by simp, rfl, rfl, .refl _⟩

lemma yields_remove (p : Path) (s : Surroundings (Logged σ)) :
    (remove p : Act (Logged σ) _).Yields s fun _ s' => Still [p] s s' :=
  ⟨_, _, rfl, by simp, rfl, rfl, .refl _⟩

lemma yields_writeSections (sections : List Section) (o : ω) (s : Surroundings (Logged σ)) :
    (writeSections sections o : Act (Logged σ) _).Yields s fun _ s' => Still [] s s' := by
  refine ⟨_, _, rfl, ?_, rfl, rfl, .refl _⟩
  simpa using Logged.log_writeList sections o s.storage

lemma yields_removePart (part : Path) (s : Surroundings (Logged σ)) :
    (removePart part : Act (Logged σ) Unit).Yields s fun _ s' => Still [part] s s' := by
  refine (yields_remove part s).bind fun r s₁ h => ?_
  cases r with
  | ok _ => exact yields_pure h
  | error f =>
    simp only
    split
    · exact yields_pure h
    · exact (yields_report rfl s₁).mono fun _ _ h' => h.before h'

lemma yields_discard (o : ω) (part : Path) (s : Surroundings (Logged σ)) :
    (discard o part : Act (Logged σ) Unit).Yields s fun _ s' => Still [part] s s' := by
  refine (yields_close o s).bind fun r s₁ h => ?_
  cases r with
  | ok _ => exact (yields_removePart part s₁).mono fun _ _ h' => h.after h'
  | error f =>
    refine (yields_report rfl s₁).bind fun _ s₂ h₂ => ?_
    exact (yields_removePart part s₂).mono fun _ _ h' => (h.after h₂).after h'

end Act

/-! ### Opening and closing -/

namespace Writer

variable [Storage σ ω] {w w₁ w' : Writer ω} {o : StreamObject} {file : OpenFile ω}

omit [Storage σ ω] in
lemma yields_abandon (window : Window) (s : Surroundings (Logged σ)) :
    (w.abandon window : Act (Logged σ) _).Yields s fun ph s' =>
      ph = .skipping window .aborted ∧ Still [] s s' :=
  (yields_cancel w.token s).bind fun _ _ h => yields_pure ⟨rfl, h⟩

lemma yields_openWindow (ht : s.pipeline.isCancelled w.token = true) (window : Window) :
    (w.openWindow o window : Act (Logged σ) _).Yields s fun ph s' =>
      ph.part? = none ∧ Still [] s s' := by
  have habandon (s₁ : Surroundings (Logged σ)) (e : Event) (he : e.isRoutine = true)
      (h₁ : Still [] s s₁) :
      (do Act.report e; w.abandon window : Act (Logged σ) _).Yields s₁ fun ph s' =>
        ph.part? = none ∧ Still [] s s' := by
    refine (yields_report he s₁).bind fun _ s₂ h₂ => ?_
    refine (yields_abandon window s₂).mono ?_
    rintro _ s' ⟨rfl, h'⟩
    exact ⟨rfl, (h₁.after h₂).after h'⟩
  unfold openWindow
  split
  · exact habandon s _ rfl (.refl s)
  · refine (yields_present _ s).bind ?_
    rintro b _ rfl
    split
    · exact (yields_report rfl _).bind fun _ _ h => yields_pure ⟨rfl, h⟩
    · refine (yields_await ht w.runningHash).bind ?_
      rintro _ s₁ ⟨rfl, h₁⟩
      exact habandon s₁ _ rfl h₁

lemma yields_append (o : StreamObject) (s : Surroundings (Logged σ)) :
    (w.append file o : Act (Logged σ) _).Yields s fun ph s' =>
      (ph.part? = some file.part ∧ Still [] s s') ∨
        (ph.part? = none ∧ Still [file.part] s s') := by
  refine (yields_writeSections _ _ s).bind ?_
  rintro ⟨r, output⟩ s₁ h₁
  cases r with
  | ok _ => exact yields_pure (.inl ⟨rfl, h₁⟩)
  | error f =>
    refine (yields_report rfl s₁).bind fun _ s₂ h₂ => ?_
    refine (yields_discard output file.part s₂).bind fun _ s₃ h₃ => ?_
    refine (yields_abandon file.window s₃).mono ?_
    rintro _ s' ⟨rfl, h'⟩
    exact .inr ⟨rfl, ((h₁.after h₂).after h₃).before h'⟩

lemma yields_finish (ht : s.pipeline.isCancelled w.token = true) (file : OpenFile ω) :
    (w.finish file : Act (Logged σ) _).Yields s fun w' s' =>
      w' = { w with phase := .idle } ∧ Still [file.part] s s' := by
  have hfile : (w.finishFile file : Act (Logged σ) _).Yields s fun r s' =>
      r = none ∧ Still [file.part] s s' := by
    refine (yields_await ht file.lastLink).bind ?_
    rintro _ s₁ ⟨rfl, h₁⟩
    refine (yields_report rfl s₁).bind fun _ s₂ h₂ => ?_
    refine (yields_cancel w.token s₂).bind fun _ s₃ h₃ => ?_
    refine (yields_discard file.output file.part s₃).bind fun _ s' h' => yields_pure ⟨rfl, ?_⟩
    exact ((h₁.after h₂).after h₃).after h'
  refine hfile.bind ?_
  rintro _ s' ⟨rfl, h⟩
  exact yields_pure ⟨rfl, h⟩

/-! ### Operations -/

/-- From the one writer and its world to the other nothing has been made, moved or signed; the file
that was open is still open, or was taken away, and no other has come instead. -/
structure Stays (removed : List Path) (w : Writer ω) (s : Surroundings (Logged σ)) (w' : Writer ω)
    (s' : Surroundings (Logged σ)) : Prop where
  still : Still removed s s'
  token : w'.token = w.token
  written : w'.lastWritten = w.lastWritten
  opened : w'.phase.part? = w.phase.part? ∨
    (w'.phase.part? = none ∧ ∀ p, w.phase.part? = some p → p ∈ removed)

omit [Storage σ ω] in
lemma Stays.trans (h : w.Stays removed s w₁ s₁) (h' : w₁.Stays removed' s₁ w' s') :
    w.Stays (removed ++ removed') s w' s' where
  still := h.still.trans h'.still
  token := h'.token.trans h.token
  written := h'.written.trans h.written
  opened := by
    rcases h'.opened with heq' | ⟨hnone', hgone'⟩
    · rw [heq']
      exact h.opened.imp_right fun hgone => hgone.imp_right fun hgone p hp =>
        List.mem_append_left _ (hgone p hp)
    · refine .inr ⟨hnone', fun p hp => ?_⟩
      rcases h.opened with heq | ⟨-, hgone⟩
      · exact List.mem_append_right _ (hgone' p (heq ▸ hp))
      · exact List.mem_append_left _ (hgone p hp)

omit [Storage σ ω] in
lemma Stays.cancelled (h : w.Stays removed s w' s') (hc : s.pipeline.Cancelled w.token) :
    s'.pipeline.Cancelled w'.token := by
  rw [h.token]
  exact hc.mono h.still.pipeline

/-- The action comes back, and the writer has stayed as it was. -/
def Rests (w : Writer ω) (m : Act (Logged σ) (Writer ω)) (s : Surroundings (Logged σ)) : Prop :=
  m.Yields s fun w' s' => ∃ removed, w.Stays removed s w' s'

omit [Storage σ ω] in
lemma rests_pure (hphase : w'.phase.part? = w.phase.part?) (htoken : w'.token = w.token)
    (hwritten : w'.lastWritten = w.lastWritten) :
    w.Rests (pure w' : Act (Logged σ) _) s :=
  yields_pure ⟨[], .refl s, htoken, hwritten, .inl hphase⟩

omit [Storage σ ω] in
lemma Rests.bind {m : Act (Logged σ) (Writer ω)} {f : Writer ω → Act (Logged σ) (Writer ω)}
    (hc : s.pipeline.Cancelled w.token) (hm : w.Rests m s)
    (hf : ∀ (w₁ : Writer ω) (s₁ : Surroundings (Logged σ)), s₁.pipeline.Cancelled w₁.token →
      w₁.Rests (f w₁) s₁) :
    w.Rests (m >>= f) s := by
  refine Yields.bind hm ?_
  rintro w₁ s₁ ⟨removed, h₁⟩
  refine (hf w₁ s₁ (h₁.cancelled hc)).mono ?_
  rintro w' s' ⟨removed', h'⟩
  exact ⟨removed ++ removed', h₁.trans h'⟩

omit [Storage σ ω] in
lemma rests_report {e : Event} (he : e.isRoutine = true)
    (hphase : w'.phase.part? = w.phase.part?) (htoken : w'.token = w.token)
    (hwritten : w'.lastWritten = w.lastWritten) :
    w.Rests (do report e; return w' : Act (Logged σ) _) s :=
  (yields_report he s).bind fun _ _ h =>
    yields_pure ⟨[], h, htoken, hwritten, .inl hphase⟩

omit [Storage σ ω] in
lemma rests_noticeBoundary (period : Int64) (s : Surroundings (Logged σ)) :
    w.Rests (w.noticeBoundary period : Act (Logged σ) _) s := by
  unfold noticeBoundary
  split
  · exact rests_report rfl rfl rfl rfl
  · exact rests_pure rfl rfl rfl

lemma rests_finish (hc : s.pipeline.Cancelled w.token) (hw : w.phase = .writing file) :
    w.Rests (w.finish file : Act (Logged σ) _) s := by
  refine (yields_finish hc.2 file).mono ?_
  rintro _ s' ⟨rfl, h⟩
  refine ⟨[file.part], h, rfl, rfl, .inr ⟨rfl, fun p hp => ?_⟩⟩
  rw [hw] at hp
  cases hp
  exact List.mem_singleton_self _

lemma rests_closeAndSign (hc : s.pipeline.Cancelled w.token) :
    w.Rests (w.closeAndSign : Act (Logged σ) _) s := by
  cases hw : w.phase with
  | writing file =>
    rw [closeAndSign, hw]
    exact rests_finish hc hw
  | _ =>
    rw [closeAndSign_of_not_writing (by simp [hw])]
    exact rests_pure (by simp [hw, Phase.part?]) rfl rfl

lemma rests_leaveWindow (hc : s.pipeline.Cancelled w.token) (alignment : Alignment)
    (period : Int64) : w.Rests (w.leaveWindow alignment period : Act (Logged σ) _) s := by
  rcases w.leaveWindow_cases (σ := Logged σ) alignment period with h | h <;> rw [h]
  · exact rests_pure rfl rfl rfl
  · exact rests_closeAndSign hc

lemma rests_enterWindow (hc : s.pipeline.Cancelled w.token) (o : StreamObject) (period : Int64) :
    w.Rests (w.enterWindow o period : Act (Logged σ) _) s := by
  unfold enterWindow
  split
  · rename_i hw
    split
    · exact rests_report rfl (by rw [hw]; rfl) rfl rfl
    · refine (yields_openWindow hc.2 _).bind ?_
      rintro ph s' ⟨hph, h⟩
      exact yields_pure ⟨[], h, rfl, rfl, .inl (by rw [hph, hw]; rfl)⟩
  · exact rests_pure rfl rfl rfl

lemma rests_take (o : StreamObject) (s : Surroundings (Logged σ)) :
    w.Rests (w.take o : Act (Logged σ) _) s := by
  unfold take
  split
  · exact rests_pure rfl rfl rfl
  · rename_i file hw
    refine (yields_append o s).bind ?_
    rintro ph s' (⟨hph, h⟩ | ⟨hph, h⟩)
    · exact yields_pure ⟨_, h, rfl, rfl, .inl (by rw [hph, hw]; rfl)⟩
    · refine yields_pure ⟨_, h, rfl, rfl, .inr ⟨hph, fun p hp => ?_⟩⟩
      rw [hw] at hp
      cases hp
      exact List.mem_singleton_self _
  · exact rests_report rfl rfl rfl rfl

lemma rests_turnTo (hc : s.pipeline.Cancelled w.token) (o : StreamObject) :
    w.Rests (w.turnTo o : Act (Logged σ) _) s :=
  Rests.bind hc (rests_noticeBoundary _ s) fun _ _ h₁ => rests_leaveWindow h₁ _ _

lemma rests_receive (hc : s.pipeline.Cancelled w.token) (o : StreamObject) (period : Int64) :
    w.Rests (w.receive o period : Act (Logged σ) _) s :=
  Rests.bind hc (rests_enterWindow hc o period) fun _ s₁ h₁ =>
    Rests.bind h₁ (rests_take o s₁) fun _ _ _ => rests_pure rfl rfl rfl

lemma rests_close (hc : s.pipeline.Cancelled w.token) :
    w.Rests (w.close : Act (Logged σ) _) s :=
  Rests.bind hc (rests_closeAndSign hc) fun _ _ _ => rests_report rfl rfl rfl rfl

lemma yields_dropPart (part : Path) (s : Surroundings (Logged σ)) :
    (dropPart part : Act (Logged σ) _).Yields s fun _ s' => Still [part] s s' := by
  refine (yields_remove part s).bind fun r s₁ h₁ => ?_
  cases r with
  | ok _ => exact (yields_report rfl s₁).mono fun _ _ h => h₁.before h
  | error f =>
    refine (yields_report rfl s₁).bind fun _ s₂ h₂ => ?_
    exact (yields_report rfl s₂).mono fun _ _ h => (h₁.before h₂).before h

lemma rests_clear (s : Surroundings (Logged σ)) : w.Rests (w.clear : Act (Logged σ) _) s := by
  cases hw : w.phase with
  | writing file =>
    have hsweep : (w.sweep : Act (Logged σ) _).Yields s fun _ s' => Still [file.part] s s' := by
      unfold sweep
      rw [hw]
      refine (yields_close file.output s).bind fun r s₁ h₁ => ?_
      cases r with
      | ok _ => exact (yields_dropPart file.part s₁).mono fun _ _ h => h₁.after h
      | error f =>
        refine (yields_report rfl s₁).bind fun _ s₂ h₂ => ?_
        exact (yields_dropPart file.part s₂).mono fun _ _ h => (h₁.after h₂).after h
    rw [clear_eq]
    refine hsweep.bind fun _ s' h => yields_pure ⟨[file.part], h, rfl, rfl, .inr ⟨rfl, ?_⟩⟩
    intro p hp
    rw [hw] at hp
    cases hp
    exact List.mem_singleton_self _
  | _ =>
    rw [clear_of_not_writing (by simp [hw])]
    exact rests_report rfl (by simp [hw, Phase.part?]) rfl rfl

omit [Storage σ ω] in
lemma rests_newLink (st : LinkState) :
    w.Rests (do return { w with runningHash := ← newLink st } : Act (Logged σ) _) s :=
  ⟨_, _, rfl, [], ⟨by simp, rfl, rfl, Pipeline.extends_newLink _ _⟩, rfl, rfl, .inl rfl⟩

/-- **Every operation** but taking the cancellation back comes back to a writer that has stayed as
it was. -/
theorem rests_apply (hc : s.pipeline.Cancelled w.token) {op : Operation}
    (hop : op ≠ .resetCancellation) :
    (w.apply op : Act (Logged σ) _).Yields s fun r s' => ∃ removed, w.Stays removed s r.2 s' := by
  have hdone {m : Act (Logged σ) (Writer ω)} (hm : w.Rests m s) :
      (do return (.done, ← m) : Act (Logged σ) (Reply × Writer ω)).Yields s fun r s' =>
        ∃ removed, w.Stays removed s r.2 s' :=
    Yields.bind hm fun _ _ h => yields_pure h
  cases op with
  | add o =>
    cases hstopped : w.stopped with
    | true =>
      rw [apply, add_of_stopped hstopped]
      exact yields_pure ⟨[], .refl s, rfl, rfl, .inl rfl⟩
    | false =>
      have hadd : w.Rests (do
          let w' ← w.turnTo o
          w'.receive o (w.clock.period o.timestamp) : Act (Logged σ) _) s :=
        Rests.bind hc (rests_turnTo hc o) fun _ _ h₁ => rests_receive h₁ o _
      rw [apply, add_eq hstopped]
      simpa only [bind_assoc, pure_bind] using hdone hadd
  | closeAndSign => exact hdone (rests_closeAndSign hc)
  | clear => exact hdone (rests_clear s)
  | close => exact hdone (rests_close hc)
  | setRunningHash hash => exact hdone (rests_newLink _)
  | clearRunningHash => exact hdone (rests_newLink _)
  | setCompleteWindow on => exact yields_pure ⟨[], .refl s, rfl, rfl, .inl rfl⟩
  | resetCancellation => exact (hop rfl).elim

end Writer

end SealedStream
