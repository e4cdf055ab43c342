import SealedStream.Proofs.Writer.Keeping

/-!
What the writer spares, whatever fails.

It touches no file but those beside the record files of the windows that it is about, and puts
record files only where nothing stands. The unfinished files that it makes do not outlast their
window, if files can be removed.
-/

namespace SealedStream

open Act
open Naming (Role)

variable {σ ω : Type} [Storage σ ω] {V : FileView σ ω} {G : Setting σ ω}
  {pubs : List Publication} {c : Course} {w w' : Writer ω} {s s₁ s' : Surroundings σ}
  {named named' : Path → Prop} {ph ph₁ ph' : Phase ω} {file : OpenFile ω}
  {o : StreamObject} {period : Int64}

def Phase.part? : Phase ω → Option Path
  | .writing file => some file.part
  | _ => none

omit [Storage σ ω] in
lemma Phase.part?_eq_some_iff {p : Path} :
    ph.part? = some p ↔ ∃ file, ph = .writing file ∧ file.part = p := by
  cases ph <;> simp [part?]

/-- A path of a window, but not that of its record file. -/
def StreamKind.Beside (kind : StreamKind) (q p : Path) : Prop :=
  ∃ r : Role, r ≠ .record ∧ p = r.path kind q

/-- From the one phase and storage to the other, files have been spared by what is done in the
windows whose record files have these names. -/
structure Spares (G : Setting σ ω) (named : Path → Prop) (ph : Phase ω) (s : σ) (ph' : Phase ω)
    (s' : σ) : Prop where
  /-- A file stays as it is, unless it is beside the record file of such a window. -/
  stands {p : Path} {bs : Bytes} : G.view.file s p = some bs →
    (∀ q, named q → ¬G.config.kind.Beside q p) → G.view.file s' p = some bs
  opened {file : OpenFile ω} : ph' = .writing file → named file.path
  /-- An unfinished file that was not there, or was being written, has gone unless it is being
  written. -/
  swept {p : Path} : G.view.Removes → G.InProgress p →
    (G.view.file s p = none ∨ ph.part? = some p) → ph'.part? ≠ some p → G.view.file s' p = none

namespace Spares

variable {t t₁ t' : σ}

lemma refl (h : ∀ file, ph = .writing file → named file.path) : Spares G named ph t ph t where
  stands hp _ := hp
  opened := h _
  swept _ _ hp hne := hp.resolve_right hne

lemma trans (h : Spares G named ph t ph₁ t₁) (h' : Spares G named ph₁ t₁ ph' t') :
    Spares G named ph t ph' t' where
  stands hp hbeside := h'.stands (h.stands hp hbeside) hbeside
  opened := h'.opened
  swept {p} hV hprogress hp hne := by
    by_cases hopen : ph₁.part? = some p
    · exact h'.swept hV hprogress (.inr hopen) hne
    · exact h'.swept hV hprogress (.inl (h.swept hV hprogress hp hopen)) hne

lemma mono (h : Spares G named ph t ph' t') (hn : ∀ q, named q → named' q) :
    Spares G named' ph t ph' t' where
  stands hp hbeside := h.stands hp fun q hq => hbeside q (hn q hq)
  opened hw := hn _ (h.opened hw)
  swept := h.swept

/-- Only files beside the record file of a window have been touched, and of these none is left that
is not being written. -/
lemma of_touched (touched : Path → Prop)
    (hfile : ∀ p, ¬touched p → G.view.file t' p = G.view.file t p)
    (hbeside : ∀ p, touched p → ∃ q, named q ∧ G.config.kind.Beside q p)
    (hopened : ∀ file, ph' = .writing file → named file.path)
    (hpart : ∀ p, ph.part? = some p → touched p)
    (hgone : ∀ p, touched p → ph'.part? ≠ some p → G.view.Removes → G.view.file t' p = none) :
    Spares G named ph t ph' t' where
  stands {p bs} hp hnot := by
    rw [hfile p fun ht => ?_, hp]
    obtain ⟨q, hq, hb⟩ := hbeside p ht
    exact hnot q hq hb
  opened := hopened _
  swept {p} hV _ hp hne := by
    by_cases ht : touched p
    · exact hgone p ht hne hV
    · rw [hfile p ht]
      exact hp.resolve_right fun hopen => ht (hpart p hopen)

lemma of_part {q part : Path} (hq : named q) (hpart : part = Naming.partPath q)
    (hfile : ∀ p, p ≠ part → G.view.file t' p = G.view.file t p)
    (hopened : ∀ file, ph' = .writing file → named file.path)
    (hold : ∀ p, ph.part? = some p → p = part)
    (hgone : ph'.part? ≠ some part → G.view.Removes → G.view.file t' part = none) :
    Spares G named ph t ph' t' := by
  refine of_touched (· = part) hfile ?_ hopened hold ?_
  · rintro p rfl
    exact ⟨q, hq, .part, by decide, hpart⟩
  · rintro p rfl
    exact hgone

lemma of_same (hfile : ∀ p, G.view.file t' p = G.view.file t p) (hold : ph.part? = none)
    (hopened : ∀ file, ph' ≠ .writing file) : Spares G named ph t ph' t' :=
  of_touched (fun _ => False) (fun p _ => hfile p) (fun _ => False.elim)
    (fun file hw => (hopened file hw).elim) (fun _ hp => nomatch hold.symm.trans hp)
    fun _ => False.elim

end Spares

/-! ### Leaving a window -/

lemma Act.Gone.eq_none {p : Path} (h : Gone V p s) (hV : V.Removes) :
    V.file s.storage p = none :=
  h.resolve_right fun hn => hn hV

/-- **Signing leaves no unfinished file** that was not there before. -/
lemma Signing.gone {path : Path} {entire metadata : Hash} {r : Option Path}
    (h : Signing V w path entire metadata s s' r) (hV : V.Removes)
    (hfree : V.file s.storage (Role.signaturePart.path w.config.kind path) = none) :
    V.file s'.storage (Role.signaturePart.path w.config.kind path) = none := by
  cases h with
  | unread quiet cancelled fault => exact (quiet.file id).trans hfree
  | unsigned answer quiet cancelled => exact (quiet.file id).trans hfree
  | halfSigned answer refusal quiet cancelled => exact (quiet.file id).trans hfree
  | unsaved answer answer' name quiet cancelled gone fault =>
    subst name
    exact (gone hfree).eq_none hV
  | @saved x y image target answer answer' name form free touches file =>
    exact (Signing.saved answer answer' name form free touches file).settled.2.2

section Leaving

variable {st : Stretch} {finish : Hash} {content : Bytes} {signature : Option Path}

lemma Writes.spares (hwr : Writes G st file s) (hconfig : w.config = G.config)
    (hnamed : named file.path) (placing : Placing G.view file content s s₁) {entire metadata : Hash}
    (signing : Signing G.view w file.path entire metadata s₁ s' signature) :
    Spares G named (.writing file) s.storage .idle s'.storage := by
  obtain ⟨messages, signature', -, sealing⟩ := signing.sealing
  have hclear := signing.gone
  rw [hconfig] at sealing hclear
  have hpart : Role.signaturePart.path G.config.kind file.path ≠ file.part :=
    (hwr.isPart.ne hwr.names (by decide)).symm
  -- away from the paths of the window all is as before
  have hfile : ∀ p, p ≠ Role.signaturePart.path G.config.kind file.path →
      p ≠ Role.signature.path G.config.kind file.path →
        G.view.file s'.storage p = G.view.file s₁.storage p := fun p hp hq => by
    rw [sealing.file hp, putAll_of_not_mem fun hmem => hq (sealing.mem_signature hmem)]
  refine ⟨fun {p bs} hp hnot => ?_, by rintro _ ⟨⟩, fun {p} hV hprogress hp _ => ?_⟩
  · have hne (r : Role) (hr : r ≠ .record) : p ≠ r.path G.config.kind file.path :=
      fun heq => hnot _ hnamed ⟨r, hr, heq⟩
    have hpath : p ≠ file.path := by
      rintro rfl
      exact nomatch hp.symm.trans placing.free
    rw [hfile p (hne _ (by decide)) (hne _ (by decide)), placing.other ?_ hpath, hp]
    rw [hwr.holds.part]
    exact hne .part (by decide)
  · by_cases hps : p = Role.signaturePart.path G.config.kind file.path
    · subst hps
      have hfree := hp.resolve_right fun hopen => hpart (Option.some.inj hopen).symm
      refine hclear hV ?_
      rw [placing.other hpart (hwr.role_ne (show Role.signaturePart ≠ .record by decide)), hfree]
    have hq : p ≠ Role.signature.path G.config.kind file.path := by
      rintro rfl
      exact G.not_inProgress hwr.names (.inr rfl) hprogress
    have hpath : p ≠ file.path := by
      rintro rfl
      exact G.not_inProgress (r := .record) hwr.names (.inl rfl) hprogress
    rw [hfile p hps hq]
    by_cases hopen : p = file.part
    · rw [hopen, placing.part]
    · rw [placing.other hopen hpath]
      exact hp.resolve_right fun heq => hopen (Option.some.inj heq).symm

lemma Writes.spares_gone (hwr : Writes G st file s) (hnamed : named file.path) {part : Path}
    (hpart : part = file.part)
    (hfile : ∀ p, p ≠ part → G.view.file s'.storage p = G.view.file s.storage p)
    (hgone : Gone G.view part s') (hph' : ∀ f, ph' ≠ .writing f) :
    Spares G named (.writing file) s.storage ph' s'.storage := by
  subst hpart
  exact .of_part hnamed hwr.holds.part hfile (fun f hw => (hph' f hw).elim)
    (fun _ hp => (Option.some.inj hp).symm) fun _ => hgone.eq_none

/-- **Finishing a file** spares all others. -/
lemma Account.spares_finish (h : Account G pubs c w s) (hw : w.phase = .writing file)
    (hnamed : named file.path) :
    (w.finish file : Act σ _).Gives s fun w' s' =>
      Spares G named w.phase s.storage w'.phase s'.storage := by
  unfold Writer.finish
  have hconfig := h.follows.config
  obtain ⟨st, hst, hwr⟩ := h.opened hw
  refine (h.gives_finishFile hwr).bind fun r s' hfin => gives_pure ?_
  rw [hw]
  cases hfin with
  | noEnd fault givenUp =>
    exact hwr.spares_gone hnamed rfl (fun _ hp => givenUp.quiet.file hp) givenUp.gone nofun
  | failed fault givenUp =>
    exact hwr.spares_gone hnamed rfl (fun _ hp => givenUp.quiet.file hp) givenUp.gone nofun
  | blocked there quiet gone =>
    exact hwr.spares_gone hnamed rfl (fun _ hp => quiet.file hp) gone nofun
  | placed resolved undisturbed form placing signing =>
    exact hwr.spares hconfig hnamed placing signing

lemma Account.spares_closeAndSign (h : Account G pubs c w s)
    (hnamed : ∀ file, w.phase = .writing file → named file.path) :
    (w.closeAndSign : Act σ _).Gives s fun w' s' =>
      Spares G named w.phase s.storage w'.phase s'.storage := by
  unfold Writer.closeAndSign
  cases hw : w.phase with
  | writing file =>
    have hfinish := h.spares_finish hw (hnamed file hw)
    rwa [hw] at hfinish
  | idle => exact gives_pure (.refl nofun)
  | skipping window reason => exact gives_pure (.of_same (fun _ => rfl) rfl nofun)

lemma Account.spares_leaveWindow (h : Account G pubs c w s) (alignment : Alignment)
    (period : Int64) (hnamed : ∀ file, w.phase = .writing file → named file.path) :
    (w.leaveWindow alignment period : Act σ _).Gives s fun w' s' =>
      Spares G named w.phase s.storage w'.phase s'.storage := by
  rcases w.leaveWindow_cases (σ := σ) alignment period with hleave | hleave <;> rw [hleave]
  · exact gives_pure (.refl hnamed)
  · exact h.spares_closeAndSign hnamed

/-- **Turning to the window of an object** touches none but the open one. -/
lemma Account.spares_turnTo (h : Account G pubs c w s) (o : StreamObject)
    (hnamed : ∀ file, w.phase = .writing file → named file.path) :
    (w.turnTo o : Act σ _).Gives s fun w' s' =>
      Spares G named w.phase s.storage w'.phase s'.storage := by
  unfold Writer.turnTo
  intro w₂ s₂ hrun
  obtain ⟨w₁, s₁, hnotice, hleave⟩ := bind_eq_some.mp hrun
  obtain ⟨hphase, -, hstorage⟩ := Writer.gives_noticeBoundary _ _ hnotice
  have h₁ := h.notice _ _ _ hnotice
  rw [← hphase] at hnamed ⊢
  rw [← hstorage]
  exact h₁.spares_leaveWindow _ _ hnamed _ _ hleave

end Leaving

/-! ### Receiving an object -/

/-- An operation makes the writer open the window of a record file: it turns to an object without a
window, and does not wait for a complete one. -/
def Writer.Enters (w : Writer ω) (s : Surroundings σ) (op : Operation) (path : Path) : Prop :=
  ∃ o w₁ s₁, op = .add o ∧ w.stopped = false ∧ w.turnTo o s = some (w₁, s₁) ∧ w₁.phase = .idle ∧
    w₁.completeWindow = false ∧
    Naming.recordPath w.config.exportDir o.timestamp w.config.kind = .ok path

lemma Opening.spares {window : Window} (h : Opening G.view w o window s s' ph')
    (hnamed : ∀ path, Naming.recordPath w.config.exportDir o.timestamp w.config.kind = .ok path →
      named path) : Spares G named .idle s.storage ph' s'.storage := by
  cases h with
  | unnamed name quiet cancelled => exact .of_same (fun _ => quiet.file id) rfl nofun
  | there name there same => exact .of_same (fun _ => same.file id) rfl nofun
  | noStart name free fault quiet cancelled =>
    exact .of_same (fun _ => quiet.file id) rfl nofun
  | failed name free givenUp fault =>
    exact .of_part (hnamed _ name) rfl (fun _ hp => givenUp.quiet.file hp) nofun nofun
      fun _ => givenUp.gone.eq_none
  | @opened path start file name free quiet alive undisturbed resolved holds fields =>
    have hpart : file.part = Naming.partPath path := by rw [holds.part, fields.1]
    refine .of_part (hnamed _ name) hpart ?_ ?_ nofun fun hne => (hne rfl).elim
    · intro p hp
      exact quiet.file (hpart ▸ hp)
    · rintro _ ⟨⟩
      rw [fields.1]
      exact hnamed _ name

lemma Appending.spares {items : List Item} (h : Appending G.view w file o items s s' ph')
    (hpart : file.part = Naming.partPath file.path) (hnamed : named file.path) :
    Spares G named (.writing file) s.storage ph' s'.storage := by
  have hold : ∀ p, (Phase.writing file).part? = some p → p = file.part :=
    fun p hp => (Option.some.inj hp).symm
  cases h with
  | failed givenUp fault =>
    exact .of_part hnamed hpart (fun _ hp => givenUp.quiet.file hp) nofun hold
      fun _ => givenUp.gone.eq_none
  | appended touches holds =>
    refine .of_part hnamed hpart (fun _ hp => touches.file hp) ?_ hold fun hne => (hne rfl).elim
    rintro _ ⟨⟩
    exact hnamed

lemma Account.spares_enterWindow (h : Account G pubs c w s)
    (hnamed : ∀ file, w.phase = .writing file → named file.path)
    (hentered : w.phase = .idle → w.completeWindow = false → ∀ path,
      Naming.recordPath w.config.exportDir o.timestamp w.config.kind = .ok path → named path) :
    (w.enterWindow o period : Act σ _).Gives s fun w' s' =>
      Spares G named w.phase s.storage w'.phase s'.storage ∧ G.view.Sound s'.storage ∧
        ∀ file, w'.phase = .writing file → G.view.Reach file.part ∧
          ∃ items, file.Holds G.view w'.config.kind items s'.storage := by
  have hentering := h.entering o period
  generalize (w.enterWindow o period : Act σ _) = m at hentering
  generalize c.enter o period = d at hentering
  cases hentering with
  | inside =>
    refine gives_pure ⟨.refl hnamed, h.records.sound, fun file hw => ?_⟩
    obtain ⟨st, -, hwr⟩ := h.opened hw
    exact ⟨hwr.reach, st.items, h.holds hwr⟩
  | waiting hidle _ =>
    refine (gives_report (fun _ => False) h.records.sound rfl).bind ?_
    rintro _ s₁ ⟨h₁, -⟩
    exact gives_pure ⟨.of_same (fun _ => h₁.file id) (by rw [hidle]; rfl) nofun, h₁.sound, nofun⟩
  | opening hidle hended =>
    refine h.gives_openWindow.bind fun ph s₁ hopening => gives_pure ⟨?_, ?_⟩
    · rw [hidle]
      exact hopening.spares (hentered hidle hended)
    · cases hopening with
      | unnamed _ quiet => exact ⟨quiet.sound, nofun⟩
      | there _ _ same => exact ⟨same.sound, nofun⟩
      | noStart _ _ _ quiet => exact ⟨quiet.sound, nofun⟩
      | failed _ _ givenUp => exact ⟨givenUp.quiet.sound, nofun⟩
      | @opened path start file name free quiet alive undisturbed resolved holds fields =>
        refine ⟨quiet.sound, ?_⟩
        rintro _ ⟨⟩
        refine ⟨?_, _, holds⟩
        rw [holds.part, fields.1]
        exact (h.reach_named name).2

lemma Writer.spares_take (hs : G.view.Sound s.storage)
    (hopen : ∀ file, w.phase = .writing file → G.view.Reach file.part ∧
      ∃ items, file.Holds G.view w.config.kind items s.storage)
    (hnamed : ∀ file, w.phase = .writing file → named file.path) :
    (w.take o : Act σ _).Gives s fun w' s' =>
      Spares G named w.phase s.storage w'.phase s'.storage := by
  unfold take
  cases hw : w.phase with
  | idle =>
    refine gives_pure ?_
    rw [hw]
    exact .refl nofun
  | writing file =>
    obtain ⟨hp, items, hf⟩ := hopen file hw
    exact (gives_append hs hp hf).bind fun ph s' happ =>
      gives_pure (happ.spares hf.part (hnamed file hw))
  | skipping window reason =>
    rintro _ _ ⟨⟩
    rw [hw]
    exact .refl nofun

/-- **Receiving an object** touches none but the open window, or the one that is opened for it. -/
lemma Account.spares_receive (h : Account G pubs c w s)
    (hnamed : ∀ file, w.phase = .writing file → named file.path)
    (hentered : w.phase = .idle → w.completeWindow = false → ∀ path,
      Naming.recordPath w.config.exportDir o.timestamp w.config.kind = .ok path → named path) :
    (w.receive o period : Act σ _).Gives s fun w' s' =>
      Spares G named w.phase s.storage w'.phase s'.storage := by
  refine (h.spares_enterWindow hnamed hentered).bind fun w₁ s₁ ⟨h₁, hs, hopen⟩ => ?_
  exact (Writer.spares_take hs hopen fun _ => h₁.opened).bind fun w₂ s₂ h₂ =>
    gives_pure (h₁.trans h₂)

/-! ### Any operation -/

variable {op : Operation}

lemma Account.spares_add (h : Account G pubs c w s)
    (hne : ∀ st, c.current = some st → st.objects ≠ [])
    (hdistinct : G.orderly → ((c.add G.clock o).stretches.map Stretch.time).Nodup)
    (hnamed : ∀ file, w.phase = .writing file → named file.path)
    (hentered : ∀ path, w.Enters s (.add o) path → named path) :
    (w.add o : Act σ _).Gives s fun r s' =>
      match r with
      | .ok w' => Spares G named w.phase s.storage w'.phase s'.storage
      | .error _ => s' = s := by
  intro r s' hrun
  cases Writer.gives_adding w o s _ _ hrun with
  | refused _ => rfl
  | @taken w₁ _ s₁ _ hrunning hturn hreceive =>
    obtain ⟨more, h₁, -⟩ := h.turnTo o hne
      (fun hO => Course.nodup_before_step (.add o) (hdistinct hO)) _ _ hturn
    have hturned := h.spares_turnTo o hnamed _ _ hturn
    refine hturned.trans (h₁.spares_receive (fun _ => hturned.opened) ?_ _ _ hreceive)
    intro hidle hcw path hname
    rw [h₁.follows.config, ← h.follows.config] at hname
    exact hentered path ⟨o, w₁, s₁, rfl, hrunning, hturn, hidle, hcw, hname⟩

lemma Account.spares_clear (h : Account G pubs c w s)
    (hnamed : ∀ file, w.phase = .writing file → named file.path) :
    (w.clear : Act σ _).Gives s fun w' s' =>
      Spares G named w.phase s.storage w'.phase s'.storage := by
  cases hw : w.phase with
  | writing file =>
    obtain ⟨st, -, hwr⟩ := h.opened hw
    refine (h.gives_clear hw).mono ?_
    rintro _ s' ⟨rfl, ht, hgone⟩
    exact hwr.spares_gone (hnamed file hw) rfl (fun _ hp => ht.file hp) hgone nofun
  | _ =>
    rw [Writer.clear_of_not_writing (by simp [hw])]
    rintro _ _ ⟨⟩
    exact .of_same (fun _ => rfl) rfl nofun

/-- **Whatever an operation does, it spares all files** but those beside the record files of the
open window and of the one that it opens. -/
theorem Account.spares_apply (h : Account G pubs c w s)
    (hne : ∀ st, c.current = some st → st.objects ≠ [])
    (hdistinct : G.orderly → ((c.step G.clock op).stretches.map Stretch.time).Nodup)
    (hnamed : ∀ file, w.phase = .writing file → named file.path)
    (hentered : ∀ path, w.Enters s op path → named path) :
    (w.apply op : Act σ _).Gives s fun r s' =>
      Spares G named w.phase s.storage r.2.phase s'.storage := by
  have hsame : Spares G named w.phase s.storage w.phase s.storage := .refl hnamed
  cases op with
  | add o =>
    refine (h.spares_add hne hdistinct hnamed hentered).bind fun r s' hr => ?_
    cases r with
    | ok w' => exact gives_pure hr
    | error e =>
      subst hr
      exact gives_pure hsame
  | closeAndSign => exact (h.spares_closeAndSign hnamed).bind fun _ _ h' => gives_pure h'
  | clear => exact (h.spares_clear hnamed).bind fun _ _ h' => gives_pure h'
  | close =>
    refine Gives.bind (P := fun w' s' => Spares G named w.phase s.storage w'.phase s'.storage) ?_
      fun _ _ h' => gives_pure h'
    refine (h.spares_closeAndSign hnamed).bind fun w₁ s₁ h₁ => ?_
    rintro _ _ ⟨⟩
    exact h₁
  | setRunningHash hash =>
    rintro _ _ ⟨⟩
    exact hsame
  | clearRunningHash =>
    rintro _ _ ⟨⟩
    exact hsame
  | setCompleteWindow on => exact gives_pure hsame
  | resetCancellation =>
    refine Gives.bind (P := fun r s' => r.2.phase = w.phase ∧ s'.storage = s.storage) ?_
      fun r s' hr => gives_pure ?_
    · intro r s' hrun
      rw [Writer.resetCancellation_eq] at hrun
      split at hrun <;> cases hrun <;> exact ⟨rfl, rfl⟩
    · rw [hr.1, hr.2]
      exact hsame

end SealedStream
