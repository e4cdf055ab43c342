import SealedStream.Proofs.Writer.Ending
import SealedStream.Proofs.Writer.Policy

/-!
A file that is begun: it has just been created, and what stands in front of the items and its first
items have been written to it.

That a file which is open has begun so is true on any storage. That one is opened at all takes a
storage that does not fail, and a payload that can be written.
-/

namespace SealedStream

open Act

variable {σ ω α β : Type}

namespace Act

variable {m : Act σ α} {s : Surroundings σ} {P P' : α → Surroundings σ → Prop}

lemma yields_of_gives (hm : m.Returns) (hg : m.Gives s P) : m.Yields s P := by
  obtain ⟨a, s', h⟩ := hm s
  exact ⟨a, s', h, hg a s' h⟩

lemma Yields.and (h : m.Yields s P) (h' : m.Yields s P') :
    m.Yields s fun a s' => P a s' ∧ P' a s' := by
  obtain ⟨a, s₁, hrun, hP⟩ := h
  obtain ⟨_, _, hrun', hP'⟩ := h'
  cases hrun.symm.trans hrun'
  exact ⟨a, s₁, hrun, hP, hP'⟩

end Act

/-! ### What has been written -/

section Sinks

variable {τ : Type} [Sink τ] {t u v : τ}

lemma Section.writeList_append {xs ys : List Section} (hxs : writeList xs t = (.ok (), u))
    (hys : writeList ys u = (.ok (), v)) : writeList (xs ++ ys) t = (.ok (), v) := by
  rw [writeList_eq] at hxs hys ⊢
  rw [List.flatMap_append, Field.write_append, hxs]
  exact hys

lemma Field.isOk_of_write {fields : List Field} (h : write fields t = (.ok (), u)) :
    ∀ f ∈ fields, f.isOk = true := by
  induction fields generalizing t with
  | nil => nofun
  | cons f fields ih =>
    cases f with
    | error e => cases h
    | ok bs =>
      rw [write] at h
      split at h
      · exact List.forall_mem_cons.mpr ⟨rfl, ih h⟩
      · cases h

lemma Section.fits_of_writeList {sections : List Section} {i : Item}
    (h : writeList sections t = (.ok (), u)) (hi : .item i ∈ sections) : i.Fits := by
  rw [writeList_eq] at h
  exact fields_isOk_iff.mp
    (fun x hx => Field.isOk_of_write h x (List.mem_flatMap.mpr ⟨_, hi, hx⟩)) i rfl

end Sinks

/-- The file has been created for a window that starts from this running hash, and its front and
these items have been written to it. -/
structure OpenFile.Begins [Storage σ ω] (file : OpenFile ω) (kind : StreamKind) (path : Path)
    (start : Hash) (first : Timestamp) (items : List Item) (storage : σ) : Prop where
  place : file.path = path
  unfinished : file.part = Naming.partPath path
  origin : file.start = start
  time : file.first = first
  count : file.items = items.length
  written : ∃ (before : σ) (created : ω) (fresh : σ),
    Storage.create (Naming.partPath path) before = (.ok created, fresh) ∧
      Section.writeList (.header kind.header :: .start start :: items.map .item)
        (created, fresh) = (.ok (), file.output, storage)

variable [Storage σ ω] {w : Writer ω} {o : StreamObject} {window : Window} {path part : Path}
  {start : Hash} {first : Timestamp} {items : List Item} {s s' : Surroundings σ}
  {file : OpenFile ω} {V : FileView σ ω}

lemma OpenFile.Begins.fits {kind : StreamKind} {storage : σ}
    (h : file.Begins kind path start first items storage) : ∀ i ∈ items, i.Fits := by
  obtain ⟨_, _, _, -, hwritten⟩ := h.written
  exact fun i hi => Section.fits_of_writeList hwritten
    (List.mem_cons_of_mem _ (List.mem_cons_of_mem _ (List.mem_map_of_mem hi)))

namespace Writer

lemma gives_fresh (path part : Path) (s : Surroundings σ) :
    (createPart path part : Act σ (Option ω)).Gives s fun r s' => ∀ created, r = some created →
      ∃ before, Storage.create part before = (.ok created, s'.storage) := by
  refine gives_last fun b s₁ => ?_
  split
  · have hcreate : (create part : Act σ (Except Failure ω)).Gives s₁ fun r s₂ =>
        Storage.create part s₁.storage = (r, s₂.storage) := by
      rintro _ _ ⟨⟩
      rfl
    refine hcreate.bind fun r s₂ hr => ?_
    cases r with
    | ok created =>
      refine gives_told.bind ?_
      rintro _ s₃ rfl
      refine gives_pure ?_
      rintro _ ⟨⟩
      exact ⟨s₁.storage, hr⟩
    | error f => exact gives_last fun _ _ => gives_pure nofun
  · exact gives_pure nofun

lemma gives_written (sections : List Section) (output : ω) (s : Surroundings σ) :
    (writeSections sections output : Act σ _).Gives s fun r s' =>
      Section.writeList sections (output, s.storage) = (r.1, r.2, s'.storage) := by
  rintro _ _ ⟨⟩
  rfl

omit [Storage σ ω] in
lemma gives_unopened (Q : OpenFile ω → Surroundings σ → Prop) :
    (w.abandon window : Act σ _).Gives s fun ph s' => ∀ file, ph = .writing file → Q file s' := by
  rintro _ _ ⟨⟩
  nofun

/-- **A file that is opened** begins with nothing but its front. -/
lemma gives_begun (w : Writer ω) (o : StreamObject) (window : Window) (path : Path) (start : Hash)
    (s : Surroundings σ) :
    (w.openFrom o window path start : Act σ _).Gives s fun ph s' => ∀ file, ph = .writing file →
      file.Begins w.config.kind path start o.timestamp [] s'.storage := by
  refine (gives_fresh path _ s).bind fun r s₁ hfresh => ?_
  cases r with
  | none => exact gives_unopened _
  | some created =>
    obtain ⟨before, hcreated⟩ := hfresh created rfl
    refine (gives_written _ created s₁).bind ?_
    rintro ⟨r, output⟩ s₂ hwritten
    cases r with
    | ok _ =>
      refine gives_told.bind ?_
      rintro _ s₃ rfl
      refine gives_pure ?_
      rintro _ ⟨⟩
      exact ⟨rfl, rfl, rfl, rfl, rfl, before, created, s₁.storage, hcreated, hwritten⟩
    | error f => exact gives_last fun _ _ => gives_last fun _ _ => gives_unopened _

lemma gives_longer (w : Writer ω) (o : StreamObject)
    (hfile : file.Begins w.config.kind path start first items s.storage) :
    (w.append file o : Act σ _).Gives s fun ph s' => ∀ file', ph = .writing file' →
      file'.Begins w.config.kind path start first (items ++ [o.item]) s'.storage := by
  refine (gives_written _ file.output s).bind ?_
  rintro ⟨r, output⟩ s₁ hitem
  cases r with
  | ok _ =>
    obtain ⟨before, created, fresh, hcreated, hwritten⟩ := hfile.written
    have hall := Section.writeList_append hwritten hitem
    refine gives_pure ?_
    rintro _ ⟨⟩
    refine ⟨hfile.place, hfile.unfinished, hfile.origin, hfile.time, ?_, before, created, fresh,
      hcreated, by simpa using hall⟩
    simp [hfile.count]
  | error f => exact gives_last fun _ _ => gives_last fun _ _ => gives_unopened _

lemma gives_took (w : Writer ω) (o : StreamObject)
    (hopen : ∀ file, w.phase = .writing file →
      file.Begins w.config.kind path start first items s.storage) :
    (w.take o : Act σ _).Gives s fun w' s' => ∀ file, w'.phase = .writing file →
      file.Begins w.config.kind path start first (items ++ [o.item]) s'.storage := by
  unfold take
  split
  case h_1 hw => exact gives_pure fun file hw' => nomatch hw.symm.trans hw'
  case h_2 file hw =>
    exact (gives_longer w o (hopen file hw)).bind fun ph s₁ hph => gives_pure hph
  case h_3 hw => exact gives_last fun _ _ => gives_pure fun file hw' => nomatch hw.symm.trans hw'

lemma gives_still_open (hV : V.NeverFails) (hfits : o.item.Fits) (hw : w.phase = .writing file)
    (hs : V.Sound s.storage) (hp : V.Reach file.part)
    (hf : file.Holds V w.config.kind items s.storage) :
    (w.take o : Act σ _).Gives s fun w' _ => ∃ file, w'.phase = .writing file := by
  unfold take
  rw [hw]
  refine (gives_append hs hp hf).bind fun ph s' happ => gives_pure ?_
  cases happ with
  | failed givenUp fault => exact (fault ⟨hV, hfits⟩).elim
  | appended touches holds => exact ⟨_, rfl⟩

/-! ### At a boundary -/

omit [Storage σ ω] in
lemma yields_read {l : Link} {t : Token}
    (hread : s.overtaken.pipeline.read l t = some (.ok start)) :
    (await l t : Act σ _).Yields s fun r s' => r = .ok start ∧ s' = s.overtaken := by
  refine ⟨.ok start, s.overtaken, ?_, rfl, rfl⟩
  show (Pipeline.wait l t s.overtaken.pipeline s.overtaken.coming).map _ = _
  rw [Pipeline.wait_of_read hread]
  rfl

lemma yields_openWindow_of_free {window : Window} {Q : Phase ω → Surroundings σ → Prop}
    (hname : Naming.recordPath w.config.exportDir o.timestamp w.config.kind = .ok path)
    (hfree : Storage.present (ω := ω) path s.storage = false)
    (hread : s.overtaken.pipeline.read w.runningHash w.token = some (.ok start))
    (hopen : (w.openFrom o window path start : Act σ _).Yields s.overtaken Q) :
    (w.openWindow o window : Act σ _).Yields s Q := by
  unfold openWindow
  rw [hname]
  refine Yields.bind (P := fun b s₁ => b = false ∧ s = s₁) ⟨_, _, rfl, hfree, rfl⟩ ?_
  rintro _ _ ⟨rfl, rfl⟩
  refine (yields_read hread).bind ?_
  rintro _ _ ⟨rfl, rfl⟩
  exact hopen

lemma gives_open (hV : V.NeverFails) (hs : V.Sound s.storage)
    (hp : V.Reach (Naming.partPath path)) :
    (w.openFrom o window path start : Act σ _).Gives s fun ph s' => V.Sound s'.storage ∧
      ∃ file, ph = .writing file ∧ V.Reach file.part ∧
        file.Holds V w.config.kind [] s'.storage := by
  refine (gives_openFrom hs hp).mono ?_
  rintro ph s' (⟨file, rfl, htouches, hholds, hpath, -⟩ | ⟨-, -, hfault⟩)
  · exact ⟨htouches.sound, file, rfl, by rw [hholds.part, hpath]; exact hp, hholds⟩
  · exact (hfault hV).elim

/-- **The first object of a window**, for a writer that is between windows: a file that is open then
has begun with it. Where nothing fails and the payload can be written, one is open. -/
lemma yields_receive (period : Int64) (hidle : w.phase = .idle) (hoff : w.completeWindow = false)
    (hname : Naming.recordPath w.config.exportDir o.timestamp w.config.kind = .ok path)
    (hfree : Storage.present (ω := ω) path s.storage = false)
    (hread : s.overtaken.pipeline.read w.runningHash w.token = some (.ok start)) :
    (w.receive o period : Act σ _).Yields s fun w' s' =>
      (∀ file, w'.phase = .writing file →
        file.Begins w.config.kind path start o.timestamp [o.item] s'.storage) ∧
      ∀ V : FileView σ ω, V.NeverFails → V.Sound s.storage → V.Reach (Naming.partPath path) →
        o.item.Fits → ∃ file, w'.phase = .writing file := by
  have hopen : (w.openWindow o ⟨period, o.alignment⟩ : Act σ _).Yields s fun ph s₁ =>
      (∀ file, ph = .writing file →
        file.Begins w.config.kind path start o.timestamp [] s₁.storage) ∧
      ∀ V : FileView σ ω, V.NeverFails → V.Sound s.storage → V.Reach (Naming.partPath path) →
        V.Sound s₁.storage ∧ ∃ file, ph = .writing file ∧ V.Reach file.part ∧
          file.Holds V w.config.kind [] s₁.storage := by
    refine yields_openWindow_of_free hname hfree hread
      (yields_of_gives (closed_returns.openFrom o _ path start) fun ph s₁ hrun =>
        ⟨w.gives_begun o _ path start _ ph s₁ hrun, fun V hV hs hp => ?_⟩)
    exact gives_open (s := s.overtaken) hV hs hp ph s₁ hrun
  unfold receive
  rw [enterWindow_of_idle hidle hoff]
  simp only [bind_assoc, pure_bind]
  refine hopen.bind fun ph s₁ ⟨hbegins, hwriting⟩ => ?_
  have htake := yields_of_gives (returns_take o) (gives_took { w with phase := ph } o hbegins)
  have hstill : (({ w with phase := ph } : Writer ω).take o : Act σ _).Yields s₁ fun w' _ =>
      ∀ V : FileView σ ω, V.NeverFails → V.Sound s.storage → V.Reach (Naming.partPath path) →
        o.item.Fits → ∃ file, w'.phase = .writing file := by
    refine yields_of_gives (returns_take o) fun w' s' hrun V hV hs hp hfits => ?_
    obtain ⟨hs₁, file, rfl, hpart, hholds⟩ := hwriting V hV hs hp
    exact gives_still_open (w := { w with phase := .writing file }) hV hfits rfl hs₁ hpart hholds
      w' s' hrun
  exact (htake.and hstill).bind fun w' s' h => yields_pure h

/-- **The first object behind a boundary**, for a writer that has passed over the period before it:
the call comes back, and a file that is open then has begun with the object and starts from the
running hash that was there. Where nothing fails and the payload can be written, one is open. -/
theorem yields_add_behind {period : Int64} (hrunning : w.stopped = false)
    (hon : w.completeWindow = true)
    (hskips : w.phase = .skipping ⟨period, .unaligned⟩ .completeWindow)
    (hlast : w.lastPeriod = some period) (hperiod : period ≠ w.clock.period o.timestamp)
    (hname : Naming.recordPath w.config.exportDir o.timestamp w.config.kind = .ok path)
    (hfree : Storage.present (ω := ω) path s.storage = false)
    (hread : s.overtaken.pipeline.read w.runningHash w.token = some (.ok start)) :
    (w.add o : Act σ _).Yields s fun r s' => ∃ w', r = .ok w' ∧
      (∀ file, w'.phase = .writing file →
        file.Begins w.config.kind path start o.timestamp [o.item] s'.storage) ∧
      ∀ V : FileView σ ω, V.NeverFails → V.Sound s.storage → V.Reach (Naming.partPath path) →
        o.item.Fits → ∃ file, w'.phase = .writing file := by
  have hturn : (w.turnTo o : Act σ _).Yields s fun w₁ s₁ =>
      w₁ = { w with completeWindow := false, phase := .idle } ∧
        s₁ = s.told (.periodCrossed (w.clock.period o.timestamp)) := by
    have hcrosses : w.crosses (w.clock.period o.timestamp) = true := by
      rw [crosses_eq, hlast]
      simpa using hperiod
    refine ⟨_, _, ?_, rfl, rfl⟩
    unfold turnTo noticeBoundary leaveWindow
    rw [hon, hcrosses]
    refine bind_eq_some.mpr ⟨_, _, rfl, ?_⟩
    simp only [hskips]
    rw [if_neg (by simpa [Window.contains, Alignment.sameBlock] using hperiod)]
    rfl
  rw [add_eq hrunning]
  refine hturn.bind ?_
  rintro w₁ s₁ ⟨rfl, rfl⟩
  have hreceive := yields_receive (w := { w with completeWindow := false, phase := .idle })
    (s := s.told (.periodCrossed (w.clock.period o.timestamp))) (w.clock.period o.timestamp) rfl rfl
    hname hfree hread
  exact hreceive.bind fun w' s' h => yields_pure ⟨w', rfl, h⟩

end Writer

/-! ### On a storage with a log -/

section Logs

variable {s s' : Surroundings (Logged σ)} {removed : List Path}

omit [Storage σ ω] in
lemma Still.log_ne_nil (h : Still removed s s') (hs : s.storage.log ≠ []) :
    s'.storage.log ≠ [] := by
  rw [h.log]
  exact List.append_ne_nil_of_left_ne_nil hs _

namespace Writer

/-- **Creating a file** is asked for, or that what stands in its place be taken away. -/
lemma yields_createPart_logged (path part : Path) (s : Surroundings (Logged σ)) :
    (createPart path part : Act (Logged σ) (Option ω)).Yields s fun _ s' =>
      s'.storage.log ≠ [] := by
  have hstale : (clearStale part : Act (Logged σ) Bool).Yields s fun b s' =>
      b = false → s'.storage.log ≠ [] := by
    refine (yields_present part s).bind ?_
    rintro b _ rfl
    split
    · refine (yields_report rfl _).bind fun _ s₁ _ => ?_
      refine (yields_remove part s₁).bind fun r s₂ h₂ => ?_
      cases r with
      | ok _ => exact yields_pure nofun
      | error f =>
        refine (yields_report rfl s₂).bind fun _ s₃ h₃ => yields_pure fun _ => ?_
        exact h₃.log_ne_nil (by simp [h₂.log])
    · exact yields_pure nofun
  refine hstale.bind fun b s₁ h₁ => ?_
  split
  · have hcreate : (create part : Act (Logged σ) (Except Failure ω)).Yields s₁ fun _ s₂ =>
        s₂.storage.log ≠ [] :=
      ⟨_, _, rfl, List.append_ne_nil_of_right_ne_nil _ (List.cons_ne_nil _ _)⟩
    refine hcreate.bind fun r s₂ h₂ => ?_
    cases r <;> exact (yields_report rfl s₂).bind fun _ _ h => yields_pure (h.log_ne_nil h₂)
  · -- what stood in the way could not be taken away, but it was tried
    rename_i hstuck
    exact yields_pure (h₁ (by simpa using hstuck))

lemma yields_openFrom_logged (w : Writer ω) (o : StreamObject) (window : Window) (path : Path)
    (start : Hash) (s : Surroundings (Logged σ)) :
    (w.openFrom o window path start : Act (Logged σ) _).Yields s fun _ s' =>
      s'.storage.log ≠ [] := by
  refine (yields_createPart_logged path _ s).bind fun r s₁ h₁ => ?_
  cases r with
  | none => exact (yields_abandon window s₁).mono fun _ _ h => h.2.log_ne_nil h₁
  | some created =>
    refine (yields_writeSections _ created s₁).bind ?_
    rintro ⟨r, output⟩ s₂ h₂
    cases r with
    | ok _ =>
      exact (yields_report rfl s₂).bind fun _ _ h => yields_pure ((h₂.after h).log_ne_nil h₁)
    | error f =>
      refine (yields_report rfl s₂).bind fun _ s₃ h₃ => ?_
      refine (yields_discard output _ s₃).bind fun _ s₄ h₄ => ?_
      refine (yields_abandon window s₄).mono fun _ _ h => ?_
      exact (((h₂.after h₃).after h₄).before h.2).log_ne_nil h₁

/-- **An object that does not fit** has a file created for it all the same, where none stands and
the writer is between windows; but none is open then. -/
theorem yields_add_unfit (hrunning : w.stopped = false) (hidle : w.phase = .idle)
    (hoff : w.completeWindow = false) (hunfit : ¬o.item.Fits)
    (hname : Naming.recordPath w.config.exportDir o.timestamp w.config.kind = .ok path)
    (hfree : Storage.present (ω := ω) path s.storage = false)
    (hread : s.overtaken.pipeline.read w.runningHash w.token = some (.ok start)) :
    (w.add o : Act (Logged σ) _).Yields s fun r s' => ∃ w', r = .ok w' ∧
      (∀ file, w'.phase ≠ .writing file) ∧ s'.storage.log ≠ [] := by
  have hturn : (w.turnTo o : Act (Logged σ) _) = pure w := by
    unfold turnTo noticeBoundary leaveWindow
    simp [hoff, hidle]
  have hlog : (w.receive o (w.clock.period o.timestamp) : Act (Logged σ) _).Yields s fun _ s' =>
      s'.storage.log ≠ [] := by
    unfold receive
    rw [enterWindow_of_idle hidle hoff]
    simp only [bind_assoc, pure_bind]
    refine (yields_openWindow_of_free hname hfree hread (w.yields_openFrom_logged o _ path start
      s.overtaken)).bind fun ph s₁ h₁ => ?_
    refine Yields.bind (rests_take o s₁) fun w' s' h => yields_pure ?_
    obtain ⟨removed, hstays⟩ := h
    exact hstays.still.log_ne_nil h₁
  rw [add_eq hrunning, hturn, pure_bind]
  refine ((yields_receive _ hidle hoff hname hfree hread).and hlog).bind ?_
  rintro w' s' ⟨⟨hbegins, -⟩, hlog⟩
  refine yields_pure ⟨w', rfl, fun file hw => ?_, hlog⟩
  exact hunfit ((hbegins file hw).fits _ (List.mem_singleton.mpr rfl))

end Writer

end Logs

end SealedStream
