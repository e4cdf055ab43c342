import SealedStream.Proofs.Writer.Advancing
import SealedStream.Proofs.Writer.Leaving

/-!
Every operation of the writer keeps the account of its course, whatever fails on the way.
-/

namespace SealedStream

open Act
open Naming (Role)

variable {σ ω : Type} [Storage σ ω] {G : Setting σ ω} {pubs : List Publication} {c : Course}
  {w : Writer ω} {s s' : Surroundings σ} {st : Stretch} {o : StreamObject} {period : Int64}

/-- The caller's side: an object that comes with a link given out before, and where all goes in
order has a name and a resolved link. -/
structure Setting.Admits (G : Setting σ ω) (o : StreamObject) : Prop where
  link : G.known → o.link.slot < G.pipeline.links
  fits : G.fitting → o.item.Fits
  resolved : G.orderly → ∃ h, G.pipeline.Holds o.link h
  named : G.orderly →
    ∃ path, Naming.recordPath G.config.exportDir o.timestamp G.config.kind = .ok path

lemma Account.reported {e : Event} (h : Account G pubs c w s) (he : e.isRoutine = true) :
    (report e : Act σ Unit).Gives s fun _ s' => Account G pubs c w s' :=
  (gives_report (fun _ => False) h.records.sound he).mono fun _ _ h' => h.touch h'.1 h'.2

/-! ### Boundaries -/

lemma Follows.crosses (h : Follows G c w) : w.crosses period = c.crosses period := by
  unfold Writer.crosses Course.crosses
  cases hc : c.lastPeriod <;> simp only [h.lastPeriod, hc]

omit [Storage σ ω] in
lemma Writer.gives_noticeBoundary {w : Writer ω} :
    (w.noticeBoundary period : Act σ _).Gives s fun w' s' =>
      w'.phase = w.phase ∧ w'.token = w.token ∧ s'.storage = s.storage := by
  unfold Writer.noticeBoundary
  split
  · rintro _ _ ⟨⟩
    exact ⟨rfl, rfl, rfl⟩
  · exact gives_pure ⟨rfl, rfl, rfl⟩

theorem Account.notice (h : Account G pubs c w s) (period : Int64) :
    (w.noticeBoundary period : Act σ _).Gives s fun w' s' =>
      Account G pubs (c.notice period) w' s' := by
  unfold Writer.noticeBoundary Course.notice
  rw [h.follows.completeWindow, h.follows.crosses]
  split
  · refine (h.reported rfl).bind fun _ s₁ h' => gives_pure ?_
    exact
      { h' with
        follows := { h'.follows with completeWindow := rfl }
        state := fun hO => (h'.state hO).imp (fun hst => { hst with }) fun hh => { hh with } }
  · exact gives_pure h

/-- The writer has stayed in its window, or has left it. -/
inductive Turning (G : Setting σ ω) (c : Course) (w : Writer ω) (s s' : Surroundings σ)
    (c' : Course) (w' : Writer ω) : List Publication → Prop where
  | stayed (past : c'.past = c.past) (current : c'.current = c.current)
    (phase : w'.phase = w.phase) : Turning G c w s s' c' w' []
  | left {more : List Publication} (past : c'.past = c.past ++ c.current.toList)
    (current : c'.current = none) (leaving : Leaving G c w s s' more) :
    Turning G c w s s' c' w' more

/-- What an operation may put in place: at most the open file, which is without signatures only if
the token has been cancelled. -/
inductive Putting (w : Writer ω) (s' : Surroundings σ) : List Publication → Prop where
  | nothing : Putting w s' []
  | file {b : Publication} {file : OpenFile ω} (writing : w.phase = .writing file)
    (unsigned : b.signature = none → s'.pipeline.isCancelled w.token = true) :
    Putting w s' [b]

section

variable {d : Course} {w' : Writer ω} {s'' : Surroundings σ} {more : List Publication}

omit [Storage σ ω] in
lemma Putting.grows (h : Putting w s' more) (hg : s'.pipeline.Grows s''.pipeline) :
    Putting w s'' more := by
  cases h with
  | nothing => exact .nothing
  | file writing unsigned => exact .file writing fun hnone => hg.cancelled (unsigned hnone)

lemma Leaving.putting (h : Leaving G c w s s' more) : Putting w s' more := by
  cases h with
  | placed writing _ unsigned => exact .file writing unsigned
  | _ => exact .nothing

lemma Turning.putting (h : Turning G c w s s' d w' more) : Putting w s' more := by
  cases h with
  | stayed => exact .nothing
  | left _ _ leaving => exact leaving.putting

end

/-! ### Leaving a window -/

/-- **Closing the current window.** -/
theorem Account.closeAndSign (h : Account G pubs c w s)
    (hne : ∀ st, c.current = some st → st.objects ≠ [])
    (hdistinct : G.orderly → (c.stretches.map Stretch.time).Nodup) :
    (w.closeAndSign : Act σ _).Gives s fun w' s' =>
      ∃ more, Account G (pubs ++ more) c.leave w' s' ∧ Leaving G c w s s' more := by
  cases hw : w.phase with
  | writing file =>
    obtain ⟨st, hst, -⟩ := h.opened hw
    rw [Writer.closeAndSign, hw]
    exact h.finish hw hst (hne st hst) hdistinct
  | _ =>
    have hclosed : ∀ file, w.phase ≠ .writing file := by simp [hw]
    rw [Writer.closeAndSign_of_not_writing hclosed]
    refine gives_pure ⟨[], ?_, .unwritten hclosed⟩
    rw [List.append_nil]
    exact h.leave hclosed

lemma Account.leaveWindow_cases (h : Account G pubs c w s) (alignment : Alignment)
    (period : Int64) :
    (w.leaveWindow alignment period : Act σ _) = pure w ∧ c.leaveFor alignment period = c ∨
      (w.leaveWindow alignment period : Act σ _) = w.closeAndSign ∧
        c.leaveFor alignment period = c.leave := by
  rw [Writer.leaveWindow_eq, h.follows.window]
  unfold Course.leaveFor
  cases hc : c.current with
  | none => exact .inl ⟨rfl, rfl⟩
  | some st =>
    by_cases hin : st.window.contains alignment period = true
    · exact .inl ⟨if_pos hin, if_pos hin⟩
    · exact .inr ⟨if_neg hin, if_neg hin⟩

theorem Account.leaveFor (h : Account G pubs c w s) (alignment : Alignment) (period : Int64)
    (hne : ∀ st, c.current = some st → st.objects ≠ [])
    (hdistinct : G.orderly → (c.stretches.map Stretch.time).Nodup) :
    (w.leaveWindow alignment period : Act σ _).Gives s fun w' s' =>
      ∃ more, Account G (pubs ++ more) (c.leaveFor alignment period) w' s' ∧
        Turning G c w s s' (c.leaveFor alignment period) w' more := by
  rcases h.leaveWindow_cases alignment period with ⟨hw, hc⟩ | ⟨hw, hc⟩ <;> rw [hw, hc]
  · exact gives_pure ⟨[], by rwa [List.append_nil], .stayed rfl rfl rfl⟩
  · exact (h.closeAndSign hne hdistinct).mono fun w' s' ⟨more, h', hleaving⟩ =>
      ⟨more, h', .left rfl rfl hleaving⟩

/-! ### Entering a window -/

lemma Account.skip (h : Account G pubs c w s) (st : Stretch) {touched : Path → Prop}
    {reason : SkipReason} (hq : Quiet G.view touched s s') (ht : ∀ p, touched p → G.IsPart p)
    (hnone : c.current = none) (hw : ∀ file, w.phase ≠ .writing file)
    (hO : G.orderly → Steady G pubs c w s →
      Touches G.view (fun _ => False) s s' ∧ G.fresh st = false ∨
        s'.pipeline.isCancelled w.token = true ∧ ¬G.sure) :
    Account G pubs { c with current := some st }
      { w with phase := .skipping st.window reason } s' where
  follows := { h.follows with window := rfl }
  records := h.records.quiet hq ht
  leads hk := (h.leads hk).mono hq.pipeline.extends
  opened hw := by cases hw
  state hO' := by
    rcases h.state hO' with hst | hh
    swap
    · refine .inr (hh.after (hq.pipeline.cancelled hh.cancelled) nofun List.prefix_rfl fun _ => ?_)
      simp [Course.stretches, hnone]
    rcases hO hO' hst with ⟨htouch, hfresh⟩ | ⟨hcancelled, hfault⟩
    · refine .inl
        { token := by rw [htouch.pipeline]; exact hst.token
          calm := htouch.meanwhile.trans hst.calm
          ready := by rw [htouch.pipeline]; exact hst.ready
          lastReady := by rintro _ ⟨⟩
          writing := ?_
          all := hst.all
          signed := hst.signed
          tidy := fun hR hp _ => ?_ }
      · rintro _ ⟨⟩ hf
        rw [hfresh] at hf
        cases hf
      · rw [htouch.file id]
        exact hst.tidy hR hp fun file hf => (hw file hf).elim
    · refine .inr ⟨hcancelled, nofun, ?_, fun hR => (hfault (G.assured hR)).elim,
        fun hR => (hfault hR).elim⟩
      simp only [hst.all, List.prefix_rfl]

lemma Account.write {file : OpenFile ω} (h : Account G pubs c w s)
    (hq : Quiet G.view (· = file.part) s s') (hwr : Writes G st file s')
    (hpart : ∀ f, w.phase = .writing f → f.part = file.part)
    (hO : G.orderly → Steady G pubs c w s ∧
      s'.pipeline = s.pipeline ∧ ∃ k, s.pipeline.Holds file.lastLink k) :
    Account G pubs { c with current := some st } { w with phase := .writing file } s' where
  follows := { h.follows with window := congrArg some hwr.window }
  records := h.records.quiet hq fun p hp => hp ▸ hwr.isPart
  leads hk := (h.leads hk).mono hq.pipeline.extends
  opened hf := by
    cases hf
    exact ⟨_, rfl, hwr⟩
  state hO' := by
    obtain ⟨hst, hsame, hlast⟩ := hO hO'
    refine .inl
      { token := by rw [hsame]; exact hst.token
        calm := hq.calm hst.calm
        ready := by rw [hsame]; exact hst.ready
        lastReady := ?_
        writing := fun _ _ => ⟨_, rfl⟩
        all := hst.all
        signed := hst.signed
        tidy := fun hR hp hne => ?_ }
    · rintro _ ⟨⟩
      rw [hsame]
      exact hlast
    · have hne := hne file rfl
      rw [hq.file hne]
      exact hst.tidy hR hp fun f hf => by rw [hpart f hf]; exact hne

lemma Account.reach_named (h : Account G pubs c w s) {path : Path}
    (hname : Naming.recordPath w.config.exportDir o.timestamp w.config.kind = .ok path) :
    G.view.Reach path ∧ G.view.Reach (Naming.partPath path) := by
  rw [h.follows.config] at hname
  exact ⟨(G.reaches ⟨_, hname⟩).record, (G.reaches ⟨_, hname⟩).part⟩

lemma Account.gives_openWindow {window : Window} (h : Account G pubs c w s) :
    (w.openWindow o window : Act σ _).Gives s fun ph s' => Opening G.view w o window s s' ph :=
  Writer.gives_openWindow h.records.sound fun _ => h.reach_named

/-- **Opening the file of a window** keeps the account. -/
lemma Account.open {window : Window} (h : Account G pubs c w s) (ho : G.Admits o)
    (hset : G.orderly → c.origin ≠ .unset) (hnone : c.current = none)
    (hidle : ∀ file, w.phase ≠ .writing file)
    (htime : G.orderly → o.timestamp ∉ c.past.map Stretch.time) :
    (w.openWindow o window : Act σ _).Gives s fun ph s' => Account G pubs
      { c with current := some ⟨window, c.origin, o.timestamp, [], true⟩ } { w with phase := ph }
      s' := by
  have hconfig := h.follows.config
  have hready : G.orderly → Steady G pubs c w s → s.Ready w.runningHash w.token := by
    intro hO hst
    obtain ⟨k, hk⟩ := hst.ready (hset hO)
    exact ⟨hst.calm, hst.token, k, hk.2⟩
  refine h.gives_openWindow.mono fun ph s' hopen => ?_
  cases hopen with
  | unnamed name quiet cancelled =>
    refine h.skip ⟨window, _, _, [], true⟩ quiet (fun _ => False.elim) hnone hidle fun hO _ => ?_
    obtain ⟨path, hpath⟩ := ho.named hO
    rw [hconfig, hpath] at name
    cases name
  | @there path name there same =>
    rw [hconfig] at name
    refine h.skip ⟨window, _, _, [], true⟩ same.quiet (fun _ => False.elim) hnone hidle
      fun hO _ => .inl ⟨same, ?_⟩
    by_contra hfresh
    obtain ⟨-, path', hpath', hfree⟩ := (G.fresh_iff).mp (by simpa using hfresh)
    simp only [name] at hpath'
    cases hpath'
    rw [h.free ⟨window, c.origin, o.timestamp, [], true⟩ name (htime hO) hfree] at there
    cases there
  | noStart name free fault quiet cancelled =>
    exact h.skip ⟨window, _, _, [], true⟩ quiet (fun _ => False.elim) hnone hidle
      fun hO hst => (fault (hready hO hst)).elim
  | failed name free givenUp fault =>
    rw [hconfig] at name
    refine h.skip ⟨window, _, _, [], true⟩ givenUp.quiet ?_ hnone hidle
      fun _ _ => .inr ⟨givenUp.cancelled, fun hR => fault (G.storage hR)⟩
    rintro p rfl
    exact ⟨_, ⟨_, name⟩, rfl⟩
  | @opened path start file name free quiet alive undisturbed resolved holds fields =>
    rw [hconfig] at name holds
    obtain ⟨rfl, rfl, hlink, hwindow, hfirst⟩ := fields
    have hfiles := h.records.files (G.not_inProgress (r := .record) ⟨_, name⟩ (Or.inl rfl))
    rw [← holds.part] at quiet
    refine h.write quiet ?_ (fun f hf => (hidle f hf).elim) fun hO => ?_
    · exact
        { kept := rfl
          window := hwindow
          name := name
          free := eq_none_of_putAll (hfiles.symm.trans free)
          holds := holds
          starts := fun hk => ((h.leads hk).mono quiet.pipeline.extends).at resolved
          link := fun _ _ ho => by cases ho }
    · have hst := (h.state hO).resolve_right fun hh => nomatch alive.symm.trans hh.cancelled
      rw [hlink]
      exact ⟨hst, undisturbed (hready hO hst), hst.ready (hset hO)⟩

/-- How the writer and its course enter the window of an object. -/
inductive Entering (c : Course) (w : Writer ω) (o : StreamObject) (period : Int64) :
    Act σ (Writer ω) → Course → Prop where
  | inside : Entering c w o period (pure w) c
  | waiting (idle : w.phase = .idle) (pending : w.completeWindow = true) :
    Entering c w o period (do
        report (.waiting period)
        return { w with phase := .skipping ⟨period, .unaligned⟩ .completeWindow })
      { c with current := some ⟨⟨period, .unaligned⟩, c.origin, o.timestamp, [], false⟩ }
  | opening (idle : w.phase = .idle) (ended : w.completeWindow = false) :
    Entering c w o period (do
        return { w with phase := ← w.openWindow o ⟨period, o.alignment⟩ })
      { c with current := some ⟨⟨period, o.alignment⟩, c.origin, o.timestamp, [], true⟩ }

lemma Account.entering (h : Account G pubs c w s) (o : StreamObject) (period : Int64) :
    Entering c w o period (w.enterWindow o period : Act σ _) (c.enter o period) := by
  have hidle := h.follows.idle_iff
  have hpolicy := h.follows.completeWindow
  unfold Writer.enterWindow Course.enter Course.opened
  cases hc : c.current with
  | some st =>
    cases hw : w.phase with
    | idle => cases hc.symm.trans (hidle.mp hw)
    | _ => exact .inside
  | none =>
    have hw := hidle.mpr hc
    simp only [hw]
    by_cases hcw : w.completeWindow = true
    · rw [if_pos hcw, if_pos (hpolicy ▸ hcw)]
      exact .waiting hw hcw
    · rw [if_neg hcw, if_neg (hpolicy ▸ hcw)]
      exact .opening hw (Bool.eq_false_iff.mpr hcw)

/-- The window that an object opens. -/
theorem Account.enter (h : Account G pubs c w s) (ho : G.Admits o) (period : Int64)
    (hset : G.orderly → c.origin ≠ .unset)
    (hdistinct : G.orderly → ((c.enter o period).stretches.map Stretch.time).Nodup) :
    (w.enterWindow o period : Act σ _).Gives s fun w' s' =>
      Account G pubs (c.enter o period) w' s' := by
  have hentering := h.entering o period
  generalize (w.enterWindow o period : Act σ _) = m at hentering
  generalize c.enter o period = d at hentering hdistinct
  cases hentering with
  | inside => exact gives_pure h
  | waiting hidle _ =>
    refine (gives_report (fun _ => False) h.records.sound rfl).bind fun _ s₁ h₁ => gives_pure ?_
    obtain ⟨h₁, -⟩ := h₁
    exact h.skip ⟨⟨period, .unaligned⟩, c.origin, o.timestamp, [], false⟩ h₁.quiet
      (fun _ => False.elim) (h.follows.idle_iff.mp hidle) (by simp [hidle])
      fun _ _ => .inl ⟨h₁, by simp [Setting.fresh]⟩
  | opening hidle _ =>
    refine (h.open ho hset (h.follows.idle_iff.mp hidle) (by simp [hidle]) fun hO => ?_).bind
      fun ph s' hph => gives_pure hph
    exact Course.time_not_mem_past (hdistinct hO) rfl

/-! ### Taking an object -/

lemma Setting.fresh_congr {st' : Stretch} (hkept : st'.kept = st.kept)
    (htime : st'.time = st.time) : G.fresh st' = G.fresh st := by
  rw [fresh, fresh, hkept, htime]

lemma Writes.longer {file : OpenFile ω} {output : ω} (h : Writes G st file s)
    (hslot : G.known → o.link.slot < s.pipeline.links) (hsame : s'.pipeline = s.pipeline)
    (holds : OpenFile.Holds G.view G.config.kind (st.items ++ [o.item])
      { file with output := output, items := file.items + 1, lastLink := o.link } s'.storage) :
    Writes G { st with objects := st.objects ++ [o] }
      { file with output := output, items := file.items + 1, lastLink := o.link } s' where
  kept := h.kept
  window := h.window
  name := h.name
  free := h.free
  holds := by
    rw [Stretch.items, List.map_append]
    exact holds
  starts := by
    rw [hsame]
    exact h.starts
  link hk o' ho' := by
    rw [List.getLast?_concat] at ho'
    cases ho'
    rw [hsame]
    exact ⟨rfl, hslot hk⟩

lemma Halted.take (h : Halted G pubs c w s) (o : StreamObject) : Halted G pubs (c.take o) w s where
  cancelled := h.cancelled
  shut := h.shut
  first := h.first
  unfit := h.unfit
  due hR hl := by
    rcases h.due hR hl with ⟨hsigned, hunfit, hdue⟩ | ⟨hlast, hsigned, hthere⟩
    swap
    · exact .obstructed hlast hsigned hthere
    rename_i st
    cases hc : c.current with
    | none =>
      refine .unfit hsigned hunfit ?_
      simpa [Course.stretches, Course.take, hc] using hdue
    | some cur =>
      have hfilter : ∀ st', G.fresh st' = G.fresh cur → (c.past ++ [st']).filter G.fresh =
          c.past.filter G.fresh ++ if G.fresh cur then [st'] else [] := by
        intro st' hsame
        rw [List.filter_append, ← hsame, List.filter_cons, List.filter_nil]
      have hlonger :
          (c.take o).stretches = c.past ++ [{ cur with objects := cur.objects ++ [o] }] := by
        simp [Course.stretches, Course.take, hc]
      rw [hlonger, hfilter { cur with objects := cur.objects ++ [o] } (G.fresh_congr rfl rfl)]
      rw [Course.stretches, hc, Option.toList_some, hfilter cur rfl] at hdue
      split at hdue
      · rw [if_pos ‹_›]
        -- the stretch that is due may be the one that grows
        rcases List.prefix_concat_iff.mp hdue with heq | hbefore
        · obtain ⟨hpubs, hst⟩ := List.append_inj' heq rfl
          obtain rfl : st = cur := List.singleton_inj.mp hst
          have hgrown : ¬{ st with objects := st.objects ++ [o] }.Fits := fun hfits =>
            hunfit fun x hx => hfits x (List.mem_append_left _ hx)
          refine .unfit hsigned hgrown ?_
          simp only [hpubs, List.prefix_rfl]
        · exact .unfit hsigned hunfit (hbefore.trans (List.prefix_append _ _))
      · rw [if_neg ‹_›]
        exact .unfit hsigned hunfit hdue

lemma Account.abort {file : OpenFile ω} (h : Account G pubs c w s) (hw : w.phase = .writing file)
    (hwr : Writes G st file s) (ho : G.Admits o)
    (givenUp : GivenUp G.view w.token file.part s s') (fault : ¬(G.view.NeverFails ∧ o.item.Fits)) :
    Account G pubs { c with current := some { st with objects := st.objects ++ [o] } }
      { w with phase := .skipping file.window .aborted } s' where
  follows := { h.follows with window := by simp [Phase.window?, hwr.window] }
  records := h.records.quiet givenUp.quiet fun p hp => hp ▸ hwr.isPart
  leads hk := (h.leads hk).mono givenUp.quiet.pipeline.extends
  opened := by rintro _ ⟨⟩
  state hO := by
    have hsteady := h.steady_of_writing hO hw
    refine .inr ⟨givenUp.cancelled, by rintro _ ⟨⟩, ?_,
      fun hR hf => fault ⟨G.storage (G.assured hR), ho.fits hf⟩, fun hS _ => ?_⟩
    · simp only [hsteady.all, List.prefix_rfl]
    · have hunfit : ¬{ st with objects := st.objects ++ [o] }.Fits := fun hfits =>
        fault ⟨G.storage hS, hfits o (by simp)⟩
      refine .unfit (fun b hb => hsteady.signed hb) hunfit ?_
      have hfresh : G.fresh { st with objects := st.objects ++ [o] } = true :=
        (G.fresh_congr rfl rfl).trans hwr.fresh
      simp [hsteady.all, Course.stretches, hfresh]

/-- The object goes into the open file, or is passed over with its window. -/
theorem Account.take (h : Account G pubs c w s) (ho : G.Admits o) :
    (w.take o : Act σ _).Gives s fun w' s' => Account G pubs (c.take o) w' s' := by
  unfold Writer.take
  cases hw : w.phase with
  | idle =>
    have hc := h.follows.idle_iff.mp hw
    have htake : c.take o = c := by
      rw [Course.take, hc]
      exact congrArg (fun d => { c with current := d }) hc.symm
    rw [htake]
    exact gives_pure h
  | writing file =>
    obtain ⟨st, hst, hwr⟩ := h.opened hw
    have hconfig := h.follows.config
    have htake : c.take o =
        { c with current := some { st with objects := st.objects ++ [o] } } := by
      rw [Course.take, hst]
      rfl
    rw [htake]
    refine (Writer.gives_append h.records.sound hwr.reach (h.holds hwr)).bind fun ph s' happ =>
      gives_pure ?_
    cases happ with
    | failed givenUp fault => exact h.abort hw hwr ho givenUp fault
    | @appended output touches holds =>
      rw [hconfig] at holds
      have hslot : G.known → o.link.slot < s.pipeline.links := fun hk =>
        Nat.lt_of_lt_of_le (ho.link hk) h.records.grown.links
      refine h.write touches.quiet (hwr.longer hslot touches.pipeline holds) (fun f hf => ?_)
        fun hO => ⟨h.steady_of_writing hO hw, touches.pipeline, ?_⟩
      · rw [hw] at hf
        cases hf
        rfl
      · obtain ⟨k, hk⟩ := ho.resolved hO
        exact ⟨k, hk.mono h.records.grown⟩
  | skipping window reason =>
    refine (h.reported rfl).bind fun _ s₁ h' => gives_pure ?_
    refine
      { follows := { h'.follows with window := ?_ }
        records := h'.records
        leads := h'.leads
        opened := fun hf => by rw [hw] at hf; cases hf
        state := fun hO => (h'.state hO).imp (fun hst => { hst with writing := ?_ }) fun hh =>
          hh.take o }
    · rw [h'.follows.window, Course.take, Option.map_map]
      rfl
    · intro st hcurrent hfresh
      obtain ⟨st', hst', rfl⟩ := Option.map_eq_some_iff.mp hcurrent
      exact hst.writing hst' (by rw [← hfresh]; exact G.fresh_congr rfl rfl)

lemma Account.pass (h : Account G pubs c w s) (ho : G.Admits o) (period : Int64) :
    Account G pubs (c.pass o period)
      { w with runningHash := o.link, lastPeriod := some period } s where
  follows := { h.follows with lastPeriod := rfl }
  records := h.records
  leads hk := ⟨rfl, Nat.lt_of_lt_of_le (ho.link hk) h.records.grown.links⟩
  opened := h.opened
  state hO := (h.state hO).imp
    (fun hst =>
      { hst with
        ready := fun _ => by
          obtain ⟨k, hk⟩ := ho.resolved hO
          exact ⟨k, hk.mono h.records.grown⟩ })
    fun hh => { hh with }

/-- Turning to the window of an object. -/
theorem Account.turnTo (h : Account G pubs c w s) (o : StreamObject)
    (hne : ∀ st, c.current = some st → st.objects ≠ [])
    (hdistinct : G.orderly → (c.stretches.map Stretch.time).Nodup) :
    (w.turnTo o : Act σ _).Gives s fun w' s' => ∃ more,
      Account G (pubs ++ more)
        ((c.notice (G.clock.period o.timestamp)).leaveFor o.alignment
          (G.clock.period o.timestamp)) w' s' ∧
      Turning G c w s s'
        ((c.notice (G.clock.period o.timestamp)).leaveFor o.alignment
          (G.clock.period o.timestamp)) w' more := by
  unfold Writer.turnTo
  rw [h.follows.clock]
  generalize G.clock.period o.timestamp = period at *
  intro w₂ s₂ hrun
  obtain ⟨w₁, s₁, hnotice, hleave⟩ := bind_eq_some.mp hrun
  have h₁ := h.notice period _ _ hnotice
  obtain ⟨more, h₂, hturning⟩ := h₁.leaveFor o.alignment period
    (by rw [Course.current_notice]; exact hne) (by rw [Course.stretches_notice]; exact hdistinct)
    _ _ hleave
  refine ⟨more, h₂, ?_⟩
  have hpast := Course.past_notice c period
  have hcurrent := Course.current_notice c period
  obtain ⟨hphase, htoken, hstorage⟩ := Writer.gives_noticeBoundary _ _ hnotice
  cases hturning with
  | stayed past current phase =>
    exact .stayed (past.trans hpast) (current.trans hcurrent) (phase.trans hphase)
  | left past current leaving =>
    rw [hpast, hcurrent] at past
    exact .left past current
      (leaving.congr hcurrent.symm hphase.symm htoken.symm hstorage.symm (.refl _))

/-- Receiving an object that the writer has turned to. -/
theorem Account.receive (h : Account G pubs c w s) (ho : G.Admits o) (period : Int64)
    (hset : G.orderly → c.origin ≠ .unset)
    (hdistinct : G.orderly →
      ((((c.enter o period).take o).pass o period).stretches.map Stretch.time).Nodup) :
    (w.receive o period : Act σ _).Gives s fun w' s' =>
      Account G pubs (((c.enter o period).take o).pass o period) w' s' := by
  rw [Course.times_take] at hdistinct
  exact (h.enter ho period hset hdistinct).bind fun _ _ h₁ => (h₁.take ho).bind fun _ _ h₂ =>
    gives_pure (h₂.pass ho period)

/-- **Adding an object** keeps the account, unless the writer has stopped, and puts at most the file
of the window before it in place. -/
theorem Account.add (h : Account G pubs c w s) (ho : G.Admits o)
    (hset : G.orderly → c.origin ≠ .unset)
    (hne : ∀ st, c.current = some st → st.objects ≠ [])
    (hdistinct : G.orderly → ((c.add G.clock o).stretches.map Stretch.time).Nodup) :
    (w.add o : Act σ _).Gives s fun r s' =>
      (∃ w', r = .ok w' ∧ c.stopped = false ∧
        ∃ more, Account G (pubs ++ more) (c.add G.clock o) w' s' ∧ Putting w s' more) ∨
      (r = .error .stopped ∧ c.stopped = true ∧ s' = s) := by
  have hsame := h.follows.stopped
  intro r s' hrun
  cases Writer.gives_adding w o s _ _ hrun with
  | refused hstopped => exact .inr ⟨rfl, hsame.symm.trans hstopped, rfl⟩
  | @taken w₁ w' s₁ _ hrunning hturn hreceive =>
    have hrunning := hsame.symm.trans hrunning
    rw [h.follows.clock] at hreceive
    obtain ⟨more, h₁, hturning⟩ := h.turnTo o hne
      (fun hO => Course.nodup_before_step (.add o) (hdistinct hO)) _ _ hturn
    obtain ⟨-, hgrows⟩ := Writer.advances_receive o _ _ _ _ hreceive
    rw [Course.add_eq hrunning] at hdistinct ⊢
    refine .inl ⟨w', rfl, hrunning, more, h₁.receive ho _ ?_ hdistinct _ _ hreceive,
      hturning.putting.grows hgrows⟩
    rw [Course.origin_leaveFor]
    exact hset

/-! ### The other operations -/

/-- **Stopping** closes the current window before. -/
theorem Account.close (h : Account G pubs c w s)
    (hne : ∀ st, c.current = some st → st.objects ≠ [])
    (hdistinct : G.orderly → (c.stretches.map Stretch.time).Nodup) :
    (w.close : Act σ _).Gives s fun w' s' =>
      ∃ more, Account G (pubs ++ more) { c.leave with stopped := true } w' s' ∧
        Leaving G c w s s' more := by
  unfold Writer.close
  refine (h.closeAndSign hne hdistinct).bind fun w₁ s₁ ⟨more, h₁, hleaving⟩ => ?_
  rintro _ s' hrun
  obtain ⟨_, s₂, hreport, hpure⟩ := bind_eq_some.mp hrun
  cases hpure
  have h₂ := h₁.reported rfl _ _ hreport
  cases hreport
  refine ⟨more, ?_, hleaving.congr rfl rfl rfl rfl (.refl _)⟩
  exact
    { h₂ with
      follows := { h₂.follows with stopped := rfl }
      state := fun hO => (h₂.state hO).imp (fun hst => { hst with }) fun hh => { hh with } }

lemma Account.drop (h : Account G pubs c w s) (hl : ¬G.lasting)
    (hw : ∀ file, w.phase ≠ .writing file) : Account G pubs c.drop w s where
  follows := { h.follows with
    window := by rw [h.follows.window, Course.drop, Option.map_map]; rfl }
  records := h.records
  leads := h.leads
  opened hf := (hw _ hf).elim
  state hO := (h.state hO).imp
    (fun hst =>
      { hst with
        writing := by
          intro st hst hfresh
          obtain ⟨st', hst', rfl⟩ := Option.map_eq_some_iff.mp hst
          simp [Setting.fresh] at hfresh })
    fun hh => { hh with due := fun _ hl' => (hl hl').elim }

lemma Account.throwAway {file : OpenFile ω} (h : Account G pubs c w s)
    (hw : w.phase = .writing file) (ht : Touches G.view (· = file.part) s s')
    (hgone : G.reliable → G.view.file s'.storage file.part = none) :
    Account G pubs c.drop.leave { w with phase := .idle } s' := by
  obtain ⟨st, hst, hwr⟩ := h.opened hw
  refine
    { follows := { h.follows with window := rfl }
      records := (h.records.append _).quiet ht.quiet fun p hp => hp ▸ hwr.isPart
      leads := by rw [ht.pipeline]; exact h.leads
      opened := by rintro _ ⟨⟩
      state := fun hO => ?_ }
  have hsteady := h.steady_of_writing hO hw
  refine .inl
    { token := by rw [ht.pipeline]; exact hsteady.token
      calm := ht.meanwhile.trans hsteady.calm
      ready := by rw [ht.pipeline]; exact hsteady.ready
      lastReady := by rintro _ ⟨⟩
      writing := by rintro _ ⟨⟩
      all := ?_
      signed := hsteady.signed
      tidy := fun {p} hR hp _ => ?_ }
  · rw [hsteady.all]
    simp [Course.leave, Course.drop, hst, Setting.fresh]
  · by_cases hpf : p = file.part
    · exact .inl (hpf ▸ hgone hR)
    · rw [ht.file hpf]
      exact hsteady.tidy_beside hR hw hp hpf

namespace Writer

variable {V : FileView σ ω} {file : OpenFile ω} {bs : Bytes} {part : Path}

lemma gives_dropPart (hs : V.Sound s.storage) (hp : V.Reach part) :
    (dropPart part : Act σ _).Gives s fun _ s' =>
      Touches V (· = part) s s' ∧ Gone V part s' := by
  have hlast : ∀ s₁, Touches V (· = part) s s₁ → Gone V part s₁ →
      (report .cleared : Act σ Unit).Gives s₁ fun _ s' =>
        Touches V (· = part) s s' ∧ Gone V part s' := fun s₁ h₁ hg => by
    refine (gives_report (· = part) h₁.sound rfl).mono ?_
    rintro _ s₂ ⟨h₂, heq⟩
    exact ⟨h₁.trans h₂, by rw [Gone, heq]; exact hg⟩
  refine (gives_remove hs hp).bind ?_
  rintro r s₁ ⟨h₁, hr⟩
  cases r with
  | ok _ => exact hlast s₁ h₁ (.inl hr)
  | error f =>
    refine (gives_report (· = part) h₁.sound rfl).bind ?_
    rintro _ s₂ ⟨h₂, heq⟩
    refine hlast s₂ (h₁.trans h₂) ?_
    rw [Gone, heq, hr.1]
    cases hc : V.file s.storage part with
    | none => exact .inl rfl
    | some c => exact .inr (hr.2 (by simp [hc]))

lemma gives_clear (hw : w.phase = .writing file) (hs : V.Sound s.storage)
    (hp : V.Reach file.part) (ho : V.Open s.storage file.output file.part bs) :
    (w.clear : Act σ _).Gives s fun w' s' => w' = { w with phase := .idle } ∧
      Touches V (· = file.part) s s' ∧ Gone V file.part s' := by
  have hdrop : ∀ s₁, Touches V (· = file.part) s s₁ →
      (dropPart file.part : Act σ _).Gives s₁ fun _ s' =>
        Touches V (· = file.part) s s' ∧ Gone V file.part s' := fun s₁ h₁ =>
    (gives_dropPart h₁.sound hp).mono fun _ _ h => ⟨h₁.trans h.1, h.2⟩
  have hsweep : (w.sweep : Act σ _).Gives s fun _ s' =>
      Touches V (· = file.part) s s' ∧ Gone V file.part s' := by
    unfold sweep
    rw [hw]
    refine (gives_close hs ho).bind fun r s₁ ⟨h₁, hr⟩ => ?_
    cases r with
    | ok _ => exact hdrop s₁ h₁
    | error f =>
      refine (gives_report (· = file.part) h₁.sound rfl).bind fun _ s₂ ⟨h₂, heq⟩ => ?_
      exact hdrop s₂ (h₁.trans h₂)
  rw [clear_eq]
  exact hsweep.bind fun _ _ h => gives_pure ⟨rfl, h⟩

end Writer

lemma Account.gives_clear {file : OpenFile ω} (h : Account G pubs c w s)
    (hw : w.phase = .writing file) :
    (w.clear : Act σ _).Gives s fun w' s' => w' = { w with phase := .idle } ∧
      Touches G.view (· = file.part) s s' ∧ Gone G.view file.part s' := by
  obtain ⟨st, -, hwr⟩ := h.opened hw
  obtain ⟨bs, ho, -⟩ := hwr.holds.taken
  exact Writer.gives_clear hw h.records.sound hwr.reach ho

/-- **Clearing** throws the open file away. -/
theorem Account.clear (h : Account G pubs c w s) (hl : ¬G.lasting) :
    (w.clear : Act σ _).Gives s fun w' s' => Account G pubs c.drop.leave w' s' := by
  cases hw : w.phase with
  | writing file =>
    refine (h.gives_clear hw).mono ?_
    rintro _ s' ⟨rfl, ht, hgone⟩
    exact h.throwAway hw ht fun hR => hgone.resolve_right fun hV =>
      hV (G.storage (G.assured hR)).remove
  | _ =>
    have hclosed : ∀ file, w.phase ≠ .writing file := by simp [hw]
    rw [Writer.clear_of_not_writing hclosed]
    exact (h.reported rfl).bind fun _ s₁ h' => gives_pure ((h'.drop hl hclosed).leave hclosed)

/-- Links settle, handles are given out: the account stays, as long as the token that the writer has
then is as good as the one before. -/
lemma Account.withPipeline {q : Pipeline} {t : Token} (h : Account G pubs c w s)
    (hq : s.pipeline.Extends q)
    (ht : G.orderly → q.isCancelled t = s.pipeline.isCancelled w.token) :
    Account G pubs c { w with token := t } { s with pipeline := q } where
  follows := { h.follows with }
  records :=
    { h.records with
      grown := h.records.grown.trans hq
      published := h.records.published.mono hq }
  leads hk := (h.leads hk).mono hq
  opened hw := by
    obtain ⟨st, hst, hwr⟩ := h.opened hw
    exact ⟨st, hst, { hwr with
      starts := fun hk => (hwr.starts hk).mono hq
      link := fun hk o ho =>
        ⟨(hwr.link hk o ho).1, Nat.lt_of_lt_of_le (hwr.link hk o ho).2 hq.links⟩ }⟩
  state hO := (h.state hO).imp
    (fun hst =>
      { hst with
        token := (ht hO).trans hst.token
        ready := fun hset => (hst.ready hset).imp fun _ hk => hk.mono hq
        lastReady := fun hw => (hst.lastReady hw).imp fun _ hk => hk.mono hq })
    fun hh => { hh with cancelled := (ht hO).trans hh.cancelled }

theorem Account.setRunningHash (h : Account G pubs c w s) (hash : Hash) :
    (w.setRunningHash hash : Act σ _).Gives s fun w' s' =>
      Account G pubs { c with origin := .given hash } w' s' := by
  rintro _ _ ⟨⟩
  have h' := h.withPipeline (t := w.token) (Pipeline.extends_newLink s.pipeline (.resolved hash))
    fun _ => rfl
  have hnew := Pipeline.holds_newLink s.pipeline hash
  exact
    { h' with
      follows := { h'.follows with }
      leads := fun _ => hnew
      state := fun hO => (h'.state hO).imp
        (fun hst => { hst with ready := fun _ => ⟨hash, hnew⟩ }) fun hh => { hh with } }

theorem Account.clearRunningHash (h : Account G pubs c w s) :
    (w.clearRunningHash : Act σ _).Gives s fun w' s' =>
      Account G pubs { c with origin := .unset } w' s' := by
  rintro _ _ ⟨⟩
  have h' := h.withPipeline (t := w.token) (Pipeline.extends_newLink s.pipeline .pending)
    fun _ => rfl
  exact
    { h' with
      follows := { h'.follows with }
      leads := fun _ => trivial
      state := fun hO => (h'.state hO).imp
        (fun hst => { hst with ready := fun hset => (hset rfl).elim }) fun hh => { hh with } }

lemma Account.setCompleteWindow (h : Account G pubs c w s) (on : Bool) :
    Account G pubs { c with completeWindow := on } (w.setCompleteWindow on) s :=
  { h with
    follows := { h.follows with completeWindow := rfl }
    state := fun hO => (h.state hO).imp (fun hst => { hst with }) fun hh => { hh with } }

omit [Storage σ ω] in
lemma Writer.resetCancellation_eq (w : Writer ω) (s : Surroundings σ) :
    w.resetCancellation s = some (if s.pipeline.isCancelled w.token
      then ((true, { w with token := s.pipeline.newToken.1 }),
        { s with pipeline := s.pipeline.newToken.2 })
      else ((false, w), s)) := by
  have hrun : w.resetCancellation s = (if s.pipeline.isCancelled w.token
    then do return (true, { w with token := ← newToken })
    else return (false, w) : Act σ _) s := rfl
  rw [hrun]
  split <;> rfl

/-- A token that is replaced tells no more of what has failed. -/
theorem Account.resetCancellation (h : Account G pubs c w s) (hO : ¬G.orderly) :
    (w.resetCancellation : Act σ _).Gives s fun r s' => Account G pubs c r.2 s' := by
  rintro _ s' hrun
  rw [Writer.resetCancellation_eq] at hrun
  split at hrun
  · cases hrun
    exact h.withPipeline (Pipeline.extends_newToken s.pipeline) fun hO' => (hO hO').elim
  · cases hrun
    exact h

/-! ### Any operation -/

def Operation.taken : Operation → Reply → List StreamObject
  | .add o, .done => [o]
  | _, _ => []

/-- The object of an operation, if it has one, is fit for the setting, and neither a cancellation
nor a file is taken back where it is to last. -/
def Operation.Admitted (G : Setting σ ω) (c : Course) : Operation → Prop
  | .add o => G.Admits o ∧ (G.orderly → c.origin ≠ .unset)
  | .clear => ¬G.lasting
  | .resetCancellation => ¬G.orderly
  | _ => True

/-- **Every operation keeps the account**, puts at most one file in place, and is answered as its
course says. -/
theorem Account.apply {op : Operation} (h : Account G pubs c w s) (hop : op.Admitted G c)
    (hne : ∀ st, c.current = some st → st.objects ≠ [])
    (hdistinct : G.orderly → ((c.step G.clock op).stretches.map Stretch.time).Nodup) :
    (w.apply op : Act σ _).Gives s fun r s' =>
      (∃ more, Account G (pubs ++ more) (c.step G.clock op) r.2 s' ∧ Putting w s' more) ∧
        op.taken r.1 = c.taken op := by
  have hsame : ∀ {c' w' s'}, Account G pubs c' w' s' →
      ∃ more, Account G (pubs ++ more) c' w' s' ∧ Putting w s' more :=
    fun h' => ⟨[], by rwa [List.append_nil], .nothing⟩
  have hbefore := fun hO => Course.nodup_before_step op (hdistinct hO)
  cases op with
  | add o =>
    refine (h.add hop.1 hop.2 hne hdistinct).bind ?_
    rintro _ s' (⟨w', rfl, hstopped, h'⟩ | ⟨rfl, hstopped, rfl⟩)
    · exact gives_pure ⟨h', by simp [Operation.taken, Course.taken, hstopped]⟩
    · have hstep : c.step G.clock (.add o) = c := by simp [Course.step, Course.add, hstopped]
      refine gives_pure ⟨?_, by simp [Operation.taken, Course.taken, hstopped]⟩
      rw [hstep]
      exact hsame h
  | closeAndSign =>
    refine (h.closeAndSign hne hbefore).bind ?_
    rintro w' s' ⟨more, h', hleaving⟩
    exact gives_pure ⟨⟨more, h', hleaving.putting⟩, rfl⟩
  | clear =>
    exact (h.clear hop).bind fun w' s' h' => gives_pure ⟨hsame h', rfl⟩
  | close =>
    refine (h.close hne hbefore).bind ?_
    rintro w' s' ⟨more, h', hleaving⟩
    exact gives_pure ⟨⟨more, h', hleaving.putting⟩, rfl⟩
  | setRunningHash hash =>
    exact (h.setRunningHash hash).bind fun w' s' h' => gives_pure ⟨hsame h', rfl⟩
  | clearRunningHash =>
    exact h.clearRunningHash.bind fun w' s' h' => gives_pure ⟨hsame h', rfl⟩
  | setCompleteWindow on => exact gives_pure ⟨hsame (h.setCompleteWindow on), rfl⟩
  | resetCancellation =>
    exact (h.resetCancellation hop).bind fun r s' h' => gives_pure ⟨hsame h', rfl⟩

end SealedStream
