import SealedStream.Proofs.Writer.Sparing

/-!
Thorough writers: where nothing fails every window gets its file, in whatever order the times of the
stream come, unless one stands in its place.

Times that come back are met by the file of the earlier window, so nothing is said here of what is
in the files, only that they stand.
-/

namespace SealedStream

open Act
open Naming (Role)

variable {σ ω : Type} [Storage σ ω] {G : Setting σ ω} {pubs : List Publication} {c : Course}
  {w : Writer ω} {s s' : Surroundings σ} {st : Stretch} {file : OpenFile ω} {o : StreamObject}
  {period : Int64} {time : Timestamp}

/-- Neither storage nor signer fails. -/
structure Setting.Sure (G : Setting σ ω) : Prop where
  storage : G.view.NeverFails
  signs (call : ℕ) (message : Bytes) :
    ∃ a, G.signer.sign call message = .ok a ∧ a.length ≤ Field.maxPayload

def Setting.Stands (G : Setting σ ω) (time : Timestamp) (s : σ) : Prop :=
  ∃ path, Naming.recordPath G.config.exportDir time G.config.kind = .ok path ∧
    (G.view.file s path).isSome

/-- No window has been missed so far, and nothing is in the way of what is to come. -/
structure Thorough (G : Setting σ ω) (c : Course) (w : Writer ω) (s : Surroundings σ) : Prop where
  token : s.pipeline.isCancelled w.token = false
  calm : s.meanwhile = []
  ready : c.origin ≠ .unset → ∃ h, s.pipeline.Holds w.runningHash h
  lastReady {file : OpenFile ω} : w.phase = .writing file → ∃ h, s.pipeline.Holds file.lastLink h
  /-- The place of the open file is free. -/
  free {file : OpenFile ω} : w.phase = .writing file → G.view.file s.storage file.path = none
  /-- No unfinished file is left over. -/
  clear {p : Path} : G.InProgress p → w.phase.part? ≠ some p → G.view.file s.storage p = none
  past {st : Stretch} : st ∈ c.past → st.kept = true → G.Stands st.time s.storage
  current {st : Stretch} : c.current = some st → st.kept = true →
    w.isWriting = true ∨ G.Stands st.time s.storage

/-! ### What lasts -/

lemma Account.names (h : Account G pubs c w s) (hw : w.phase = .writing file) :
    G.config.Names file.path := by
  obtain ⟨st, -, hwr⟩ := h.opened hw
  exact hwr.names

lemma Spares.stands_record {ph ph' : Phase ω} {t t' : σ}
    (h : Spares G G.config.Names ph t ph' t') {path : Path} (hn : G.config.Names path)
    (hsome : (G.view.file t path).isSome) : (G.view.file t' path).isSome := by
  obtain ⟨bs, hbs⟩ := Option.isSome_iff_exists.mp hsome
  refine Option.isSome_iff_exists.mpr ⟨bs, h.stands hbs ?_⟩
  rintro q hq ⟨r, hr, heq⟩
  exact hr (G.plain.path_inj (r := .record) hn hq heq).1.symm

lemma Spares.stands_time {ph ph' : Phase ω} {t t' : σ} (h : Spares G G.config.Names ph t ph' t')
    (hst : G.Stands time t) : G.Stands time t' :=
  hst.imp fun _ hp => ⟨hp.1, h.stands_record ⟨_, hp.1⟩ hp.2⟩

lemma Thorough.clear_after (ht : Thorough G c w s) (hG : G.Sure) {ph : Phase ω} {t : σ}
    (hs : Spares G G.config.Names w.phase s.storage ph t) {p : Path} (hp : G.InProgress p)
    (hne : ph.part? ≠ some p) : G.view.file t p = none := by
  refine hs.swept hG.storage.remove hp ?_ hne
  by_cases hopen : w.phase.part? = some p
  · exact .inr hopen
  · exact .inl (ht.clear hp hopen)

/-! ### Leaving a window -/

lemma Thorough.leave (ht : Thorough G c w s) (hw : w.isWriting = false) :
    Thorough G c.leave { w with phase := .idle } s where
  token := ht.token
  calm := ht.calm
  ready := ht.ready
  lastReady := nofun
  free := nofun
  clear hp _ := ht.clear hp fun hopen => by
    obtain ⟨file, hfile, -⟩ := Phase.part?_eq_some_iff.mp hopen
    rw [Writer.isWriting, hfile] at hw
    cases hw
  past {st} hst hkept := by
    rw [Course.leave, List.mem_append, Option.mem_toList] at hst
    rcases hst with hst | hst
    · exact ht.past hst hkept
    · exact (ht.current hst hkept).resolve_left (by simp [hw])
  current := nofun

/-- **The file of a window that is left** is put in place and signed. -/
lemma Account.thorough_finish (h : Account G pubs c w s) (ht : Thorough G c w s) (hG : G.Sure)
    (hw : w.phase = .writing file) :
    (w.finish file : Act σ _).Gives s fun w' s' => Thorough G c.leave w' s' := by
  intro w' s' hrun
  have hspares := h.spares_finish hw (h.names hw) _ _ hrun
  have hconfig := h.follows.config
  obtain ⟨st, hst, hwr⟩ := h.opened hw
  obtain ⟨k, hlink⟩ := ht.lastReady hw
  have hready : s.Ready file.lastLink w.token := ⟨ht.calm, ht.token, k, hlink.2⟩
  obtain ⟨r, s₂, hfinish, hpure⟩ := bind_eq_some.mp hrun
  have hfin := h.gives_finishFile hwr _ _ hfinish
  cases hpure
  cases hfin with
  | noEnd fault givenUp => exact (fault hready).elim
  | failed fault givenUp => exact (fault hG.storage).elim
  | blocked there quiet gone =>
    rw [ht.free hw] at there
    cases there
  | @placed finish content s₁ signature resolved undisturbed form placing signing =>
    have hpart : Role.signaturePart.path G.config.kind file.path ≠ file.part :=
      (hwr.isPart.ne hwr.names (by decide)).symm
    have hclear :
        G.view.file s₁.storage (Role.signaturePart.path G.config.kind file.path) = none := by
      rw [placing.other hpart (hwr.role_ne (show Role.signaturePart ≠ .record by decide))]
      refine ht.clear ⟨_, hwr.names, .inr rfl⟩ fun hopen => ?_
      rw [hw] at hopen
      exact hpart (Option.some.inj hopen).symm
    have hsigned := signing.isSome hG.storage
      (by rw [placing.signer, h.records.signer]; exact hG.signs) (by rw [hconfig]; exact hclear)
    obtain ⟨target, rfl⟩ := Option.isSome_iff_exists.mp hsigned
    obtain ⟨hpipe, hmean, -⟩ := signing.settled
    have hsame : s'.pipeline = s.pipeline := hpipe.trans (undisturbed hready)
    have hstands : G.Stands st.time s'.storage := by
      obtain ⟨messages, signature', -, sealing⟩ := signing.sealing
      rw [hconfig] at sealing
      refine ⟨file.path, hwr.name, Option.isSome_iff_ne_none.mpr fun hnone => ?_⟩
      have hfile := sealing.file (hwr.role_ne (show Role.record ≠ .signaturePart by decide))
      exact nomatch placing.there.symm.trans (eq_none_of_putAll (hfile.symm.trans hnone))
    refine
      { token := by rw [hsame]; exact ht.token
        calm := hmean.trans (placing.calm ht.calm)
        ready := by rw [hsame]; exact ht.ready
        lastReady := nofun
        free := nofun
        clear := ht.clear_after hG hspares
        past := fun {st'} hst' hkept => ?_
        current := nofun }
    rw [Course.leave, hst, List.mem_append, Option.toList_some, List.mem_singleton] at hst'
    rcases hst' with hst' | rfl
    · exact hspares.stands_time (ht.past hst' hkept)
    · exact hstands

lemma Thorough.notice (ht : Thorough G c w s) (period : Int64) :
    (w.noticeBoundary period : Act σ _).Gives s fun w' s' =>
      Thorough G (c.notice period) w' s' := by
  have hsame : Thorough G (c.notice period) w s :=
    { ht with
      ready := by rw [Course.origin_notice]; exact ht.ready
      past := by rw [Course.past_notice]; exact ht.past
      current := by rw [Course.current_notice]; exact ht.current }
  unfold Writer.noticeBoundary
  split
  · rintro _ _ ⟨⟩
    exact { hsame with }
  · exact gives_pure hsame

lemma Account.thorough_closeAndSign (h : Account G pubs c w s) (ht : Thorough G c w s)
    (hG : G.Sure) :
    (w.closeAndSign : Act σ _).Gives s fun w' s' => Thorough G c.leave w' s' := by
  unfold Writer.closeAndSign
  cases hw : w.phase with
  | writing file => exact h.thorough_finish ht hG hw
  | _ => exact gives_pure (ht.leave (by simp [Writer.isWriting, hw]))

lemma Account.thorough_leaveFor (h : Account G pubs c w s) (ht : Thorough G c w s) (hG : G.Sure)
    (alignment : Alignment) (period : Int64) :
    (w.leaveWindow alignment period : Act σ _).Gives s fun w' s' =>
      Thorough G (c.leaveFor alignment period) w' s' := by
  rcases h.leaveWindow_cases alignment period with ⟨hw, hc⟩ | ⟨hw, hc⟩ <;> rw [hw, hc]
  · exact gives_pure ht
  · exact h.thorough_closeAndSign ht hG

/-- **Turning to the window of an object.** -/
lemma Account.thorough_turnTo (h : Account G pubs c w s) (ht : Thorough G c w s) (hG : G.Sure)
    (o : StreamObject) :
    (w.turnTo o : Act σ _).Gives s fun w' s' => Thorough G
      ((c.notice (G.clock.period o.timestamp)).leaveFor o.alignment
        (G.clock.period o.timestamp)) w' s' := by
  unfold Writer.turnTo
  rw [h.follows.clock]
  generalize G.clock.period o.timestamp = period
  intro w₂ s₂ hrun
  obtain ⟨w₁, s₁, hnotice, hleave⟩ := bind_eq_some.mp hrun
  exact (h.notice period _ _ hnotice).thorough_leaveFor (ht.notice period _ _ hnotice) hG
    _ _ _ _ hleave

/-! ### Receiving an object -/

/-- An object that comes with a resolved link, and with a time that has a name. -/
structure Setting.Takes (G : Setting σ ω) (o : StreamObject) : Prop where
  resolved : ∃ h, G.pipeline.Holds o.link h
  named : ∃ path, Naming.recordPath G.config.exportDir o.timestamp G.config.kind = .ok path

lemma Thorough.skip (ht : Thorough G c w s) (hw : w.phase = .idle) {window : Window}
    {reason : SkipReason} (htouch : Touches G.view (fun _ => False) s s')
    (hst : st.kept = true → G.Stands st.time s.storage) :
    Thorough G { c with current := some st } { w with phase := .skipping window reason } s' := by
  have hstands : ∀ {time}, G.Stands time s.storage → G.Stands time s'.storage :=
    fun h => h.imp fun _ hp => ⟨hp.1, by rw [htouch.file id]; exact hp.2⟩
  refine
    { token := by rw [htouch.pipeline]; exact ht.token
      calm := htouch.meanwhile.trans ht.calm
      ready := by rw [htouch.pipeline]; exact ht.ready
      lastReady := nofun
      free := nofun
      clear := fun hp _ => by rw [htouch.file id]; exact ht.clear hp (by simp [hw, Phase.part?])
      past := fun hst' hkept => hstands (ht.past hst' hkept)
      current := ?_ }
  rintro _ ⟨⟩ hkept
  exact .inr (hstands (hst hkept))

/-- **Opening the file of a window**, unless it stands already. -/
lemma Account.thorough_open {window : Window} (h : Account G pubs c w s) (ht : Thorough G c w s)
    (hG : G.Sure) (ho : G.Takes o) (hset : c.origin ≠ .unset) (hw : w.phase = .idle) :
    (w.openWindow o window : Act σ _).Gives s fun ph s' => Thorough G
      { c with current := some ⟨window, c.origin, o.timestamp, [], true⟩ } { w with phase := ph }
      s' := by
  have hconfig := h.follows.config
  obtain ⟨path, hname⟩ := ho.named
  have hn : G.config.Names path := ⟨_, hname⟩
  rw [← hconfig] at hname
  obtain ⟨k, hlink⟩ := ht.ready hset
  have hready : s.Ready w.runningHash w.token := ⟨ht.calm, ht.token, k, hlink.2⟩
  refine h.gives_openWindow.mono fun ph s' hopen => ?_
  have hspares : Spares G G.config.Names w.phase s.storage ph s'.storage := by
    rw [hw]
    refine hopen.spares fun path' hpath => ?_
    rw [hname] at hpath
    cases hpath
    exact hn
  cases hopen with
  | unnamed name quiet cancelled => exact nomatch hname.symm.trans name
  | noStart name free fault quiet cancelled => exact (fault hready).elim
  | failed name free givenUp fault => exact (fault hG.storage).elim
  | @there path' name there same =>
    rw [hconfig] at name
    exact ht.skip hw same fun _ => ⟨path', name, there⟩
  | @opened path' start file name free quiet alive undisturbed resolved holds fields =>
    cases hname.symm.trans name
    have hsame : s'.pipeline = s.pipeline := undisturbed hready
    have hpart : G.IsPart (Naming.partPath path) := ⟨path, hn, rfl⟩
    have hne : path ≠ Naming.partPath path := (hpart.ne (r := .record) hn (by decide)).symm
    refine
      { token := by rw [hsame]; exact ht.token
        calm := quiet.calm ht.calm
        ready := by rw [hsame]; exact ht.ready
        lastReady := ?_
        free := ?_
        clear := ht.clear_after hG hspares
        past := fun hst hkept => hspares.stands_time (ht.past hst hkept)
        current := fun _ _ => .inl rfl }
    · rintro _ ⟨⟩
      rw [hsame, fields.2.2.1]
      exact ⟨k, hlink⟩
    · rintro _ ⟨⟩
      rw [fields.1, quiet.file hne, free]

/-- **Entering a window.** -/
lemma Account.thorough_enter (h : Account G pubs c w s) (ht : Thorough G c w s) (hG : G.Sure)
    (ho : G.Takes o) (hset : c.origin ≠ .unset) (period : Int64) :
    (w.enterWindow o period : Act σ _).Gives s fun w' s' =>
      Thorough G (c.enter o period) w' s' := by
  have hentering := h.entering o period
  generalize (w.enterWindow o period : Act σ _) = m at hentering
  generalize c.enter o period = d at hentering
  cases hentering with
  | inside => exact gives_pure ht
  | waiting hidle _ =>
    refine (gives_report (fun _ => False) h.records.sound rfl).bind ?_
    rintro _ s₁ ⟨h₁, -⟩
    exact gives_pure (ht.skip hidle h₁ nofun)
  | opening hidle _ =>
    exact (h.thorough_open ht hG ho hset hidle).bind fun ph s' hph => gives_pure hph

/-- A payload that could not be written has cancelled the token. -/
def Writer.Unfit (w : Writer ω) (s : Surroundings σ) (o : StreamObject) : Prop :=
  s.pipeline.isCancelled w.token = true ∧ ¬o.item.Fits

lemma Thorough.take (ht : Thorough G c w s) (o : StreamObject) : Thorough G (c.take o) w s :=
  { ht with
    current := by
      intro st hst hkept
      obtain ⟨st', hst', rfl⟩ := Option.map_eq_some_iff.mp hst
      exact (ht.current hst' : st'.kept = true → _) hkept }

/-- **Taking an object**, if its payload can be written. -/
lemma Account.thorough_take (h : Account G pubs c w s) (ht : Thorough G c w s) (hG : G.Sure)
    (ho : G.Takes o) :
    (w.take o : Act σ _).Gives s fun w' s' => Thorough G (c.take o) w' s' ∨ w'.Unfit s' o := by
  unfold Writer.take
  cases hw : w.phase with
  | idle => exact gives_pure (.inl (ht.take o))
  | skipping window reason =>
    rintro _ _ ⟨⟩
    exact .inl { ht.take o with }
  | writing file =>
    obtain ⟨st, hst, hwr⟩ := h.opened hw
    refine (Writer.gives_append h.records.sound hwr.reach (h.holds hwr)).bind fun ph s' happ =>
      gives_pure ?_
    have hspares : Spares G G.config.Names w.phase s.storage ph s'.storage := by
      rw [hw]
      exact happ.spares hwr.holds.part hwr.names
    cases happ with
    | failed givenUp fault => exact .inr ⟨givenUp.cancelled, fun hfits => fault ⟨hG.storage, hfits⟩⟩
    | @appended output touches holds =>
      obtain ⟨k, hlink⟩ := ho.resolved
      have hne : file.path ≠ file.part := (hwr.isPart.ne (r := .record) hwr.names (by decide)).symm
      have hkept : Thorough G c
          { w with
            phase := .writing
              { file with output := output, items := file.items + 1, lastLink := o.link } } s' :=
        { token := by rw [touches.pipeline]; exact ht.token
          calm := touches.meanwhile.trans ht.calm
          ready := by rw [touches.pipeline]; exact ht.ready
          lastReady := by
            rintro _ ⟨⟩
            rw [touches.pipeline]
            exact ⟨k, hlink.mono h.records.grown⟩
          free := by
            rintro _ ⟨⟩
            rw [touches.file hne]
            exact ht.free hw
          clear := ht.clear_after hG hspares
          past := fun hst hkept => hspares.stands_time (ht.past hst hkept)
          current := fun _ _ => .inl rfl }
      exact .inl (hkept.take o)

/-- **Receiving an object** that the writer has turned to. -/
lemma Account.thorough_receive (h : Account G pubs c w s) (ht : Thorough G c w s) (hG : G.Sure)
    (hO : ¬G.orderly) (hadmits : G.Admits o) (ho : G.Takes o) (hset : c.origin ≠ .unset)
    (period : Int64) :
    (w.receive o period : Act σ _).Gives s fun w' s' =>
      Thorough G (((c.enter o period).take o).pass o period) w' s' ∨ w'.Unfit s' o := by
  intro w₃ s₃ hrun
  obtain ⟨w₁, s₁, henter, hrun⟩ := bind_eq_some.mp hrun
  obtain ⟨w₂, s₂, htake, hpure⟩ := bind_eq_some.mp hrun
  cases hpure
  have h₁ := h.enter hadmits period (fun hO' => (hO hO').elim) (fun hO' => (hO hO').elim) _ _ henter
  have h₂ := h₁.take hadmits _ _ htake
  have ht₁ := h.thorough_enter ht hG ho hset period _ _ henter
  refine (h₁.thorough_take ht₁ hG ho _ _ htake).imp (fun ht₂ => ?_) id
  obtain ⟨k, hlink⟩ := ho.resolved
  exact { ht₂ with ready := fun _ => ⟨k, hlink.mono h₂.records.grown⟩ }

/-- **Adding an object**, unless its payload cannot be written. -/
lemma Account.thorough_add (h : Account G pubs c w s) (ht : Thorough G c w s) (hG : G.Sure)
    (hO : ¬G.orderly) (hadmits : G.Admits o) (ho : G.Takes o) (hset : c.origin ≠ .unset)
    (hne : ∀ st, c.current = some st → st.objects ≠ []) :
    (w.add o : Act σ _).Gives s fun r s' =>
      match r with
      | .ok w' => Thorough G (c.add G.clock o) w' s' ∨ w'.Unfit s' o
      | .error _ => Thorough G (c.add G.clock o) w s' := by
  intro r s' hrun
  cases Writer.gives_adding w o s _ _ hrun with
  | refused hstopped =>
    rw [Course.add, if_pos (h.follows.stopped.symm.trans hstopped)]
    exact ht
  | taken hrunning hturn hreceive =>
    rw [h.follows.clock] at hreceive
    rw [Course.add_eq (h.follows.stopped.symm.trans hrunning)]
    obtain ⟨more, h₁, -⟩ := h.turnTo o hne (fun hO' => (hO hO').elim) _ _ hturn
    have ht₁ := h.thorough_turnTo ht hG o _ _ hturn
    refine h₁.thorough_receive ht₁ hG hO hadmits ho ?_ _ _ _ hreceive
    rw [Course.origin_leaveFor]
    exact hset

/-! ### Any operation -/

lemma Thorough.setRunningHash (ht : Thorough G c w s) (hash : Hash) :
    (w.setRunningHash hash : Act σ _).Gives s fun w' s' =>
      Thorough G { c with origin := .given hash } w' s' := by
  rintro _ _ ⟨⟩
  exact
    { ht with
      ready := fun _ => ⟨hash, Pipeline.holds_newLink s.pipeline hash⟩
      lastReady := fun hw => (ht.lastReady hw).imp fun _ hk =>
        hk.mono (Pipeline.extends_newLink s.pipeline _) }

lemma Thorough.clearRunningHash (ht : Thorough G c w s) :
    (w.clearRunningHash : Act σ _).Gives s fun w' s' =>
      Thorough G { c with origin := .unset } w' s' := by
  rintro _ _ ⟨⟩
  exact
    { ht with
      ready := fun hset => (hset rfl).elim
      lastReady := fun hw => (ht.lastReady hw).imp fun _ hk =>
        hk.mono (Pipeline.extends_newLink s.pipeline _) }

/-- **Every operation but clearing is thorough**, unless it comes with a payload that cannot be
written. -/
theorem Account.thorough_apply {op : Operation} (h : Account G pubs c w s) (ht : Thorough G c w s)
    (hG : G.Sure) (hO : ¬G.orderly) (hop : op.Admitted G c)
    (hne : ∀ st, c.current = some st → st.objects ≠ []) (hclear : op ≠ .clear)
    (ho : ∀ o, op = .add o → G.Takes o ∧ c.origin ≠ .unset) :
    (w.apply op : Act σ _).Gives s fun r s' =>
      Thorough G (c.step G.clock op) r.2 s' ∨ ∃ o, op = .add o ∧ r.2.Unfit s' o := by
  cases op with
  | clear => exact (hclear rfl).elim
  | add o =>
    obtain ⟨htakes, hset⟩ := ho o rfl
    refine (h.thorough_add ht hG hO hop.1 htakes hset hne).bind fun r s' hr => ?_
    cases r with
    | ok w' => exact gives_pure (hr.imp id fun hunfit => ⟨o, rfl, hunfit⟩)
    | error e => exact gives_pure (.inl hr)
  | closeAndSign => exact (h.thorough_closeAndSign ht hG).bind fun _ _ h' => gives_pure (.inl h')
  | close =>
    refine Gives.bind (P := fun w' s' => Thorough G { c.leave with stopped := true } w' s') ?_
      fun _ _ h' => gives_pure (.inl h')
    refine (h.thorough_closeAndSign ht hG).bind fun w₁ s₁ h₁ => ?_
    rintro _ _ ⟨⟩
    exact { h₁ with }
  | setRunningHash hash => exact (ht.setRunningHash hash).bind fun _ _ h' => gives_pure (.inl h')
  | clearRunningHash => exact ht.clearRunningHash.bind fun _ _ h' => gives_pure (.inl h')
  | setCompleteWindow on => exact gives_pure (.inl { ht with })
  | resetCancellation =>
    refine Gives.bind (P := fun r s' => r = (false, w) ∧ s' = s) ?_ fun r s' hr => gives_pure ?_
    · intro r s' hrun
      rw [Writer.resetCancellation_eq, ht.token] at hrun
      cases hrun
      exact ⟨rfl, rfl⟩
    · obtain ⟨rfl, rfl⟩ := hr
      exact .inl ht

end SealedStream
