import SealedStream.Proofs.Writer.Composition
import SealedStream.Proofs.Writer.Runs

/-!
The writer comes back to its caller, unless it waits for a link that is still pending.
-/

namespace SealedStream

variable {σ ω α β : Type}

namespace Act

def Returns (m : Act σ α) : Prop := ∀ s, m.Ends s

variable {m : Act σ α} {f : α → Act σ β}

lemma Returns.bind (hm : m.Returns) (hf : ∀ a, (f a).Returns) : (m >>= f).Returns :=
  fun s => (hm s).bind fun a s₁ _ => hf a s₁

lemma returns_pure (a : α) : (pure a : Act σ α).Returns := fun _ => ends_pure a

lemma returns_report (e : Event) : (report e : Act σ Unit).Returns := fun _ => ⟨_, _, rfl⟩

lemma returns_onStorage (f : σ → α × σ) : (onStorage f).Returns := fun _ => ⟨_, _, rfl⟩

lemma returns_onPipeline (f : Pipeline → α × Pipeline) : (onPipeline f : Act σ α).Returns :=
  fun _ => ⟨_, _, rfl⟩

lemma closed_returns : Closed (σ := σ) Returns where
  pure := returns_pure
  bind := Returns.bind
  report := returns_report
  onStorage := returns_onStorage
  cancel _ := returns_onPipeline _
  sign _ _ := ⟨_, _, rfl⟩
  signatureScheme _ := ⟨_, _, rfl⟩

lemma ends_await {s : Surroundings σ} {l : Link} (hl : s.pipeline.stateOf l ≠ .pending)
    (t : Token) :
    (await l t : Act σ _).Ends s := by
  have hg : s.pipeline.Grows s.overtaken.pipeline := Pipeline.grows_foldl _ _
  have hsome : (s.overtaken.pipeline.read l t).isSome :=
    Pipeline.read_isSome (by rw [hg.settled hl]; exact hl)
  obtain ⟨a, ha⟩ := Option.isSome_iff_exists.mp hsome
  unfold Ends await
  simp only [Pipeline.wait_of_read ha]
  exact ⟨_, _, rfl⟩

end Act

namespace Writer

open Act

variable [Storage σ ω] {w : Writer ω} {file : OpenFile ω} {s : Surroundings σ}

/-- **Finishing a file** comes back once the link of its last item has settled. -/
theorem ends_finish (hl : s.pipeline.stateOf file.lastLink ≠ .pending) :
    (w.finish file : Act σ _).Ends s := by
  have hfile : (w.finishFile file : Act σ _).Ends s := by
    refine (ends_await hl w.token).bind fun r s₁ _ => ?_
    cases r with
    | error e =>
      exact (returns_report _).bind (fun _ => (returns_onPipeline _).bind fun _ =>
        (closed_returns.uncreating.discard _ _).bind fun _ => returns_pure _) s₁
    | ok finish =>
      exact (returns_report _).bind (fun _ => closed_returns.uncreating.finishAt finish) s₁
  exact hfile.bind fun _ _ _ => ends_pure _

/-- **Opening a window** comes back once the link of the object before it has settled. -/
theorem ends_openWindow {o : StreamObject} {window : Window}
    (hl : s.pipeline.stateOf w.runningHash ≠ .pending) :
    (w.openWindow o window : Act σ _).Ends s := by
  unfold openWindow
  cases Naming.recordPath w.config.exportDir o.timestamp w.config.kind with
  | error e => exact (returns_report _).bind (fun _ => closed_returns.uncreating.abandon window) s
  | ok path =>
    refine (returns_onStorage _ s).bind fun b s₁ hpresent => ?_
    cases hpresent
    split
    · exact (returns_report _).bind (fun _ => returns_pure _) _
    · refine Ends.bind (ends_await hl w.token) fun r s₂ _ => ?_
      cases r with
      | error e =>
        exact (returns_report _).bind (fun _ => closed_returns.uncreating.abandon window) s₂
      | ok start => exact closed_returns.openFrom o window path start s₂

omit [Storage σ ω] in
lemma returns_noticeBoundary (period : Int64) : (w.noticeBoundary period : Act σ _).Returns := by
  unfold noticeBoundary
  split
  · exact (returns_report _).bind fun _ => returns_pure _
  · exact returns_pure _

lemma ends_closeAndSign
    (hfinish : ∀ file, w.phase = .writing file → (w.finish file : Act σ _).Ends s) :
    (w.closeAndSign : Act σ _).Ends s := by
  unfold closeAndSign
  split
  · exact hfinish _ ‹_›
  · exact ends_pure _

lemma ends_leaveWindow {alignment : Alignment} {period : Int64}
    (hfinish : ∀ file, w.phase = .writing file → (w.finish file : Act σ _).Ends s) :
    (w.leaveWindow alignment period : Act σ _).Ends s := by
  rcases w.leaveWindow_cases (σ := σ) alignment period with h | h <;> rw [h]
  · exact ends_pure _
  · exact ends_closeAndSign hfinish

lemma ends_enterWindow {o : StreamObject} {period : Int64}
    (hl : s.pipeline.stateOf w.runningHash ≠ .pending) :
    (w.enterWindow o period : Act σ _).Ends s := by
  unfold enterWindow
  split
  · split
    · exact (returns_report _).bind (fun _ => returns_pure _) s
    · exact (ends_openWindow hl).bind fun _ _ _ => ends_pure _
  · exact ends_pure _

lemma returns_take (o : StreamObject) : (w.take o : Act σ _).Returns := by
  unfold take
  split
  · exact returns_pure _
  · exact (closed_returns.uncreating.append o).bind fun _ => returns_pure _
  · exact (returns_report _).bind fun _ => returns_pure _

end Writer

/-! ### Runs over resolved links -/

/-- The links of the objects taken so far are resolved. -/
structure Course.Resolved (p : Pipeline) (c : Course) : Prop where
  objects {o : StreamObject} : o ∈ c.objects → ∃ h, p.Holds o.link h
  origin {o : StreamObject} : c.origin = .after o → ∃ h, p.Holds o.link h

lemma Course.Resolved.step {p : Pipeline} {c : Course} (h : c.Resolved p) (clock : PeriodClock)
    (op : Operation) (hop : ∀ o, op = .add o → ∃ k, p.Holds o.link k) :
    (c.step clock op).Resolved p where
  objects {o} ho := by
    rw [Course.objects_step, List.mem_append] at ho
    rcases ho with ho | ho
    · exact h.objects ho
    · exact hop o (Course.mem_taken ho)
  origin {o} ho := by
    cases op with
    | add o' =>
      by_cases hstopped : c.stopped = true
      · rw [Course.step, Course.add, if_pos hstopped] at ho
        exact h.origin ho
      · rw [Course.step, Course.add_eq (by simpa using hstopped)] at ho
        cases ho
        exact hop _ rfl
    | setRunningHash hash => cases ho
    | clearRunningHash => cases ho
    | closeAndSign => exact h.origin ho
    | clear => exact h.origin ho
    | close => exact h.origin ho
    | setCompleteWindow on => exact h.origin ho
    | resetCancellation => exact h.origin ho

lemma Course.Resolved.notice {p : Pipeline} {c : Course} (h : c.Resolved p) (period : Int64) :
    (c.notice period).Resolved p := by
  unfold Course.notice
  split
  · exact ⟨h.objects, h.origin⟩
  · exact h

open Act

variable [Storage σ ω] {G : Setting σ ω} {pubs : List Publication} {c : Course} {w : Writer ω}
  {s : Surroundings σ} {o : StreamObject} {t : Stage σ ω} {steps : List Step}

lemma Account.settled (h : Account G pubs c w s) (hk : G.known) (hset : c.origin ≠ .unset)
    (hres : ∀ o, c.origin = .after o → ∃ k, G.pipeline.Holds o.link k) :
    s.pipeline.stateOf w.runningHash ≠ .pending := by
  have hl := h.leads hk
  cases ho : c.origin with
  | unset => exact (hset ho).elim
  | given k =>
    rw [ho] at hl
    rw [hl.2]
    rintro ⟨⟩
  | after o =>
    rw [ho] at hl
    obtain ⟨k, hk⟩ := hres o ho
    rw [hl.1, (hk.mono h.records.grown).2]
    rintro ⟨⟩

lemma Account.ends_finish (h : Account G pubs c w s) (hk : G.known) (hres : c.Resolved G.pipeline)
    (hne : ∀ st, c.current = some st → st.objects ≠ []) {file : OpenFile ω}
    (hw : w.phase = .writing file) : (w.finish file : Act σ _).Ends s := by
  obtain ⟨st, hst, hwr⟩ := h.opened hw
  have hlast := List.getLast?_eq_some_getLast (hne st hst)
  obtain ⟨k, hk'⟩ := hres.objects (o := st.objects.getLast (hne st hst))
    (List.mem_flatMap.mpr ⟨st, by simp [Course.stretches, hst], List.getLast_mem _⟩)
  refine Writer.ends_finish ?_
  rw [(hwr.link hk _ hlast).1, (hk'.mono h.records.grown).2]
  rintro ⟨⟩

/-- Adding an object comes back: where a file has to be begun, what it starts from is known. -/
theorem Account.ends_add (h : Account G pubs c w s) (hk : G.known) (hres : c.Resolved G.pipeline)
    (hset : c.origin ≠ .unset)
    (hne : ∀ st, c.current = some st → st.objects ≠ [])
    (hdistinct : G.orderly → ((c.add G.clock o).stretches.map Stretch.time).Nodup) :
    (w.add o : Act σ _).Ends s := by
  unfold Writer.add
  rw [h.follows.stopped]
  split
  · exact ends_pure _
  · rename_i hstopped
    have hstopped : c.stopped = false := by simpa using hstopped
    rw [h.follows.clock]
    have hbefore := fun hO => Course.nodup_before_step (.add o) (hdistinct hO)
    generalize G.clock.period o.timestamp = period at *
    refine (Writer.returns_noticeBoundary period s).bind fun w₁ s₁ hrun₁ => ?_
    have h₁ := h.notice period _ _ hrun₁
    have hne₁ : ∀ st, (c.notice period).current = some st → st.objects ≠ [] := by
      rw [Course.current_notice]
      exact hne
    have hleave : (w₁.leaveWindow o.alignment period : Act σ _).Ends s₁ :=
      Writer.ends_leaveWindow fun file hw => h₁.ends_finish hk (hres.notice period) hne₁ hw
    refine hleave.bind fun w₂ s₂ hrun₂ => ?_
    obtain ⟨more, h₂, -⟩ := h₁.leaveFor o.alignment period hne₁
      (by rw [Course.stretches_notice]; exact hbefore) _ _ hrun₂
    have hsettled : s₂.pipeline.stateOf w₂.runningHash ≠ .pending := by
      refine h₂.settled hk ?_ fun _ => ?_ <;> rw [Course.origin_leaveFor]
      · exact hset
      · exact hres.origin
    refine (Writer.ends_enterWindow hsettled).bind fun w₃ s₃ _ => ?_
    exact (Writer.returns_take o).bind (fun _ => returns_pure _) s₃

lemma Account.ends_closeAndSign (h : Account G pubs c w s) (hk : G.known)
    (hres : c.Resolved G.pipeline) (hne : ∀ st, c.current = some st → st.objects ≠ []) :
    (w.closeAndSign : Act σ _).Ends s :=
  Writer.ends_closeAndSign fun _ => h.ends_finish hk hres hne

lemma Writer.returns_clear (w : Writer ω) : (w.clear : Act σ _).Returns := by
  rw [clear_eq]
  exact closed_returns.uncreating.sweep.bind fun _ => returns_pure _

/-- **Every operation comes back** over resolved links, whatever fails. -/
theorem Account.ends_apply {op : Operation} (h : Account G pubs c w s) (hk : G.known)
    (hres : c.Resolved G.pipeline) (hset : ∀ o, op = .add o → c.origin ≠ .unset)
    (hop : op.Admitted G c) (hne : ∀ st, c.current = some st → st.objects ≠ [])
    (hdistinct : G.orderly → ((c.step G.clock op).stretches.map Stretch.time).Nodup) :
    (w.apply op : Act σ _).Ends s := by
  cases op with
  | add o =>
    refine (h.ends_add hk hres (hset o rfl) hne hdistinct).bind fun r s₁ _ => ?_
    cases r with
    | ok w' => exact ends_pure _
    | error e => exact ends_pure _
  | closeAndSign => exact (h.ends_closeAndSign hk hres hne).bind fun _ _ _ => ends_pure _
  | clear => exact (Writer.returns_clear w).bind (fun _ => returns_pure _) s
  | close =>
    refine Ends.bind ?_ fun _ _ _ => ends_pure _
    exact (h.ends_closeAndSign hk hres hne).bind fun _ s₁ _ =>
      (returns_report _).bind (fun _ => returns_pure _) s₁
  | setRunningHash hash => exact ⟨_, _, rfl⟩
  | clearRunningHash => exact ⟨_, _, rfl⟩
  | setCompleteWindow on => exact ends_pure _
  | resetCancellation =>
    exact Ends.bind ⟨_, _, Writer.resetCancellation_eq w s⟩ fun _ _ _ => ends_pure _

/-- **Every run comes to its end** over resolved links, whatever fails. -/
theorem Account.run_exists (h : Account G pubs c t.writer t.world) (hk : G.known)
    (hc : c.Grounded) (hres : c.Resolved G.pipeline) (hsteps : Step.Admitted G c steps)
    (hresolved : ∀ o, .call (.add o) ∈ steps → ∃ h, G.pipeline.Holds o.link h)
    (hseeded : Step.Seeded G.clock c steps) : ∃ t', Stage.run steps t = some t' := by
  induction steps generalizing t pubs c with
  | nil => exact ⟨t, rfl⟩
  | cons x steps ih =>
    have hrest : ∀ o, .call (.add o) ∈ steps → ∃ h, G.pipeline.Holds o.link h :=
      fun o ho => hresolved o (List.mem_cons_of_mem _ ho)
    cases x with
    | outside i =>
      have hinside := hsteps.inside List.mem_cons_self
      obtain ⟨t', ht'⟩ := ih (t := { t with world := t.world.intervene i })
        (h.intervene i hinside) hc hres hsteps.skip hrest hseeded.skip
      exact ⟨t', ht'⟩
    | call op =>
      have hne : ∀ st, c.current = some st → st.objects ≠ [] := fun _ => hc.current_nonempty
      obtain ⟨⟨reply, w⟩, s, happly⟩ := h.ends_apply hk hres
        (by rintro o rfl; exact hseeded.head) hsteps.operation hne
        hsteps.distinct_step
      obtain ⟨⟨more, h₁, -⟩, -⟩ := h.apply hsteps.operation hne hsteps.distinct_step _ _ happly
      have hres₁ := hres.step G.clock op
        (by rintro o rfl; exact hresolved o List.mem_cons_self)
      obtain ⟨t', ht'⟩ := ih (t := ⟨w, s, t.accepted ++ op.taken reply⟩) h₁ (hc.step G.clock op)
        hres₁ hsteps.rest hrest hseeded.rest
      refine ⟨t', ?_⟩
      rw [Stage.run_cons, Stage.step_call happly]
      exact ht'

end SealedStream
