import SealedStream.Proofs.Stream.Unsealed
import SealedStream.Proofs.Writer.Beginning

/-!
A writer that waits for a complete window waits for the first boundary between periods after it was
told to, whatever state it was in then, and whatever has failed before.
-/

namespace SealedStream

variable {σ ω : Type}

def Phase.skipReason? : Phase ω → Option SkipReason
  | .idle => none
  | .writing _ => none
  | .skipping _ reason => some reason

lemma Phase.skipReason?_eq_some_iff {ph : Phase ω} {reason : SkipReason} :
    ph.skipReason? = some reason ↔ ∃ window, ph = .skipping window reason := by
  cases ph <;> simp [skipReason?]

/-- The policy has just been switched on: by the configuration, or by the last call. -/
def Step.SwitchesOn (config : Config) (steps : List Step) : Prop :=
  (steps = [] ∧ config.completeWindow = true) ∨
    ∃ earlier, steps = earlier ++ [.call (.setCompleteWindow true)]

namespace Stage

variable [Storage σ ω] {config : Config} {s₀ : Surroundings σ} {before after : List Step}
  {t₀ t : Stage σ ω} {x o : StreamObject} {path : Path} {start : Hash}

/-- Objects have been passed over because of the policy, `x` the last of them, and `o` is behind the
boundary. Nothing is in the way of the file that it is to begin: its name is there and free, and so
is the running hash of `x`, for which the writer need not wait. -/
structure Behind (config : Config) (steps : List Step) (x o : StreamObject) (path : Path)
    (start : Hash) (t : Stage σ ω) : Prop where
  policy : t.writer.completeWindow = true
  skips : ∃ window, t.writer.phase = .skipping window .completeWindow
  last : t.accepted.getLast? = some x
  boundary : x.timestamp.periodIn config.periodMillis ≠ o.timestamp.periodIn config.periodMillis
  running : t.writer.stopped = false
  /-- Since an object was added last, no running hash has been set or cleared. -/
  kept : ∃ earlier y later, steps = earlier ++ .call (.add y) :: later ∧
    ∀ op ∈ Step.calls later, op.keeps = true
  alive : t.world.overtaken.pipeline.isCancelled t.writer.token = false
  resolved : t.world.overtaken.pipeline.stateOf x.link = .resolved start
  name : Naming.recordPath config.exportDir o.timestamp config.kind = .ok path
  free : Storage.present (ω := ω) path t.world.storage = false

lemma policy_of_switchesOn (h : Step.SwitchesOn config before)
    (hbefore : (Stage.start config s₀).bind (run before) = some t₀) :
    t₀.writer.completeWindow = true := by
  obtain ⟨u, hu, hrun⟩ := Option.bind_eq_some_iff.mp hbefore
  rcases h with ⟨rfl, hon⟩ | ⟨earlier, rfl⟩
  · cases hrun
    exact (mindful_start hu).2.2.trans hon
  · rw [run_concat, Option.bind_eq_some_iff] at hrun
    obtain ⟨v, -, hstep⟩ := hrun
    cases hstep
    rfl

/-- **Behind the boundary** the call comes back, and a file that is open then begins with the first
object. Where nothing fails and the payload can be written, one is open. -/
lemma Behind.step {steps : List Step} (h : t.Behind config steps x o path start)
    (ht : (Stage.start config s₀).bind (run steps) = some t) :
    ∃ t₁, t.step (.call (.add o)) = some t₁ ∧ t₁.accepted = t.accepted ++ [o] ∧
      (∀ file, t₁.writer.phase = .writing file →
        file.Begins config.kind path start o.timestamp [o.item] t₁.world.storage) ∧
      ∀ V : FileView σ ω, V.NeverFails → V.Sound t.world.storage →
        V.Reach (Naming.partPath path) → o.item.Fits →
          ∃ file, t₁.writer.phase = .writing file := by
  have hmindful := mindful ht
  obtain ⟨window, hskips⟩ := h.skips
  obtain ⟨period, rfl, hlast⟩ := hmindful.attentive window hskips
  have hx : x.timestamp.periodIn config.periodMillis = period := by
    have hlast' := hmindful.last
    rw [h.last, hlast] at hlast'
    exact (Option.some_inj.mp hlast').symm
  have hperiod : period ≠ t.writer.clock.period o.timestamp := by
    show period ≠ Timestamp.periodIn _ t.writer.clock.millis
    rw [hmindful.clock, ← hx]
    exact h.boundary
  have hlink : t.writer.runningHash = x.link := by
    obtain ⟨earlier, y, later, rfl, hkeeps⟩ := h.kept
    obtain ⟨u, -, hrun⟩ := Option.bind_eq_some_iff.mp ht
    exact link_run hrun hkeeps h.running h.last
  have hread : t.world.overtaken.pipeline.read t.writer.runningHash t.writer.token =
      some (.ok start) := by
    rw [hlink]
    exact Pipeline.read_resolved h.resolved h.alive
  obtain ⟨_, s, hadd, w, rfl, hbegins, hopen⟩ := Writer.yields_add_behind h.running h.policy hskips
    hlast hperiod (hmindful.config ▸ h.name) h.free hread
  exact ⟨⟨w, s, t.accepted ++ [o]⟩, step_add hadd, rfl, hmindful.config ▸ hbegins, hopen⟩

/-- **Waiting for a complete window ends at the first boundary.** From wherever a run has come to
when the policy is switched on, as long as it is not set again: the policy holds until an object is
taken whose period is not that of the object taken just before it, and is off for good then. While
it holds, the writer does not set out to create a record file, and no file is open but the one that
was open already. If the writer has passed over objects because of the policy when the boundary
comes, and nothing is in the way, the first object behind it is the first item of a new file, which
starts from the running hash of the last one passed over. It takes a storage that does not fail, as
some view of it shows, and payloads that are not too long to be written. -/
theorem waits_until_boundary (hbefore : (Stage.start config s₀).bind (run before) = some t₀)
    (hon : Step.SwitchesOn config before) (hafter : run after t₀ = some t)
    (hleft : ∀ on, .call (.setCompleteWindow on) ∉ after) :
    ∃ new, t.accepted = t₀.accepted ++ new ∧
      (t.writer.completeWindow = true ↔ StreamObject.InOnePeriod config.periodMillis
        (t₀.accepted.getLast?.toList ++ new)) ∧
      (t.writer.completeWindow = true → t₀.world.CreatesNone t.world ∧
        ∀ p, t.writer.phase.part? = some p → t₀.writer.phase.part? = some p) ∧
      ∀ x o path start, t.Behind config (before ++ after) x o path start →
        ∃ t₁, t.step (.call (.add o)) = some t₁ ∧ t₁.accepted = t.accepted ++ [o] ∧
          ∀ V : FileView σ ω, V.NeverFails → V.Sound t.world.storage →
            V.Reach (Naming.partPath path) → o.item.Fits →
            ∃ file, t₁.writer.phase = .writing file ∧
              file.Begins config.kind path start o.timestamp [o.item] t₁.world.storage := by
  obtain ⟨new, hnew, hiff, hheeds⟩ :=
    policy_run (mindful hbefore) (policy_of_switchesOn hon hbefore) hleft hafter
  refine ⟨new, hnew, hiff, fun hpolicy => ⟨(hheeds hpolicy).creates, fun p hp =>
    (hheeds hpolicy).opened hp⟩, fun x o path start hbehind => ?_⟩
  have hall : (Stage.start config s₀).bind (run (before ++ after)) = some t := by
    obtain ⟨u, hu, hrun⟩ := Option.bind_eq_some_iff.mp hbefore
    rw [hu, Option.bind_some, run_append, hrun]
    exact hafter
  obtain ⟨t₁, hstep, haccepted, hbegins, hopen⟩ := hbehind.step hall
  refine ⟨t₁, hstep, haccepted, fun V hV hs hp hfits => ?_⟩
  obtain ⟨file, hw⟩ := hopen V hV hs hp hfits
  exact ⟨file, hw, hbegins file hw⟩

def expectant : List Step := [.call (.setCompleteWindow true), .call (.add Outset.few[0])]

/-- It is passed over, on a disk that does not fail. The second one is behind the boundary, whatever
it carries. -/
lemma behind_few (item : Item) : ∃ (t : Stage Disk DiskOutput) (path : Path),
    Outset.alike.reached .standard expectant = some t ∧
      t.Behind .standard expectant Outset.few[0] { Outset.few[1] with item := item } path .zero ∧
      Outset.alike.view.NeverFails ∧ Outset.alike.view.Sound t.world.storage ∧
      Outset.alike.view.Reach (Naming.partPath path) := by
  obtain ⟨text, htext⟩ := Outset.named_few (List.getElem_mem (show 1 < Outset.few.length by decide))
  obtain ⟨path, hname⟩ :=
    Naming.recordPath_of_toIso htext Config.standard.exportDir Config.standard.kind
  have hrun : (Outset.alike.reached .standard expectant).any (fun t =>
        t.accepted = [Outset.few[0]] && t.writer.completeWindow && !t.writer.stopped &&
        t.writer.phase.skipReason? = some .completeWindow &&
        !t.world.overtaken.pipeline.isCancelled t.writer.token &&
        t.world.overtaken.pipeline.stateOf Outset.few[0].link = .resolved .zero &&
        (Naming.recordPath Config.standard.exportDir Outset.few[1].timestamp
          Config.standard.kind).toOption.all
            (fun path => !Storage.present (ω := DiskOutput) path t.world.storage)) = true := by
    decide +kernel
  obtain ⟨t, ht, hfacts⟩ := (Option.any_eq_true _ _).mp hrun
  simp only [Bool.and_eq_true, Bool.not_eq_true', decide_eq_true_eq] at hfacts
  obtain ⟨⟨⟨⟨⟨⟨haccepted, hpolicy⟩, hrunning⟩, hskips⟩, halive⟩, hresolved⟩, hfree⟩ := hfacts
  rw [hname] at hfree
  obtain ⟨pubs, account, -⟩ := Outset.account_exposed Outset.serves_alike False False.elim ht
  exact ⟨t, path, ht,
    { policy := hpolicy
      skips := Phase.skipReason?_eq_some_iff.mp hskips
      last := by rw [haccepted]; rfl
      boundary := show Outset.few[0].timestamp.periodIn Config.standard.periodMillis ≠
        Outset.few[1].timestamp.periodIn Config.standard.periodMillis by decide
      running := hrunning
      kept := ⟨[.call (.setCompleteWindow true)], Outset.few[0], [], rfl, nofun⟩
      alive := halive
      resolved := hresolved
      name := hname
      free := by simpa [Except.toOption] using hfree },
    Outset.smooth_sample.storage, account.records.sound,
    (Outset.serves_alike.reaches ⟨_, hname⟩).part⟩

theorem waits_until_boundary_few :
    ∃ (t t₁ : Stage Disk DiskOutput) (path : Path) (file : OpenFile DiskOutput),
      Outset.alike.reached .standard expectant = some t ∧
      t.accepted.getLast? = some Outset.few[0] ∧ t.writer.completeWindow = true ∧
      t.step (.call (.add Outset.few[1])) = some t₁ ∧ t₁.writer.phase = .writing file ∧
      file.Begins Config.standard.kind path .zero Outset.few[1].timestamp [Outset.few[1].item]
        t₁.world.storage := by
  obtain ⟨t, path, ht, hbehind, hnever, hsound, hreach⟩ := behind_few Outset.few[1].item
  have hsteps : Outset.alike.reached .standard
      ([.call (.setCompleteWindow true)] ++ [.call (.add Outset.few[0])]) = some t := ht
  obtain ⟨t₀, hbefore, hafter⟩ := Outset.reached_append_iff.mp hsteps
  obtain ⟨-, -, -, -, hopens⟩ := waits_until_boundary hbefore (.inr ⟨[], rfl⟩) hafter (by simp)
  obtain ⟨t₁, hstep, -, hbegins⟩ := hopens _ _ path .zero hbehind
  obtain ⟨file, hw, hfile⟩ := hbegins _ hnever hsound hreach (by decide)
  exact ⟨t, t₁, path, file, ht, hbehind.last, hbehind.policy, hstep, hw, hfile⟩

/-- **A payload that is too long** is in no file, also behind a boundary: where nothing else is in
the way of the file, it is given up. -/
theorem waits_past_boundary_oversize :
    ∃ (t t₁ : Stage Disk DiskOutput) (path : Path),
      Outset.alike.reached .standard expectant = some t ∧
      t.Behind .standard expectant Outset.few[0] { Outset.few[1] with item := .oversize } path
        .zero ∧
      Outset.alike.view.NeverFails ∧ Outset.alike.view.Sound t.world.storage ∧
      Outset.alike.view.Reach (Naming.partPath path) ∧
      t.step (.call (.add { Outset.few[1] with item := .oversize })) = some t₁ ∧
      ∀ file, t₁.writer.phase ≠ .writing file := by
  obtain ⟨t, path, ht, hbehind, hnever, hsound, hreach⟩ := behind_few .oversize
  obtain ⟨t₁, hstep, -, hbegins, -⟩ := hbehind.step ht
  refine ⟨t, t₁, path, ht, hbehind, hnever, hsound, hreach, hstep, fun file hw => ?_⟩
  exact Item.not_fits_oversize ((hbegins file hw).fits _ (List.mem_singleton.mpr rfl))

end Stage

end SealedStream
