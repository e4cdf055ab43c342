import SealedStream.Proofs.Writer.Keeping

/-!
Runs of a writer: calls one after the other, and what others do to links and tokens in between.

A run keeps the account of its course from beginning to end.
-/

namespace SealedStream

open Act

variable {σ ω : Type}

/-- A call of the writer, or an act of someone else. -/
inductive Step where
  | call (op : Operation)
  | outside (i : Intervention)
  deriving DecidableEq

def Operation.objects (ops : List Operation) : List StreamObject :=
  ops.filterMap fun
    | .add o => some o
    | _ => none

def Step.calls (steps : List Step) : List Operation :=
  steps.filterMap fun
    | .call op => some op
    | .outside _ => none

lemma Step.calls_append (before after : List Step) :
    Step.calls (before ++ after) = Step.calls before ++ Step.calls after :=
  List.filterMap_append

lemma Step.calls_concat (steps : List Step) (op : Operation) :
    Step.calls (steps ++ [.call op]) = Step.calls steps ++ [op] :=
  Step.calls_append _ _

@[simp] lemma Step.calls_map (ops : List Operation) : Step.calls (ops.map .call) = ops := by
  induction ops with
  | nil => rfl
  | cons op ops ih => exact congrArg (op :: ·) ih

/-- **The clock of a configuration** goes by its period, which is not zero. -/
lemma Config.clock_eq_ok_iff {config : Config} {clock : PeriodClock} :
    config.clock = .ok clock ↔ clock.millis = config.periodMillis := by
  unfold Config.clock PeriodClock.ofMillis?
  constructor
  · intro h
    split at h
    · rename_i hsome
      cases h
      split at hsome <;> cases hsome
      rfl
    · cases h
  · intro h
    have hpositive : config.periodMillis ≠ 0 := h ▸ clock.positive
    obtain ⟨millis, _⟩ := clock
    obtain rfl : millis = config.periodMillis := h
    rw [dif_pos hpositive]

/-- A writer in its world, and the objects it has taken so far. -/
structure Stage (σ ω : Type) where
  writer : Writer ω
  world : Surroundings σ
  accepted : List StreamObject

namespace Stage

variable [Storage σ ω]

def start (config : Config) (s : Surroundings σ) : Option (Stage σ ω) :=
  match Writer.new config s with
  | some (.ok w, s) => some ⟨w, s, []⟩
  | _ => none

/-- A new writer has a token and a link of its own, and tells of itself. -/
def begun (config : Config) (clock : PeriodClock) (s : Surroundings σ) : Stage σ ω where
  writer :=
    { config := config
      clock := clock
      token := s.pipeline.newToken.1
      runningHash := (s.pipeline.newToken.2.newLink .pending).1
      phase := .idle
      completeWindow := config.completeWindow
      lastPeriod := none
      stopped := false
      lastWritten := none }
  world :=
    { s with
      pipeline := (s.pipeline.newToken.2.newLink .pending).2
      events := s.events ++
        [.created config.exportDir config.periodMillis config.kind.description] }
  accepted := []

omit [Storage σ ω] in
/-- **A writer begins** just if its configuration is in order. -/
lemma start_eq_some_iff {config : Config} {s : Surroundings σ} {t : Stage σ ω} :
    start config s = some t ↔
      config.validate = .ok () ∧ ∃ clock, config.clock = .ok clock ∧ t = begun config clock s := by
  unfold start Writer.new
  cases config.validate with
  | error e => exact ⟨nofun, nofun⟩
  | ok _ =>
    cases config.clock with
    | error e => exact ⟨nofun, nofun⟩
    | ok clock =>
      constructor
      · rintro ⟨⟩
        exact ⟨rfl, clock, rfl, rfl⟩
      · rintro ⟨-, _, ⟨⟩, rfl⟩
        rfl

/-- One step; there is no outcome of a call that waits for ever. -/
def step (t : Stage σ ω) : Step → Option (Stage σ ω)
  | .call op => (t.writer.apply op t.world).map fun ((reply, w), s) =>
      ⟨w, s, t.accepted ++ op.taken reply⟩
  | .outside i => some { t with world := t.world.intervene i }

def run (steps : List Step) (t : Stage σ ω) : Option (Stage σ ω) := steps.foldlM step t

lemma run_cons {t : Stage σ ω} {xs : List Step} {x : Step} :
    run (x :: xs) t = (step t x).bind (run xs) := rfl

lemma step_call {t : Stage σ ω} {op : Operation} {reply : Reply} {w : Writer ω}
    {s : Surroundings σ} (h : t.writer.apply op t.world = some ((reply, w), s)) :
    t.step (.call op) = some ⟨w, s, t.accepted ++ op.taken reply⟩ := by
  rw [step, h]
  rfl

lemma step_add {t : Stage σ ω} {o : StreamObject} {w : Writer ω} {s : Surroundings σ}
    (h : t.writer.add o t.world = some (.ok w, s)) :
    t.step (.call (.add o)) = some ⟨w, s, t.accepted ++ [o]⟩ := by
  have happly : t.writer.apply (.add o) t.world = some ((.done, w), s) :=
    bind_eq_some.mpr ⟨_, _, h, rfl⟩
  exact step_call happly

lemma step_done {m : Act σ (Writer ω)} {op : Operation} {t t₁ : Stage σ ω}
    (hop : t.writer.apply op = do return (.done, ← m)) (h : t.step (.call op) = some t₁) :
    m t.world = some (t₁.writer, t₁.world) := by
  obtain ⟨⟨⟨reply, w⟩, s⟩, happly, rfl⟩ := Option.map_eq_some_iff.mp h
  rw [hop] at happly
  obtain ⟨w', s', hm, hpure⟩ := bind_eq_some.mp happly
  cases hpure
  exact hm

end Stage

/-! ### Courses -/

namespace Course

variable {clock : PeriodClock} {c : Course} {op : Operation} {ops : List Operation}
  {o : StreamObject} {st : Stretch}

/-- The objects that open windows, and the times by which their files are called. -/
structure Grounded (c : Course) : Prop where
  head {st : Stretch} : st ∈ c.stretches → ∃ o, st.objects.head? = some o ∧ o.timestamp = st.time

lemma Grounded.nonempty (h : c.Grounded) (hst : st ∈ c.stretches) : st.objects ≠ [] := by
  obtain ⟨o, ho, -⟩ := h.head hst
  rintro he
  rw [he] at ho
  cases ho

lemma Grounded.current_nonempty (h : c.Grounded) (hst : c.current = some st) : st.objects ≠ [] :=
  h.nonempty (mem_stretches_of_current hst)

lemma grounded_start (completeWindow : Bool) : (start completeWindow).Grounded :=
  ⟨fun h => by cases h⟩

lemma Grounded.step (h : c.Grounded) (clock : PeriodClock) (op : Operation) :
    (c.step clock op).Grounded := by
  refine ⟨fun {st} => forall_step (fun _ => h.head) ?_ ?_ ?_ op st⟩
  · rintro st o ⟨first, hfirst, htime⟩ -
    exact ⟨first, by rw [List.head?_append, hfirst]; rfl, htime⟩
  · intro o
    refine ⟨o, rfl, ?_⟩
    unfold opened
    split <;> rfl
  · exact fun _ => id

lemma Grounded.run (h : c.Grounded) (clock : PeriodClock) (ops : List Operation) :
    (c.run clock ops).Grounded := by
  induction ops generalizing c with
  | nil => exact h
  | cons op ops ih => exact ih (h.step clock op)

lemma times_run (c : Course) (clock : PeriodClock) (ops : List Operation) :
    c.stretches.map Stretch.time <+: (c.run clock ops).stretches.map Stretch.time := by
  induction ops generalizing c with
  | nil => exact List.prefix_rfl
  | cons op ops ih => exact (times_step c clock op).trans (ih _)

lemma Grounded.times_sublist (h : c.Grounded) :
    (c.stretches.map Stretch.time).Sublist (c.objects.map StreamObject.timestamp) := by
  have hstretches : ∀ ss : List Stretch, (∀ st ∈ ss, st ∈ c.stretches) →
      (ss.map Stretch.time).Sublist
        ((ss.flatMap Stretch.objects).map StreamObject.timestamp) := by
    intro ss hss
    induction ss with
    | nil => exact List.Sublist.refl _
    | cons st ss ih =>
      obtain ⟨o, ho, htime⟩ := h.head (hss st List.mem_cons_self)
      obtain ⟨os, hos⟩ := List.head?_eq_some_iff.mp ho
      rw [List.map_cons, List.flatMap_cons, hos, List.cons_append, List.map_cons, htime]
      refine List.Sublist.cons_cons _ ?_
      rw [List.map_append]
      exact (ih fun st' hst' => hss st' (List.mem_cons_of_mem _ hst')).trans
        (List.sublist_append_right _ _)
  exact hstretches _ fun _ => id

lemma objects_run (c : Course) (clock : PeriodClock) (ops : List Operation) :
    ∃ xs, xs.Sublist (Operation.objects ops) ∧ (c.run clock ops).objects = c.objects ++ xs := by
  induction ops generalizing c with
  | nil => exact ⟨[], List.Sublist.refl _, (List.append_nil _).symm⟩
  | cons op ops ih =>
    obtain ⟨xs, hxs, hobjects⟩ := ih (c.step clock op)
    refine ⟨c.taken op ++ xs, ?_, ?_⟩
    · cases op with
      | add o =>
        rw [taken]
        split
        · exact hxs.cons _
        · exact hxs.cons_cons _
      | _ => exact hxs
    · show ((c.step clock op).run clock ops).objects = _
      rw [hobjects, objects_step, List.append_assoc]

lemma run_filter (c : Course) (clock : PeriodClock) (ops : List Operation) :
    c.run clock (ops.filter (· ≠ .resetCancellation)) = c.run clock ops := by
  induction ops generalizing c with
  | nil => rfl
  | cons op ops ih =>
    by_cases hop : op = .resetCancellation
    · subst hop
      exact ih c
    · rw [List.filter_cons_of_pos (by simpa using hop)]
      exact ih (c.step clock op)

end Course

/-! ### Accounts of runs -/

variable [Storage σ ω] {G : Setting σ ω} {pubs : List Publication} {c : Course}
  {t t' : Stage σ ω} {steps : List Step}

/-- The world is as the setting says, and at rest where all goes in order. -/
structure Setting.Begins (G : Setting σ ω) (s : Surroundings σ) : Prop where
  sound : G.view.Sound s.storage
  files : G.view.file s.storage = G.files
  pipeline : s.pipeline = G.pipeline
  signer : s.signer = G.signer
  asked : s.asked = []
  placed : s.placed = []
  unread : s.unread = []
  calm : G.orderly → s.meanwhile = []

lemma Setting.start_eq (G : Setting σ ω) (s : Surroundings σ) :
    Stage.start G.config s = some (Stage.begun (ω := ω) G.config G.clock s) :=
  Stage.start_eq_some_iff.mpr ⟨G.plain.valid, G.clock, G.clock_eq, rfl⟩

/-- **A new writer** has the account of a course that has not begun. -/
theorem Account.start {s : Surroundings σ} (hs : G.Begins s)
    (hstart : Stage.start G.config s = some t) :
    Account G [] (Course.start G.config.completeWindow) t.writer t.world ∧ t.accepted = [] := by
  rw [G.start_eq] at hstart
  cases hstart
  refine ⟨?_, rfl⟩
  refine
    { follows := ⟨rfl, rfl, rfl, rfl, rfl, rfl⟩
      records :=
        { sound := hs.sound
          grown := by
            rw [← hs.pipeline]
            exact (Pipeline.extends_newToken _).trans (Pipeline.extends_newLink _ _)
          signer := hs.signer
          asked := hs.asked
          published := .nil
          nodup := List.nodup_nil
          placed := by
            have := hs.placed
            simp only [Surroundings.placed] at this
            simp [Stage.begun, Surroundings.placed, this, Event.placed?]
          unread := by
            have := hs.unread
            simp only [Surroundings.unread] at this
            simp [Stage.begun, Surroundings.unread, this, Event.unread?]
          last := rfl
          sublist := List.nil_sublist _
          files := fun _ => congrFun hs.files _
          beside := fun _ _ => congrFun hs.files _ }
      leads := fun _ => trivial
      opened := by rintro _ ⟨⟩
      state := fun hO => .inl ?_ }
  exact
    { token := Pipeline.isCancelled_newToken s.pipeline
      calm := hs.calm hO
      ready := fun hset => (hset rfl).elim
      lastReady := by rintro _ ⟨⟩
      writing := by rintro _ ⟨⟩
      all := rfl
      signed := by rintro _ ⟨⟩
      tidy := fun _ _ _ => .inr (congrFun hs.files _) }

/-- There is a running hash to start from whenever an object is added. -/
def Step.Seeded (clock : PeriodClock) (c : Course) (steps : List Step) : Prop :=
  ∀ before o after, steps = before ++ .call (.add o) :: after →
    (c.run clock (Step.calls before)).origin ≠ .unset

namespace Step.Seeded

variable {clock : PeriodClock} {o : StreamObject}

lemma head (h : Step.Seeded clock c (.call (.add o) :: steps)) : c.origin ≠ .unset :=
  h [] o steps rfl

lemma rest {op : Operation} (h : Step.Seeded clock c (.call op :: steps)) :
    Step.Seeded clock (c.step clock op) steps :=
  fun before o after heq => h (.call op :: before) o after (by rw [heq]; rfl)

lemma skip {i : Intervention} (h : Step.Seeded clock c (.outside i :: steps)) :
    Step.Seeded clock c steps :=
  fun before o after heq => h (.outside i :: before) o after (by rw [heq]; rfl)

end Step.Seeded

/-- What the steps of a run may be: objects fit for the setting, and where all goes in order no
interference, and a running hash to start from. -/
structure Step.Admitted (G : Setting σ ω) (c : Course) (steps : List Step) : Prop where
  object {o : StreamObject} : .call (.add o) ∈ steps → G.Admits o
  inside {i : Intervention} : .outside i ∈ steps → ¬G.orderly
  reset : .call .resetCancellation ∈ steps → ¬G.orderly
  clear : .call .clear ∈ steps → ¬G.lasting
  seeded : G.orderly → Step.Seeded G.clock c steps
  distinct : G.orderly → ((c.run G.clock (Step.calls steps)).stretches.map Stretch.time).Nodup

namespace Step.Admitted

variable {op : Operation}

lemma operation (h : Step.Admitted G c (.call op :: steps)) : op.Admitted G c := by
  cases op with
  | add o => exact ⟨h.object List.mem_cons_self, fun hO => (h.seeded hO).head⟩
  | clear => exact h.clear List.mem_cons_self
  | resetCancellation => exact h.reset List.mem_cons_self
  | _ => trivial

lemma distinct_step (h : Step.Admitted G c (.call op :: steps)) (hO : G.orderly) :
    ((c.step G.clock op).stretches.map Stretch.time).Nodup :=
  (h.distinct hO).sublist (Course.times_run _ G.clock (Step.calls steps)).sublist

lemma rest (h : Step.Admitted G c (.call op :: steps)) :
    Step.Admitted G (c.step G.clock op) steps where
  object ho := h.object (List.mem_cons_of_mem _ ho)
  inside hi := h.inside (List.mem_cons_of_mem _ hi)
  reset hmem := h.reset (List.mem_cons_of_mem _ hmem)
  clear hmem := h.clear (List.mem_cons_of_mem _ hmem)
  seeded hO := (h.seeded hO).rest
  distinct := h.distinct

lemma skip {i : Intervention} (h : Step.Admitted G c (.outside i :: steps)) :
    Step.Admitted G c steps where
  object ho := h.object (List.mem_cons_of_mem _ ho)
  inside hi := h.inside (List.mem_cons_of_mem _ hi)
  reset hmem := h.reset (List.mem_cons_of_mem _ hmem)
  clear hmem := h.clear (List.mem_cons_of_mem _ hmem)
  seeded hO := (h.seeded hO).skip
  distinct := h.distinct

end Step.Admitted

lemma Account.intervene {w : Writer ω} {s : Surroundings σ} (h : Account G pubs c w s)
    (i : Intervention) (hO : ¬G.orderly) : Account G pubs c w (s.intervene i) :=
  h.withPipeline (t := w.token) (Pipeline.grows_perform _ i).extends fun hO' => (hO hO').elim

/-- **A run keeps the account**, and takes the objects of its course. -/
theorem Account.run (h : Account G pubs c t.writer t.world) (hc : c.Grounded)
    (hacc : t.accepted = c.objects) (hsteps : Step.Admitted G c steps)
    (hrun : Stage.run steps t = some t') :
    ∃ more, Account G (pubs ++ more) (c.run G.clock (Step.calls steps)) t'.writer t'.world ∧
      t'.accepted = (c.run G.clock (Step.calls steps)).objects := by
  induction steps generalizing t pubs c with
  | nil =>
    cases hrun
    exact ⟨[], by rwa [List.append_nil], hacc⟩
  | cons x steps ih =>
    rw [Stage.run_cons, Option.bind_eq_some_iff] at hrun
    obtain ⟨t₁, hstep, hrun⟩ := hrun
    cases x with
    | outside i =>
      cases hstep
      exact ih (t := { t with world := t.world.intervene i })
        (h.intervene i (hsteps.inside List.mem_cons_self)) hc hacc hsteps.skip hrun
    | call op =>
      obtain ⟨⟨⟨reply, w⟩, s⟩, happly, rfl⟩ := Option.map_eq_some_iff.mp hstep
      obtain ⟨⟨more, h₁, -⟩, htaken⟩ := h.apply hsteps.operation
        (fun _ => hc.current_nonempty) hsteps.distinct_step _ _ happly
      obtain ⟨more', h', hacc'⟩ := ih (t := ⟨w, s, t.accepted ++ op.taken reply⟩) h₁
        (hc.step G.clock op) (by rw [Course.objects_step, htaken, hacc]) hsteps.rest hrun
      exact ⟨more ++ more', by rw [← List.append_assoc]; exact h', hacc'⟩

end SealedStream
