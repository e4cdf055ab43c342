import SealedStream.Proofs.Writer.Ending
import SealedStream.Proofs.Writer.Succession
import SealedStream.Proofs.Writer.Tokens

/-!
How runs of a writer begin, and the accounts that they come to.

A run begins over a storage in which anything may fail, or over one in which nothing does. From
either the writer goes through one and the same course.
-/

namespace SealedStream

variable {σ ω : Type} [Storage σ ω] {config : Config} {steps : List Step} {ops : List Operation}
  {t : Stage σ ω}

/-! ### Clocks -/

namespace Config.Plain

lemma positive (h : config.Plain) : config.periodMillis ≠ 0 := by
  have hv := h.valid
  unfold Config.validate at hv
  cases hclock : config.clock with
  | error e =>
    rw [hclock] at hv
    cases hv
  | ok clock => exact Config.clock_eq_ok_iff.mp hclock ▸ clock.positive

def clock (h : config.Plain) : PeriodClock := ⟨config.periodMillis, h.positive⟩

lemma clock_eq (h : config.Plain) : config.clock = .ok h.clock :=
  Config.clock_eq_ok_iff.mpr rfl

end Config.Plain

lemma Naming.recordPath_of_toIso {time : Timestamp} {text : String} (h : time.toIso = .ok text)
    (dir : Path) (kind : StreamKind) : ∃ path, recordPath dir time kind = .ok path := by
  unfold recordPath fileName
  unfold Timestamp.toIso at h
  cases hm : time.toMoment with
  | error e =>
    rw [hm] at h
    cases h
  | ok m => exact ⟨_, rfl⟩

/-! ### Beginnings -/

/-- How a run begins: a storage with a view of it, links and tokens, a signer, and what others will
do to links and tokens while the writer is at work. -/
structure Outset (σ ω : Type) [Storage σ ω] where
  view : FileView σ ω
  storage : σ
  pipeline : Pipeline
  signer : Signer
  meanwhile : List (List Intervention)
  coming : List Intervention

namespace Outset

variable (b : Outset σ ω)

def world : Surroundings σ where
  storage := b.storage
  pipeline := b.pipeline
  signer := b.signer
  asked := []
  meanwhile := b.meanwhile
  coming := b.coming
  events := []

/-- The stage to which steps bring a new writer, if all of its calls come back. -/
def reached (config : Config) (steps : List Step) : Option (Stage σ ω) :=
  (Stage.start config b.world).bind (Stage.run steps)

/-- The storage can hold the files of a valid configuration with plain extensions. -/
structure Serves (config : Config) : Prop where
  plain : config.Plain
  sound : b.view.Sound b.storage
  reaches {path : Path} : config.Names path → b.view.Reaches config.kind path

/-- Neither storage nor signer fails. -/
structure Sure : Prop where
  storage : b.view.NeverFails
  signs (call : ℕ) (message : Bytes) :
    ∃ a, b.signer.sign call message = .ok a ∧ a.length ≤ Field.maxPayload

/-- Neither storage nor signer fails, nobody interferes, and no unfinished file is left over. -/
structure Smooth (config : Config) : Prop where
  storage : b.view.NeverFails
  signs (call : ℕ) (message : Bytes) :
    ∃ a, b.signer.sign call message = .ok a ∧ a.length ≤ Field.maxPayload
  calm : b.meanwhile = []
  tidy {path : Path} : config.Names path →
    b.view.file b.storage (Naming.Role.part.path config.kind path) = none ∧
      b.view.file b.storage (Naming.Role.signaturePart.path config.kind path) = none

/-- Neither storage nor signer fails, and unfinished signature files are left over at most where the
record file stands. -/
structure Dependable (config : Config) : Prop where
  storage : b.view.NeverFails
  signs (call : ℕ) (message : Bytes) :
    ∃ a, b.signer.sign call message = .ok a ∧ a.length ≤ Field.maxPayload
  clear {path : Path} : config.Names path → b.view.file b.storage path = none →
    b.view.file b.storage (Naming.Role.signaturePart.path config.kind path) = none

/-- Every object comes with a resolved link, and with a time that can be written. -/
structure Provides (ops : List Operation) : Prop where
  resolved {o : StreamObject} : .add o ∈ ops → ∃ h, b.pipeline.Holds o.link h
  named {o : StreamObject} : .add o ∈ ops → ∃ text, o.timestamp.toIso = .ok text

variable {b}

lemma Smooth.dependable (h : b.Smooth config) : b.Dependable config :=
  ⟨h.storage, h.signs, fun hn _ => (h.tidy hn).2⟩

lemma Dependable.sure (h : b.Dependable config) : b.Sure := ⟨h.storage, h.signs⟩

namespace Serves

def setting (h : b.Serves config) (known orderly sure reliable fitting lasting : Prop)
    (ordered : sure → orderly) (assured : reliable → sure) (hs : sure → b.Sure)
    (hd : reliable → b.Dependable config) : Setting σ ω where
  view := b.view
  config := config
  files := b.view.file b.storage
  pipeline := b.pipeline
  signer := b.signer
  known := known
  orderly := orderly
  sure := sure
  reliable := reliable
  fitting := fitting
  lasting := lasting
  clock := h.plain.clock
  clock_eq := h.plain.clock_eq
  plain := h.plain
  reaches := h.reaches
  ordered := ordered
  assured := assured
  storage hS := (hs hS).storage
  signs call message hS := (hs hS).signs call message
  clear hR := (hd hR).clear

/-- Anything may fail. -/
def exposed (h : b.Serves config) (known : Prop) : Setting σ ω :=
  h.setting known False False False False False id id False.elim False.elim

/-- Nothing fails, unless a payload is too long. -/
def sheltered (h : b.Serves config) (hs : b.Smooth config) (fitting : Prop) : Setting σ ω :=
  h.setting True True True True fitting False id id (fun _ => hs.dependable.sure)
    fun _ => hs.dependable

/-- Nobody interferes, and no file is thrown away on request. -/
def straight (h : b.Serves config) (reliable : Prop) (hd : reliable → b.Dependable config) :
    Setting σ ω :=
  h.setting True True reliable reliable False True (fun _ => trivial) id (fun hR => (hd hR).sure) hd

/-- Nothing fails and nobody interferes, but unfinished files may have been left over. -/
def littered (h : b.Serves config) (hs : b.Sure) : Setting σ ω :=
  h.setting True True True False False True id False.elim (fun _ => hs) False.elim

lemma tidied (h : b.Serves config) (hs : b.Smooth config) {fitting : Prop} {path : Path}
    (hp : (h.sheltered hs fitting).InProgress path) : b.view.file b.storage path = none := by
  obtain ⟨q, hq, rfl | rfl⟩ := hp
  · exact (hs.tidy hq).1
  · exact (hs.tidy hq).2

lemma begins_exposed (h : b.Serves config) (known : Prop) : (h.exposed known).Begins b.world :=
  ⟨h.sound, rfl, rfl, rfl, rfl, rfl, rfl, False.elim⟩

lemma begins_sheltered (h : b.Serves config) (hs : b.Smooth config) (fitting : Prop) :
    (h.sheltered hs fitting).Begins b.world :=
  ⟨h.sound, rfl, rfl, rfl, rfl, rfl, rfl, fun _ => hs.calm⟩

lemma begins_straight (h : b.Serves config) {reliable : Prop}
    (hd : reliable → b.Dependable config) (hcalm : b.meanwhile = []) :
    (h.straight reliable hd).Begins b.world :=
  ⟨h.sound, rfl, rfl, rfl, rfl, rfl, rfl, fun _ => hcalm⟩

lemma begins_littered (h : b.Serves config) (hs : b.Sure) (hcalm : b.meanwhile = []) :
    (h.littered hs).Begins b.world :=
  ⟨h.sound, rfl, rfl, rfl, rfl, rfl, rfl, fun _ => hcalm⟩

def course (h : b.Serves config) (ops : List Operation) : Course :=
  (Course.start config.completeWindow).run h.plain.clock ops

lemma grounded (h : b.Serves config) (ops : List Operation) : (h.course ops).Grounded :=
  (Course.grounded_start _).run h.plain.clock ops

lemma course_concat (h : b.Serves config) (ops : List Operation) (op : Operation) :
    h.course (ops ++ [op]) = (h.course ops).step h.plain.clock op := by
  simp [course, Course.run]

end Serves

/-! ### Runs -/

lemma account_of_reached {G : Setting σ ω} (hG : G.Begins b.world)
    (hsteps : Step.Admitted G (Course.start G.config.completeWindow) steps)
    (ht : b.reached G.config steps = some t) :
    ∃ pubs, Account G pubs ((Course.start G.config.completeWindow).run G.clock (Step.calls steps))
        t.writer t.world ∧
      t.accepted =
        ((Course.start G.config.completeWindow).run G.clock (Step.calls steps)).objects := by
  obtain ⟨t₀, hstart, hrun⟩ := Option.bind_eq_some_iff.mp ht
  obtain ⟨h₀, hacc⟩ := Account.start hG hstart
  exact h₀.run (Course.grounded_start _) hacc hsteps hrun

lemma reached_append_iff {before after : List Step} :
    b.reached config (before ++ after) = some t ↔
      ∃ t₀, b.reached config before = some t₀ ∧ Stage.run after t₀ = some t := by
  rw [reached, reached, ← Option.bind_eq_some_iff, Option.bind_assoc]
  unfold Stage.run
  simp [List.foldlM_append]

lemma reached_concat_iff {x : Step} : b.reached config (steps ++ [x]) = some t ↔
    ∃ t₁, b.reached config steps = some t₁ ∧ t₁.step x = some t := by
  rw [reached_append_iff]
  simp [Stage.run]

lemma reached_concat {x : Step} {t₁ : Stage σ ω} (h : b.reached config steps = some t)
    (hstep : t.step x = some t₁) : b.reached config (steps ++ [x]) = some t₁ :=
  reached_concat_iff.mpr ⟨t, h, hstep⟩

lemma Serves.begins (h : b.Serves config) :
    ∃ t₀, b.reached config [] = some t₀ ∧ t₀.writer.phase = .idle ∧
      t₀.world.storage = b.storage ∧ t₀.world.asked = [] := by
  have hstart := (h.exposed False).start_eq b.world
  rw [reached, show Stage.start config b.world = _ from hstart]
  exact ⟨_, rfl, rfl, rfl, rfl⟩

lemma start_isSome (h : b.Serves config) :
    ∃ t, Stage.start (σ := σ) (ω := ω) config b.world = some t :=
  ⟨_, Stage.start_eq_some_iff.mpr ⟨h.plain.valid, _, h.plain.clock_eq, rfl⟩⟩

lemma exists_reached {G : Setting σ ω} (h : b.Serves G.config) (hG : G.Begins b.world)
    (hk : G.known) (hsteps : Step.Admitted G (Course.start G.config.completeWindow) steps)
    (hresolved : ∀ o, .call (.add o) ∈ steps → ∃ k, G.pipeline.Holds o.link k)
    (hseeded : Step.Seeded G.clock (Course.start G.config.completeWindow) steps) :
    ∃ t, b.reached G.config steps = some t := by
  obtain ⟨t₀, hstart⟩ := start_isSome h
  obtain ⟨h₀, -⟩ := Account.start hG hstart
  obtain ⟨t, ht⟩ :=
    h₀.run_exists hk (Course.grounded_start _) ⟨nofun, nofun⟩ hsteps hresolved hseeded
  refine ⟨t, ?_⟩
  rw [reached, hstart]
  exact ht

lemma admitted_exposed (h : b.Serves config) {known : Prop}
    (hlinks : known → ∀ o, .call (.add o) ∈ steps → o.link.slot < b.pipeline.links) :
    Step.Admitted (h.exposed known) (Course.start config.completeWindow) steps where
  object ho :=
    { link := fun hk => hlinks hk _ ho
      fits := False.elim
      resolved := False.elim
      named := False.elim }
  inside _ := id
  reset _ := id
  clear _ := id
  seeded := False.elim
  distinct := False.elim

/-- **Whatever fails**, a run has an account. -/
theorem account_exposed (h : b.Serves config) (known : Prop)
    (hlinks : known → ∀ o, .call (.add o) ∈ steps → o.link.slot < b.pipeline.links)
    (ht : b.reached config steps = some t) :
    ∃ pubs, Account (h.exposed known) pubs (h.course (Step.calls steps)) t.writer t.world ∧
      t.accepted = (h.course (Step.calls steps)).objects :=
  account_of_reached (h.begins_exposed known) (admitted_exposed h hlinks) ht

/-- **Whatever fails**, a run over resolved links comes to its end. -/
theorem exists_exposed {initial : Hash} (h : b.Serves config)
    (hresolved : ∀ o, .call (.add o) ∈ steps → ∃ k, b.pipeline.Holds o.link k)
    (hstarts : Operation.startsFrom initial (Step.calls steps) = true) :
    ∃ t, b.reached config steps = some t :=
  exists_reached h (h.begins_exposed True) trivial
    (admitted_exposed h fun _ o ho => (hresolved o ho).choose_spec.1) hresolved
    (Step.seeded_of_startsFrom hstarts)

/-! ### Runs in good order -/

lemma admitted_ordered {initial : Hash} {orderly sure reliable fitting lasting : Prop}
    (h : b.Serves config) {ordered : sure → orderly} {assured : reliable → sure}
    {hs : sure → b.Sure} {hd : reliable → b.Dependable config}
    (hops : b.Provides ops) (hstarts : Operation.startsFrom initial ops = true)
    (hreset : .resetCancellation ∉ ops) (hclear : .clear ∈ ops → ¬lasting)
    (hdistinct : ((h.course ops).stretches.map Stretch.time).Nodup)
    (hfits : fitting → ∀ o, .add o ∈ ops → o.item.Fits) :
    Step.Admitted (h.setting True orderly sure reliable fitting lasting ordered assured hs hd)
      (Course.start config.completeWindow) (ops.map .call) where
  object {o} ho := by
    have ho : Operation.add o ∈ ops := by simpa using ho
    obtain ⟨k, hk⟩ := hops.resolved ho
    obtain ⟨text, htext⟩ := hops.named ho
    exact
      { link := fun _ => hk.1
        fits := fun hf => hfits hf o ho
        resolved := fun _ => ⟨k, hk⟩
        named := fun _ => Naming.recordPath_of_toIso htext _ _ }
  inside hi := by simp at hi
  reset hr := (hreset (by simpa using hr)).elim
  clear hc := hclear (by simpa using hc)
  seeded _ := Step.seeded_of_startsFrom (by rwa [Step.calls_map])
  distinct _ := by rwa [Step.calls_map]

lemma account_ordered {initial : Hash} {orderly sure reliable fitting lasting : Prop}
    (h : b.Serves config) {ordered : sure → orderly} {assured : reliable → sure}
    {hs : sure → b.Sure} {hd : reliable → b.Dependable config}
    (hG : (h.setting True orderly sure reliable fitting lasting ordered assured hs hd).Begins
      b.world)
    (hops : b.Provides ops) (hstarts : Operation.startsFrom initial ops = true)
    (hreset : .resetCancellation ∉ ops) (hclear : .clear ∈ ops → ¬lasting)
    (hdistinct : ((h.course ops).stretches.map Stretch.time).Nodup)
    (hfits : fitting → ∀ o, .add o ∈ ops → o.item.Fits) :
    ∃ t pubs, b.reached config (ops.map .call) = some t ∧
      Account (h.setting True orderly sure reliable fitting lasting ordered assured hs hd) pubs
        (h.course ops) t.writer t.world := by
  have hsteps : Step.Admitted
      (h.setting True orderly sure reliable fitting lasting ordered assured hs hd)
      (Course.start config.completeWindow) (ops.map .call) :=
    admitted_ordered h hops hstarts hreset hclear hdistinct hfits
  obtain ⟨t, ht⟩ := exists_reached h hG trivial hsteps
    (fun o ho => hops.resolved (by simpa using ho))
    (Step.seeded_of_startsFrom (by rwa [Step.calls_map]))
  obtain ⟨pubs, account, -⟩ := account_of_reached hG hsteps ht
  rw [Step.calls_map] at account
  exact ⟨t, pubs, ht, account⟩

/-- **Where nothing fails** there is a run, and it has an account. -/
theorem account_sheltered {initial : Hash} {fitting : Prop} (h : b.Serves config)
    (hs : b.Smooth config) (hops : b.Provides ops)
    (hstarts : Operation.startsFrom initial ops = true) (hreset : .resetCancellation ∉ ops)
    (hdistinct : ((h.course ops).stretches.map Stretch.time).Nodup)
    (hfits : fitting → ∀ o, .add o ∈ ops → o.item.Fits) :
    ∃ t pubs, b.reached config (ops.map .call) = some t ∧
      Account (h.sheltered hs fitting) pubs (h.course ops) t.writer t.world :=
  account_ordered h (h.begins_sheltered hs fitting) hops hstarts hreset (fun _ => id) hdistinct
    hfits

/-- **Where nobody interferes** there is a run, and it has an account, even if storage or signer
fail at some time. -/
theorem account_straight {initial : Hash} {reliable : Prop} (h : b.Serves config)
    (hd : reliable → b.Dependable config) (hcalm : b.meanwhile = []) (hops : b.Provides ops)
    (hstarts : Operation.startsFrom initial ops = true) (hreset : .resetCancellation ∉ ops)
    (hclear : .clear ∉ ops) (hdistinct : ((h.course ops).stretches.map Stretch.time).Nodup) :
    ∃ t pubs, b.reached config (ops.map .call) = some t ∧
      Account (h.straight reliable hd) pubs (h.course ops) t.writer t.world :=
  account_ordered h (h.begins_straight hd hcalm) hops hstarts hreset (fun hc => (hclear hc).elim)
    hdistinct False.elim

end Outset

end SealedStream
