import SealedStream.Proofs.Stream.Integrity
import SealedStream.Proofs.Writer.Tokens

/-!
What becomes of the objects that a writer takes: none is lost in silence.

An object is in a file that has been put in place, or in the one that is being written. Where it is
in neither, its window is skipped on request, something stood in the place of its file, or the token
has been cancelled for it.
-/

namespace SealedStream

variable {σ ω : Type} [Storage σ ω]

/-- The open file begins with the object that was taken after `n` others. -/
def Stage.WritesFrom (t : Stage σ ω) (n : ℕ) : Prop :=
  ∃ file, t.writer.phase = .writing file ∧ t.accepted.length = n + file.items

lemma Account.number_iff {G : Setting σ ω} {pubs : List Publication} {c : Course} {t : Stage σ ω}
    {file : OpenFile ω} {n : ℕ} (h : Account G pubs c t.writer t.world)
    (hacc : t.accepted = c.objects) (hw : t.writer.phase = .writing file) :
    t.accepted.length = n + file.items ↔ n = (c.past.flatMap Stretch.objects).length := by
  obtain ⟨st, hst, hwr⟩ := h.opened hw
  have hlen := Course.length_objects hst
  have hitems : file.items = st.objects.length := by
    rw [hwr.holds.count, Stretch.items, List.length_map]
  rw [hacc]
  omega

lemma Account.not_writesFrom {G : Setting σ ω} {pubs : List Publication} {c : Course}
    {t : Stage σ ω} {left : List Stretch} {st : Stretch}
    (h : Account G pubs c t.writer t.world) (hacc : t.accepted = c.objects)
    (hpast : c.past = left ++ [st]) (hne : st.objects ≠ []) :
    ¬t.WritesFrom (left.flatMap Stretch.objects).length := by
  rintro ⟨file, hw, hnumber⟩
  have hlast := (h.number_iff hacc hw).mp hnumber
  rw [hpast] at hlast
  exact hne (by simpa using hlast)

/-- **Receiving an object**, wherever the writer stands. -/
lemma Account.gives_receiving {G : Setting σ ω} {pubs : List Publication} {c : Course}
    {w : Writer ω} {s : Surroundings σ} {o : StreamObject} {period : Int64}
    (h : Account G pubs c w s) :
    (w.receive o period : Act σ _).Gives s fun w' s' => Receiving G.view w o s s' w' := by
  refine Writer.gives_receive h.records.sound (fun _ => h.reach_named) fun file hw => ?_
  obtain ⟨st, -, hwr⟩ := h.opened hw
  exact ⟨hwr.reach, st.items, h.holds hwr⟩

namespace Outset

/-! ### Fates -/

/-- A call of a run brought the writer from one stage to the next. -/
def Calls (b : Outset σ ω) (config : Config) (steps : List Step) (op : Operation)
    (t₀ t₁ : Stage σ ω) : Prop :=
  ∃ before after, steps = before ++ .call op :: after ∧ b.reached config before = some t₀ ∧
    t₀.step (.call op) = some t₁

/-- A call has taken an object after `n` others, and no window was open when the writer had turned
to it: with that writer and in that world the window of the object was to be opened. -/
structure Opens (b : Outset σ ω) (config : Config) (steps : List Step) (n : ℕ) (o : StreamObject)
    (t₀ : Stage σ ω) (w : Writer ω) (s : Surroundings σ) (t₁ : Stage σ ω) : Prop where
  call : b.Calls config steps (.add o) t₀ t₁
  number : t₀.accepted.length = n
  taken : t₁.accepted = t₀.accepted ++ [o]
  turned : t₀.writer.turnTo o t₀.world = some (w, s)
  idle : w.phase = .idle

/-- Why the window that begins after `n` objects has no file. -/
inductive Excuse (b : Outset σ ω) (config : Config) (steps : List Step) (p : Pipeline) (n : ℕ) :
    Prop where
  /-- The writer was to wait for a complete window. -/
  | waiting {o : StreamObject} {w : Writer ω} {s : Surroundings σ} {t₀ t₁ : Stage σ ω}
    (opens : b.Opens config steps n o t₀ w s t₁) (pending : w.completeWindow = true)
  /-- Something stood at the path of its record file when the window was to be opened. -/
  | standing {o : StreamObject} {w : Writer ω} {s : Surroundings σ} {t₀ t₁ : Stage σ ω}
    {path : Path} (opens : b.Opens config steps n o t₀ w s t₁)
    (name : Naming.recordPath config.exportDir o.timestamp config.kind = .ok path)
    (there : Storage.present (ω := ω) path s.storage = true)
  /-- Something stood there when the file was to be put in place. -/
  | inTheWay {op : Operation} {t₀ t₁ : Stage σ ω} {file : OpenFile ω}
    (call : b.Calls config steps op t₀ t₁) (writing : t₀.writer.phase = .writing file)
    (first : t₀.accepted.length = n + file.items) (ended : ¬t₁.WritesFrom n)
    (there : Storage.present (ω := ω) file.path t₀.world.storage = true)
  /-- It was given up when it was to be opened, and the token of then is cancelled. -/
  | unopened {o : StreamObject} {w : Writer ω} {s : Surroundings σ} {t₀ t₁ : Stage σ ω}
    (opens : b.Opens config steps n o t₀ w s t₁) (ended : ¬t₁.WritesFrom n)
    (cancelled : p.Cancelled t₀.writer.token)
  /-- Its file was given up, and the token of then is cancelled. -/
  | unfinished {op : Operation} {t₀ t₁ : Stage σ ω} (call : b.Calls config steps op t₀ t₁)
    (writing : t₀.WritesFrom n) (ended : ¬t₁.WritesFrom n)
    (unplaced : t₁.world.placed = t₀.world.placed) (cancelled : p.Cancelled t₀.writer.token)

/-- What has become of the objects of a window that begins after `n` objects. -/
inductive Fate (b : Outset σ ω) (config : Config) (steps : List Step) (t : Stage σ ω) (n : ℕ)
    (st : Stretch) : Prop where
  /-- They are the items of the file of their window, which the writer has put in place. -/
  | placed {path : Path} {file : RecordFile} (put : path ∈ t.world.placed)
    (name : Naming.recordPath config.exportDir st.time config.kind = .ok path)
    (stores : b.view.Stores t.world.storage path file) (items : file.items = st.items)
  /-- They are the items of the open file. -/
  | held {file : OpenFile ω} (writing : t.writer.phase = .writing file)
    (last : t.accepted.length = n + st.objects.length)
    (holds : file.Holds b.view config.kind st.items t.world.storage)
  | excused (excuse : b.Excuse config steps t.world.pipeline n)

/-! ### Excuses last -/

variable {b : Outset σ ω} {config : Config} {steps : List Step} {t t₁ : Stage σ ω}
  {p q : Pipeline} {n : ℕ} {op : Operation}

lemma Calls.append {t₀ : Stage σ ω} (h : b.Calls config steps op t₀ t₁) (more : List Step) :
    b.Calls config (steps ++ more) op t₀ t₁ := by
  obtain ⟨before, after, rfl, hcall⟩ := h
  exact ⟨before, after ++ more, by simp, hcall⟩

lemma Opens.append {t₀ : Stage σ ω} {o : StreamObject} {w : Writer ω} {s : Surroundings σ}
    (h : b.Opens config steps n o t₀ w s t₁) (more : List Step) :
    b.Opens config (steps ++ more) n o t₀ w s t₁ :=
  { h with call := h.call.append more }

lemma Excuse.mono (h : b.Excuse config steps p n) (more : List Step) (hpq : p.Extends q) :
    b.Excuse config (steps ++ more) q n := by
  cases h with
  | waiting opens pending => exact .waiting (opens.append more) pending
  | standing opens name there => exact .standing (opens.append more) name there
  | inTheWay call writing first ended there =>
    exact .inTheWay (call.append more) writing first ended there
  | unopened opens ended cancelled => exact .unopened (opens.append more) ended (cancelled.mono hpq)
  | unfinished call writing ended unplaced cancelled =>
    exact .unfinished (call.append more) writing ended unplaced (cancelled.mono hpq)

/-! ### Every window has a file or an excuse -/

variable {h : b.Serves config} {pubs : List Publication} {c : Course} {x : Step}

/-- So far every window that has been left has a file or an excuse, and so has the current one,
unless it is being written. -/
structure Tended (h : b.Serves config) (steps : List Step) (t : Stage σ ω)
    (pubs : List Publication) (c : Course) : Prop where
  account : Account (h.exposed False) pubs c t.writer t.world
  grounded : c.Grounded
  accepted : t.accepted = c.objects
  token : t.writer.token.flag < t.world.pipeline.tokens
  past {earlier : List Stretch} {st : Stretch} {later : List Stretch} :
    c.past = earlier ++ st :: later → (∃ x ∈ pubs, x.stretch = st) ∨
      b.Excuse config steps t.world.pipeline (earlier.flatMap Stretch.objects).length
  current : c.current ≠ none → (∀ file, t.writer.phase ≠ .writing file) →
    b.Excuse config steps t.world.pipeline (c.past.flatMap Stretch.objects).length

namespace Tended

lemma admitted_operation (h : b.Serves config) (c : Course) (op : Operation) :
    op.Admitted (h.exposed False) c := by
  cases op with
  | add o => exact ⟨⟨False.elim, False.elim, False.elim, False.elim⟩, False.elim⟩
  | clear => exact id
  | resetCancellation => exact id
  | _ => trivial

variable {more : List Publication}

lemma current_nonempty (ht : Tended h steps t pubs c) {st : Stretch} (hst : c.current = some st) :
    st.objects ≠ [] :=
  ht.grounded.current_nonempty hst

lemma taken (ht : Tended h steps t pubs c) (hstep : t.step (.call op) = some t₁) :
    t₁.accepted = (c.step h.plain.clock op).objects := by
  obtain ⟨⟨⟨reply, w⟩, s⟩, happly, rfl⟩ := Option.map_eq_some_iff.mp hstep
  obtain ⟨-, htaken⟩ := ht.account.apply (admitted_operation h c op)
    (fun _ => ht.current_nonempty) False.elim _ _ happly
  rw [Course.objects_step, ← ht.accepted, ← htaken]

lemma placed_eq (ht : Tended h steps t pubs c) {d : Course} {w : Writer ω} {s : Surroundings σ}
    (h₁ : Account (h.exposed False) (pubs ++ []) d w s) : s.placed = t.world.placed := by
  rw [h₁.records.placed, ht.account.records.placed, List.append_nil]

lemma next (ht : Tended h steps t pubs c) (hstep : t.step (.call op) = some t₁)
    (account : Account (h.exposed False) (pubs ++ more) (c.step h.plain.clock op) t₁.writer
      t₁.world)
    (past : ∀ earlier st later, (c.step h.plain.clock op).past = earlier ++ st :: later →
      (∃ x ∈ pubs ++ more, x.stretch = st) ∨ b.Excuse config (steps ++ [.call op])
        t₁.world.pipeline (earlier.flatMap Stretch.objects).length)
    (current : (c.step h.plain.clock op).current ≠ none →
      (∀ file, t₁.writer.phase ≠ .writing file) → b.Excuse config (steps ++ [.call op])
        t₁.world.pipeline ((c.step h.plain.clock op).past.flatMap Stretch.objects).length) :
    Tended h (steps ++ [.call op]) t₁ (pubs ++ more) (c.step h.plain.clock op) where
  account := account
  grounded := ht.grounded.step _ _
  accepted := ht.taken hstep
  token := (Stage.onward _ hstep).token ht.token
  past := past _ _ _
  current := current

lemma past_append (ht : Tended h steps t pubs c) (hstep : t.step x = some t₁)
    {earlier later : List Stretch} {st : Stretch} (hc : c.past = earlier ++ st :: later) :
    (∃ x ∈ pubs ++ more, x.stretch = st) ∨ b.Excuse config (steps ++ [x])
      t₁.world.pipeline (earlier.flatMap Stretch.objects).length :=
  (ht.past hc).imp (fun ⟨y, hy, hst⟩ => ⟨y, List.mem_append_left _ hy, hst⟩)
    fun he => he.mono _ (Stage.onward x hstep).pipeline

/-- **Leaving a window**: it has got a file, or there is an excuse. -/
lemma leave (ht : Tended h steps t pubs c) (hreached : b.reached config steps = some t)
    (hstep : t.step (.call op) = some t₁)
    (account : Account (h.exposed False) (pubs ++ more) (c.step h.plain.clock op) t₁.writer
      t₁.world)
    (hpast : (c.step h.plain.clock op).past = c.past ++ c.current.toList) {s' : Surroundings σ}
    (hleaving : Leaving (h.exposed False) c t.writer t.world s' more)
    (hgrows : t.world.pipeline.Grows s'.pipeline)
    (hextends : s'.pipeline.Extends t₁.world.pipeline)
    {earlier later : List Stretch} {st : Stretch}
    (hc : (c.step h.plain.clock op).past = earlier ++ st :: later) :
    (∃ x ∈ pubs ++ more, x.stretch = st) ∨ b.Excuse config (steps ++ [.call op])
      t₁.world.pipeline (earlier.flatMap Stretch.objects).length := by
  have hcall : b.Calls config (steps ++ [.call op]) op t t₁ := ⟨steps, [], rfl, hreached, hstep⟩
  have honward := (Stage.onward _ hstep).pipeline
  rcases Course.past_or_current (hpast.symm.trans hc) with ⟨later, hbefore⟩ | ⟨rfl, hcurrent⟩
  · exact ht.past_append hstep hbefore
  rw [hcurrent, Option.toList_some] at hpast
  have hended := account.not_writesFrom (ht.taken hstep) hpast (ht.current_nonempty hcurrent)
  have hfirst {file : OpenFile ω} (hw : t.writer.phase = .writing file) :=
    (ht.account.number_iff ht.accepted hw).mpr rfl
  cases hleaving with
  | unwritten unwritten =>
    exact .inr ((ht.current (by simp [hcurrent]) unwritten).mono _ honward)
  | @placed x _ _ stretch =>
    exact .inl ⟨x, by simp, Option.some.inj (stretch.symm.trans hcurrent)⟩
  | @blocked file writing there =>
    obtain ⟨_, -, hwr⟩ := ht.account.opened writing
    have hpresent := b.view.present_eq ht.account.records.sound (h.reaches hwr.names).record
    exact .inr (.inTheWay hcall writing (hfirst writing) hended (hpresent.trans there))
  | @givenUp file writing cancelled =>
    have hlt : t.writer.token.flag < s'.pipeline.tokens := hgrows.tokens ▸ ht.token
    exact .inr (.unfinished hcall ⟨file, writing, hfirst writing⟩ hended (ht.placed_eq account)
      (Pipeline.Cancelled.mono ⟨hlt, cancelled⟩ hextends))

lemma stay (ht : Tended h steps t pubs c) (hstep : t.step (.call op) = some t₁)
    (account : Account (h.exposed False) (pubs ++ more) (c.step h.plain.clock op) t₁.writer
      t₁.world)
    (hpast : (c.step h.plain.clock op).past = c.past)
    (hcurrent : (c.step h.plain.clock op).current = c.current)
    (hphase : t₁.writer.phase = t.writer.phase) :
    Tended h (steps ++ [.call op]) t₁ (pubs ++ more) (c.step h.plain.clock op) := by
  refine ht.next hstep account (fun earlier st later hc => ?_) fun hne hw => ?_
  · exact ht.past_append hstep (hpast ▸ hc)
  · rw [hpast]
    exact (ht.current (hcurrent ▸ hne) (hphase ▸ hw)).mono _ (Stage.onward _ hstep).pipeline

lemma closeAndSign (ht : Tended h steps t pubs c) (hreached : b.reached config steps = some t)
    (hstep : t.step (.call op) = some t₁)
    (account : Account (h.exposed False) (pubs ++ more) (c.step h.plain.clock op) t₁.writer
      t₁.world)
    (hpast : (c.step h.plain.clock op).past = c.past ++ c.current.toList)
    (hcurrent : (c.step h.plain.clock op).current = none)
    (hleaving : Leaving (h.exposed False) c t.writer t.world t₁.world more)
    (hgrows : t.world.pipeline.Grows t₁.world.pipeline) :
    Tended h (steps ++ [.call op]) t₁ (pubs ++ more) (c.step h.plain.clock op) := by
  refine ht.next hstep account (fun earlier st later hc => ?_) fun hne => (hne hcurrent).elim
  exact ht.leave hreached hstep account hpast hleaving hgrows (.refl _) hc

/-- **Receiving an object**: its window is being written, or there is an excuse. -/
lemma receive (ht : Tended h steps t pubs c) (hreached : b.reached config steps = some t)
    {o : StreamObject} (hstep : t.step (.call (.add o)) = some t₁)
    (htaken : t₁.accepted = t.accepted ++ [o])
    {w : Writer ω} {s : Surroundings σ} (hturn : t.writer.turnTo o t.world = some (w, s))
    {d : Course} (hobjects : d.objects = c.objects)
    (account : Account (h.exposed False) (pubs ++ more) d w s)
    (hturning : Turning (h.exposed False) c t.writer t.world s d w more)
    (hreceiving : Receiving b.view w o s t₁.world t₁.writer)
    (hgrows : s.pipeline.Grows t₁.world.pipeline)
    (hplaced : more = [] → t₁.world.placed = t.world.placed)
    (hw : ∀ file, t₁.writer.phase ≠ .writing file) :
    b.Excuse config (steps ++ [.call (.add o)]) t₁.world.pipeline
      (d.past.flatMap Stretch.objects).length := by
  have hcall : b.Calls config (steps ++ [.call (.add o)]) (.add o) t t₁ :=
    ⟨steps, [], rfl, hreached, hstep⟩
  have hended : ∀ n, ¬t₁.WritesFrom n := by
    rintro n ⟨file, hwriting, -⟩
    exact hw file hwriting
  have hconfig : w.config = config := account.follows.config
  obtain ⟨htoken, hturned⟩ := Writer.advances_turnTo o _ _ _ hturn
  have hcancelled : t₁.world.pipeline.isCancelled w.token = true →
      t₁.world.pipeline.Cancelled t.writer.token := by
    rw [htoken]
    exact fun hc => ⟨by rw [hgrows.tokens, hturned.tokens]; exact ht.token, hc⟩
  have hstayed : w.phase ≠ .idle →
      more = [] ∧ d.past = c.past ∧ c.current ≠ none ∧ w.phase = t.writer.phase := by
    rw [Ne, account.follows.idle_iff]
    intro hd
    cases hturning with
    | stayed past current phase => exact ⟨rfl, past, current ▸ hd, phase⟩
    | left past current leaving => exact (hd current).elim
  cases hphase : w.phase with
  | idle =>
    have hd : d.current = none := account.follows.idle_iff.mp hphase
    have hopens : b.Opens config (steps ++ [.call (.add o)])
        (d.past.flatMap Stretch.objects).length o t w s t₁ := by
      refine ⟨hcall, ?_, htaken, hturn, hphase⟩
      rw [ht.accepted, ← hobjects, Course.objects, Course.stretches, hd]
      simp
    cases hreceiving with
    | written writing => exact (hw _ writing).elim
    | passed skipping => cases hphase.symm.trans skipping
    | waiting idle pending => exact .waiting hopens pending
    | standing idle name there =>
      rw [hconfig] at name
      have hpresent := b.view.present_eq account.records.sound (h.reaches ⟨_, name⟩).record
      exact .standing hopens name (hpresent.trans there)
    | givenUp cancelled => exact .unopened hopens (hended _) (hcancelled cancelled)
  | writing file =>
    obtain ⟨rfl, hpast, -, hsame⟩ := hstayed (by simp [hphase])
    have hwriting : t.writer.phase = .writing file := hsame.symm.trans hphase
    have hfirst := (ht.account.number_iff ht.accepted hwriting).mpr rfl
    rw [hpast]
    cases hreceiving with
    | written writing => exact (hw _ writing).elim
    | passed skipping => cases hphase.symm.trans skipping
    | waiting idle pending => cases hphase.symm.trans idle
    | standing idle name there => cases hphase.symm.trans idle
    | givenUp cancelled =>
      exact .unfinished hcall ⟨file, hwriting, hfirst⟩ (hended _) (hplaced rfl)
        (hcancelled cancelled)
  | skipping window reason =>
    obtain ⟨rfl, hpast, hcurrent, hsame⟩ := hstayed (by simp [hphase])
    rw [hpast]
    exact (ht.current hcurrent (by simp [← hsame, hphase])).mono _ (Stage.onward _ hstep).pipeline

/-- **Adding an object.** -/
lemma add (ht : Tended h steps t pubs c) (hreached : b.reached config steps = some t)
    {o : StreamObject} (hstep : t.step (.call (.add o)) = some t₁) :
    ∃ more, Tended h (steps ++ [.call (.add o)]) t₁ (pubs ++ more)
      (c.step h.plain.clock (.add o)) := by
  obtain ⟨⟨⟨reply, w'⟩, s'⟩, happly, rfl⟩ := Option.map_eq_some_iff.mp hstep
  obtain ⟨r, s₀, hadd, hrest⟩ := Act.bind_eq_some.mp happly
  have hsame := ht.account.follows.stopped
  cases Writer.gives_adding t.writer o t.world _ _ hadd with
  | refused hstopped =>
    cases hrest
    have hc : c.step h.plain.clock (.add o) = c := by
      simp [Course.step, Course.add, hsame.symm.trans hstopped]
    refine ⟨[], ht.stay hstep ?_ (by rw [hc]) (by rw [hc]) rfl⟩
    rw [List.append_nil, hc]
    exact ht.account
  | @taken w₁ w₂ s₁ _ hrunning hturn hreceive =>
    cases hrest
    change ∃ more, Tended h _ ⟨w', s', t.accepted ++ [o]⟩ _ _
    rw [show t.writer.clock = h.plain.clock from ht.account.follows.clock] at hreceive
    have hc : c.step h.plain.clock (.add o) = _ := Course.add_eq (hsame.symm.trans hrunning)
    obtain ⟨more, h₁, hturning⟩ :=
      ht.account.turnTo o (fun _ => ht.current_nonempty) False.elim _ _ hturn
    have h₂ : Account (h.exposed False) (pubs ++ more) (c.step h.plain.clock (.add o)) w' s' := by
      rw [hc]
      exact h₁.receive (admitted_operation h c (.add o)).1 _ False.elim False.elim _ _ hreceive
    have hreceiving : Receiving b.view w₁ o s₁ s' w' := h₁.gives_receiving _ _ hreceive
    obtain ⟨-, hgrows₁⟩ := Writer.advances_turnTo o _ _ _ hturn
    obtain ⟨-, hgrows₂⟩ := Writer.advances_receive o _ _ _ _ hreceive
    have hobjects : ((c.notice (h.plain.clock.period o.timestamp)).leaveFor o.alignment
        (h.plain.clock.period o.timestamp)).objects = c.objects := by
      rw [Course.objects, Course.stretches_leaveFor, Course.stretches_notice, Course.objects]
    have hplaced : more = [] → s'.placed = t.world.placed := by
      rintro rfl
      exact ht.placed_eq h₂
    refine ⟨more, ht.next hstep h₂ (fun earlier st later hpast => ?_) fun _ hw => ?_⟩
    · cases hturning with
      | stayed past current phase =>
        rw [hc, Course.past_receive] at hpast
        exact ht.past_append hstep (past ▸ hpast)
      | left past current leaving =>
        have hleft := (congrArg Course.past hc).trans ((Course.past_receive ..).trans past)
        exact ht.leave hreached hstep h₂ hleft leaving hgrows₁ hgrows₂.extends hpast
    · rw [hc, Course.past_receive]
      exact ht.receive hreached hstep rfl hturn hobjects h₁ hturning hreceiving hgrows₂ hplaced hw

/-- **Every operation** but clearing. -/
lemma operation (ht : Tended h steps t pubs c) (hreached : b.reached config steps = some t)
    (hop : op ≠ .clear) (hstep : t.step (.call op) = some t₁) :
    ∃ more, Tended h (steps ++ [.call op]) t₁ (pubs ++ more) (c.step h.plain.clock op) := by
  have hnonempty : ∀ st, c.current = some st → st.objects ≠ [] := fun _ => ht.current_nonempty
  have hkept (h₁ : Account (h.exposed False) pubs (c.step h.plain.clock op) t₁.writer t₁.world)
      (hpast : (c.step h.plain.clock op).past = c.past)
      (hcurrent : (c.step h.plain.clock op).current = c.current)
      (hphase : t₁.writer.phase = t.writer.phase) :
      ∃ more, Tended h (steps ++ [.call op]) t₁ (pubs ++ more) (c.step h.plain.clock op) :=
    ⟨[], ht.stay hstep (by rwa [List.append_nil]) hpast hcurrent hphase⟩
  obtain ⟨w₁, s₁, accepted⟩ := t₁
  cases op with
  | add o => exact ht.add hreached hstep
  | clear => exact (hop rfl).elim
  | closeAndSign =>
    have hrun := Stage.step_done rfl hstep
    obtain ⟨more, h₁, hleaving⟩ := ht.account.closeAndSign hnonempty False.elim _ _ hrun
    obtain ⟨-, hgrows⟩ := Writer.advances_closeAndSign _ _ _ hrun
    exact ⟨more, ht.closeAndSign hreached hstep h₁ rfl rfl hleaving hgrows⟩
  | close =>
    have hrun := Stage.step_done rfl hstep
    obtain ⟨more, h₁, hleaving⟩ := ht.account.close hnonempty False.elim _ _ hrun
    obtain ⟨-, hgrows⟩ := Writer.advances_close _ _ _ hrun
    exact ⟨more, ht.closeAndSign hreached hstep h₁ rfl rfl hleaving hgrows⟩
  | setRunningHash hash =>
    have hrun := Stage.step_done rfl hstep
    have h₁ := ht.account.setRunningHash hash _ _ hrun
    cases hrun
    exact hkept h₁ rfl rfl rfl
  | clearRunningHash =>
    have hrun := Stage.step_done rfl hstep
    have h₁ := ht.account.clearRunningHash _ _ hrun
    cases hrun
    exact hkept h₁ rfl rfl rfl
  | setCompleteWindow on =>
    have hrun := Stage.step_done (m := pure (t.writer.setCompleteWindow on)) rfl hstep
    cases hrun
    exact hkept (ht.account.setCompleteWindow on) rfl rfl rfl
  | resetCancellation =>
    obtain ⟨⟨⟨reply, w'⟩, s'⟩, happly, heq⟩ := Option.map_eq_some_iff.mp hstep
    obtain ⟨r, s₂, hrun, hpure⟩ := Act.bind_eq_some.mp happly
    have h₁ := ht.account.resetCancellation id _ _ hrun
    cases hpure
    cases heq
    refine hkept h₁ rfl rfl ?_
    rw [Writer.resetCancellation_eq] at hrun
    split at hrun <;> cases hrun <;> rfl

/-- **Every step** but clearing. -/
lemma step (ht : Tended h steps t pubs c) (hreached : b.reached config steps = some t)
    (hx : x ≠ .call .clear) (hstep : t.step x = some t₁) :
    ∃ more, Tended h (steps ++ [x]) t₁ (pubs ++ more) (c.run h.plain.clock (Step.calls [x])) := by
  cases x with
  | call op => exact ht.operation hreached (by simpa using hx) hstep
  | outside i =>
    refine ⟨[], ?_⟩
    have honward := Stage.onward _ hstep
    cases hstep
    exact
      { account := by
          rw [List.append_nil]
          exact ht.account.intervene i id
        grounded := ht.grounded
        accepted := ht.accepted
        token := honward.token ht.token
        past := ht.past_append rfl
        current := fun hne hw => (ht.current hne hw).mono _ honward.pipeline }

lemma start (h : b.Serves config) (hstart : Stage.start config b.world = some t) :
    Tended h [] t [] (Course.start config.completeWindow) := by
  obtain ⟨account, hacc⟩ := Account.start (h.begins_exposed False) hstart
  refine
    { account := account
      grounded := Course.grounded_start _
      accepted := hacc
      token := ?_
      past := fun hc => by simp [Course.start] at hc
      current := fun hne => (hne rfl).elim }
  cases ((h.exposed False).start_eq b.world).symm.trans hstart
  exact Nat.lt_succ_self _

/-- **A run tends all windows**, unless it clears. -/
theorem run {more : List Step} {t' : Stage σ ω} (ht : Tended h steps t pubs c)
    (hreached : b.reached config steps = some t) (hclear : .call .clear ∉ more)
    (hrun : Stage.run more t = some t') :
    ∃ pubs', Tended h (steps ++ more) t' pubs' (c.run h.plain.clock (Step.calls more)) := by
  induction more generalizing steps t pubs c with
  | nil =>
    cases hrun
    exact ⟨pubs, by rwa [List.append_nil]⟩
  | cons x more ih =>
    rw [Stage.run_cons, Option.bind_eq_some_iff] at hrun
    obtain ⟨t₁, hstep, hrun⟩ := hrun
    obtain ⟨hx, hclear⟩ := List.ne_and_not_mem_of_not_mem_cons hclear
    obtain ⟨new, h₁⟩ := ht.step hreached hx.symm hstep
    obtain ⟨pubs', h'⟩ := ih h₁ (reached_concat hreached hstep) hclear hrun
    refine ⟨pubs', ?_⟩
    rw [List.append_cons]
    cases x <;> exact h'

end Tended

/-- **No object is lost in silence.** After every step of any run, whatever has failed and whoever
has interfered, all objects that the writer has taken are in the windows of its course; and every
window is in a file that the writer has put in place, or in the file that it is writing, or it has
an excuse: the writer was to wait for a complete window, something stood in the way of the file, or
the token has been cancelled that the writer had when it gave the window up. -/
theorem none_lost (h : b.Serves config) (hclear : .call .clear ∉ steps)
    (ht : b.reached config steps = some t) :
    t.accepted = (h.course (Step.calls steps)).objects ∧
      ∀ earlier st later, (h.course (Step.calls steps)).stretches = earlier ++ st :: later →
        b.Fate config steps t (earlier.flatMap Stretch.objects).length st := by
  obtain ⟨t₀, hstart, hrun⟩ := Option.bind_eq_some_iff.mp ht
  have hreached : b.reached config [] = some t₀ := by
    rw [reached, hstart]
    rfl
  obtain ⟨pubs, htended⟩ : ∃ pubs, Tended h steps t pubs (h.course (Step.calls steps)) :=
    (Tended.start h hstart).run hreached hclear hrun
  refine ⟨htended.accepted, fun earlier st later hst => ?_⟩
  have account := htended.account
  rcases Course.past_or_current hst with ⟨later, hpast⟩ | ⟨rfl, hcurrent⟩
  · rcases htended.past hpast with ⟨x, hx, rfl⟩ | excuse
    · obtain ⟨call, hvalid⟩ := account.records.published.valid hx
      refine .placed ?_ hvalid.name (account.records.stores hx) ?_
      · rw [account.records.placed]
        exact List.mem_map_of_mem hx
      · rw [hvalid.file]
        rfl
    · exact .excused excuse
  · by_cases hw : ∃ file, t.writer.phase = .writing file
    · obtain ⟨file, hw⟩ := hw
      obtain ⟨st', hst', hwr⟩ := account.opened hw
      cases hcurrent.symm.trans hst'
      refine .held hw ?_ hwr.holds
      rw [htended.accepted, Course.length_objects hcurrent]
    · exact .excused (htended.current (by simp [hcurrent]) (not_exists.mp hw))

/-- The small stream on a disk that does not let its first file be put in place. -/
def hindered : Outset (Faulty Disk) (FaultyOutput DiskOutput) :=
  sample.withFaults { Faults.none with rename := some ⟨.permissionDenied, "01Z.rcd", 0⟩ }

theorem none_lost_hindered : ∃ t first second, hindered.reached .standard shaken = some t ∧
    t.accepted = first.objects ++ second.objects ∧ hindered.Fate .standard shaken t 0 first ∧
      hindered.Fate .standard shaken t first.objects.length second := by
  have h : hindered.Serves .standard := serves_sample.withFaults nofun
  obtain ⟨t, ht⟩ := exists_shaken h fun _ => holds_sample
  obtain ⟨haccepted, hfate⟩ := none_lost h (by decide) ht
  have hwindows : ((Course.start Config.standard.completeWindow).run
      ⟨Config.standard.periodMillis, by decide⟩ (Step.calls shaken)).stretches.length = 2 := by
    decide
  obtain ⟨first, second, hcourse⟩ : ∃ first second,
      (h.course (Step.calls shaken)).stretches = [first, second] := List.length_eq_two.mp hwindows
  refine ⟨t, first, second, ht, ?_, ?_, ?_⟩
  · rw [haccepted, Course.objects, hcourse]
    simp
  · exact hfate [] first [second] hcourse
  · simpa using hfate [first] second [] hcourse

end Outset

end SealedStream
