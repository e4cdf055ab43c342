import Mathlib.Data.List.Chain
import SealedStream.Proofs.Writer.Standstill
import SealedStream.Proofs.Writer.Succession

/-!
What a writer keeps in mind from one object to the next, whatever becomes of its files.

Its policy, the period of the last object and where the next file starts from are settled by the
calls alone; storage, signer and links have no part in them. While the policy holds, the writer goes
on with the file that is open, if there is one, and creates none.
-/

namespace SealedStream

open Act

variable {σ ω α β : Type}

/-! ### Creating no file -/

/-- From the one world to the other the writer has not set out to create a record file. -/
def Surroundings.CreatesNone (s s' : Surroundings σ) : Prop :=
  ∃ es, s'.events = s.events ++ es ∧ ∀ e ∈ es, e.isCreation = false

namespace Surroundings

variable {s s₁ s' : Surroundings σ}

lemma CreatesNone.of_same (h : s'.events = s.events) : s.CreatesNone s' :=
  ⟨[], by rw [h, List.append_nil], List.forall_mem_nil _⟩

lemma CreatesNone.refl (s : Surroundings σ) : s.CreatesNone s := .of_same rfl

lemma CreatesNone.trans (h : s.CreatesNone s₁) (h' : s₁.CreatesNone s') : s.CreatesNone s' := by
  obtain ⟨es, hes, hall⟩ := h
  obtain ⟨es', hes', hall'⟩ := h'
  refine ⟨es ++ es', by rw [hes', hes, List.append_assoc], fun e he => ?_⟩
  rcases List.mem_append.mp he with he | he
  · exact hall e he
  · exact hall' e he

lemma createsNone_told {e : Event} (he : e.isCreation = false) (s : Surroundings σ) :
    s.CreatesNone (s.told e) :=
  ⟨[e], rfl, fun e' he' => by rwa [List.mem_singleton.mp he']⟩

end Surroundings

namespace Act

def CreatesNone (m : Act σ α) : Prop := ∀ s, m.Gives s fun _ s' => s.CreatesNone s'

variable {m : Act σ α} {f : α → Act σ β} {s : Surroundings σ} {Q : β → Prop}

lemma gives_last {Q : β → Surroundings σ → Prop} (hf : ∀ a s₁, (f a).Gives s₁ Q) :
    (m >>= f).Gives s Q := by
  intro b s' h
  obtain ⟨a, s₁, -, h₂⟩ := bind_eq_some.mp h
  exact hf a s₁ b s' h₂

lemma CreatesNone.then (hm : m.CreatesNone)
    (hf : ∀ a s₁, (f a).Gives s₁ fun b s' => Q b ∧ s₁.CreatesNone s') :
    (m >>= f).Gives s fun b s' => Q b ∧ s.CreatesNone s' :=
  (hm s).bind fun a s₁ h => (hf a s₁).mono fun _ _ ⟨hq, h'⟩ => ⟨hq, h.trans h'⟩

lemma createsNone_pure {b : β} (h : Q b) :
    (pure b : Act σ β).Gives s fun b s' => Q b ∧ s.CreatesNone s' :=
  gives_pure ⟨h, .refl s⟩

lemma createsNone_await (l : Link) (t : Token) : (await l t : Act σ _).CreatesNone := by
  intro s r s' h
  obtain ⟨⟨a, coming, q⟩, -, heq⟩ := Option.map_eq_some_iff.mp h
  cases heq
  exact .of_same rfl

lemma uncreating_createsNone : Uncreating (σ := σ) CreatesNone where
  pure _ s := gives_pure (.refl s)
  bind hm hf s := (hm s).bind fun a s₁ h => (hf a s₁).mono fun _ _ h' => h.trans h'
  report he s := by
    rintro _ _ ⟨⟩
    exact Surroundings.createsNone_told he s
  onStorage _ s := by
    rintro _ _ ⟨⟩
    exact .of_same rfl
  cancel _ s := by
    rintro _ _ ⟨⟩
    exact .of_same rfl
  sign _ s := by
    rintro _ _ ⟨⟩
    exact .of_same rfl
  signatureScheme s := by
    rintro _ _ ⟨⟩
    exact .refl s

end Act

/-! ### What is kept in mind -/

/-- What a writer keeps in mind from one object to the next. -/
structure Memory where
  config : Config
  clock : PeriodClock
  runningHash : Link
  completeWindow : Bool
  lastPeriod : Option Int64
  stopped : Bool

namespace Memory

/-- The policy ends with an object of another period than the last one. -/
def notice (m : Memory) (period : Int64) : Memory :=
  { m with completeWindow := m.completeWindow && m.lastPeriod.all (· = period) }

def pass (m : Memory) (o : StreamObject) : Memory :=
  { m with runningHash := o.link, lastPeriod := some (m.clock.period o.timestamp) }

def add (m : Memory) (o : StreamObject) : Memory :=
  (m.notice (m.clock.period o.timestamp)).pass o

end Memory

namespace Writer

def memory (w : Writer ω) : Memory where
  config := w.config
  clock := w.clock
  runningHash := w.runningHash
  completeWindow := w.completeWindow
  lastPeriod := w.lastPeriod
  stopped := w.stopped

/-- A window that is passed over because of the policy is the period of the last object. -/
def Attentive (w : Writer ω) : Prop :=
  ∀ window, w.phase = .skipping window .completeWindow →
    ∃ period, window = ⟨period, .unaligned⟩ ∧ w.lastPeriod = some period

/-- While the policy holds, no file has been created from the one writer and its world to the other,
and none is open that was not open before. -/
structure Heeds (w : Writer ω) (s : Surroundings σ) (w' : Writer ω) (s' : Surroundings σ) :
    Prop where
  creates : s.CreatesNone s'
  opened {p : Path} : w'.phase.part? = some p → w.phase.part? = some p

variable {w w₁ w' : Writer ω} {s s₁ s' : Surroundings σ} {o : StreamObject} {period : Int64}

lemma Heeds.refl (w : Writer ω) (s : Surroundings σ) : w.Heeds s w s := ⟨.refl s, id⟩

lemma Heeds.trans (h : w.Heeds s w₁ s₁) (h' : w₁.Heeds s₁ w' s') : w.Heeds s w' s' :=
  ⟨h.creates.trans h'.creates, fun hp => h.opened (h'.opened hp)⟩

lemma Heeds.of_idle (h : s.CreatesNone s') (hw : w'.phase = .idle) : w.Heeds s w' s' :=
  ⟨h, fun hp => by rw [hw] at hp; cases hp⟩

lemma Heeds.of_phase (h : s.CreatesNone s') (hw : w'.phase = w.phase) : w.Heeds s w' s' :=
  ⟨h, fun hp => hw ▸ hp⟩

lemma attentive_of_idle (hw : w.phase = .idle) : w.Attentive := by
  intro window h
  rw [hw] at h
  cases h

/-! ### Turning to an object -/

/-- What has become of a writer that has turned to an object. -/
structure Turned (w : Writer ω) (o : StreamObject) (s : Surroundings σ) (w' : Writer ω)
    (s' : Surroundings σ) : Prop where
  memory : w'.memory = w.memory.notice (w.clock.period o.timestamp)
  creates : s.CreatesNone s'
  phase : w'.phase = .idle ∨ w'.phase = w.phase ∧ ∀ window reason,
    w.phase = .skipping window reason →
      window.contains o.alignment (w.clock.period o.timestamp) = true

lemma crosses_eq (w : Writer ω) (period : Int64) :
    w.crosses period = !w.lastPeriod.all (· = period) := by
  unfold crosses
  cases w.lastPeriod <;> simp

lemma gives_notice (w : Writer ω) (period : Int64) (s : Surroundings σ) :
    (w.noticeBoundary period : Act σ _).Gives s fun w' s' =>
      (w'.memory = w.memory.notice period ∧ w'.phase = w.phase) ∧ s.CreatesNone s' := by
  unfold noticeBoundary
  rw [crosses_eq]
  split <;> rename_i hon
  · refine CreatesNone.then (uncreating_createsNone.report rfl) fun _ _ =>
      createsNone_pure ⟨?_, rfl⟩
    simp_all [memory, Memory.notice]
  · refine createsNone_pure ⟨?_, rfl⟩
    simp_all [memory, Memory.notice]

variable [Storage σ ω]

lemma gives_finish (w : Writer ω) (file : OpenFile ω) (s : Surroundings σ) :
    (w.finish file : Act σ _).Gives s fun w' s' =>
      (w'.memory = w.memory ∧ w'.phase = .idle) ∧ s.CreatesNone s' :=
  CreatesNone.then (uncreating_createsNone.finishFile createsNone_await) fun _ _ =>
    createsNone_pure ⟨rfl, rfl⟩

lemma gives_closeAndSign (w : Writer ω) (s : Surroundings σ) :
    (w.closeAndSign : Act σ _).Gives s fun w' s' =>
      (w'.memory = w.memory ∧ w'.phase = .idle) ∧ s.CreatesNone s' := by
  unfold closeAndSign
  split
  · exact w.gives_finish _ s
  · exact createsNone_pure ⟨rfl, rfl⟩

lemma gives_leave (w : Writer ω) (alignment : Alignment) (period : Int64) (s : Surroundings σ) :
    (w.leaveWindow alignment period : Act σ _).Gives s fun w' s' =>
      (w'.memory = w.memory ∧ (w'.phase = .idle ∨ w'.phase = w.phase ∧ ∀ window reason,
        w.phase = .skipping window reason → window.contains alignment period = true)) ∧
      s.CreatesNone s' := by
  rw [leaveWindow_eq]
  split <;> rename_i hin
  · refine createsNone_pure ⟨rfl, .inr ⟨rfl, fun window reason hw => ?_⟩⟩
    rw [hw] at hin
    exact hin
  · exact (w.gives_closeAndSign s).mono fun _ _ ⟨⟨hm, hidle⟩, h⟩ => ⟨⟨hm, .inl hidle⟩, h⟩

lemma gives_turned (w : Writer ω) (o : StreamObject) (s : Surroundings σ) :
    (w.turnTo o : Act σ _).Gives s fun w' s' => w.Turned o s w' s' := by
  refine (w.gives_notice _ s).bind fun w₁ s₁ ⟨⟨hm₁, hphase₁⟩, h₁⟩ => ?_
  refine (w₁.gives_leave o.alignment _ s₁).mono fun w' s' ⟨⟨hm, hphase⟩, h⟩ => ?_
  exact ⟨hm.trans hm₁, h₁.trans h, hphase₁ ▸ hphase⟩

omit [Storage σ ω] in
lemma Turned.heeds (h : w.Turned o s w' s') : w.Heeds s w' s' := by
  refine ⟨h.creates, fun {p} hp => ?_⟩
  rcases h.phase with hidle | ⟨hsame, -⟩
  · rw [hidle] at hp
    cases hp
  · rwa [hsame] at hp

/-! ### Receiving it -/

/-- What can come of the window when a writer receives an object that it has turned to. -/
inductive Received (w : Writer ω) (period : Int64) (s : Surroundings σ) (w' : Writer ω)
    (s' : Surroundings σ) : Prop where
  | waiting (idle : w.phase = .idle)
      (phase : w'.phase = .skipping ⟨period, .unaligned⟩ .completeWindow)
      (creates : s.CreatesNone s')
  | opening (ended : w.completeWindow = false)
      (phase : ∀ window, w'.phase ≠ .skipping window .completeWindow)
  | passing {window : Window} {reason : SkipReason} (skips : w.phase = .skipping window reason)
      (phase : w'.phase = w.phase) (creates : s.CreatesNone s')
  | writing (phase : ∀ window, w'.phase ≠ .skipping window .completeWindow)
      (heeds : w.Heeds s w' s')

omit [Storage σ ω] in
lemma Received.heeds (h : w.Received period s w' s') (hon : w.completeWindow = true) :
    w.Heeds s w' s' := by
  cases h with
  | waiting idle phase creates => exact ⟨creates, fun hp => by rw [phase] at hp; cases hp⟩
  | opening ended phase =>
    rw [ended] at hon
    cases hon
  | passing skips phase creates => exact .of_phase creates phase
  | writing phase heeds => exact heeds

lemma gives_openWindow_phase (w : Writer ω) (o : StreamObject) (window : Window)
    (s : Surroundings σ) :
    (w.openWindow o window : Act σ _).Gives s fun ph _ =>
      ∀ window, ph ≠ .skipping window .completeWindow := by
  have habandon (s₁ : Surroundings σ) : (w.abandon window : Act σ _).Gives s₁ fun ph _ =>
      ∀ window, ph ≠ .skipping window .completeWindow :=
    gives_last fun _ _ => gives_pure nofun
  unfold openWindow
  split
  · exact gives_last fun _ s₁ => habandon s₁
  · refine gives_last fun b s₁ => ?_
    split
    · exact gives_last fun _ _ => gives_pure nofun
    · refine gives_last fun r s₂ => ?_
      cases r with
      | error e => exact gives_last fun _ s₃ => habandon s₃
      | ok start =>
        refine gives_last fun r s₃ => ?_
        cases r with
        | none => exact habandon s₃
        | some output =>
          refine gives_last fun r s₄ => ?_
          rcases r with ⟨f | _, output'⟩
          · exact gives_last fun _ _ => gives_last fun _ s₅ => habandon s₅
          · exact gives_last fun _ _ => gives_pure nofun

lemma gives_enter (w : Writer ω) (o : StreamObject) (period : Int64) (s : Surroundings σ) :
    (w.enterWindow o period : Act σ _).Gives s fun w' s' =>
      w'.memory = w.memory ∧ w.Received period s w' s' := by
  unfold enterWindow
  cases hw : w.phase with
  | idle =>
    simp only
    split <;> rename_i hon
    · rintro _ _ ⟨⟩
      exact ⟨rfl, .waiting hw rfl (Surroundings.createsNone_told rfl s)⟩
    · refine (gives_openWindow_phase w o _ s).bind fun ph s₁ hph => gives_pure ⟨rfl, ?_⟩
      exact .opening (by simpa using hon) hph
  | writing file =>
    exact gives_pure ⟨rfl, .writing (by rw [hw]; nofun) (.refl w s)⟩
  | skipping window reason => exact gives_pure ⟨rfl, .passing hw rfl (.refl s)⟩

lemma gives_append_phase (w : Writer ω) (file : OpenFile ω) (o : StreamObject)
    (s : Surroundings σ) :
    (w.append file o : Act σ _).Gives s fun ph s' =>
      ((∀ window, ph ≠ .skipping window .completeWindow) ∧
        ∀ p, ph.part? = some p → file.part = p) ∧ s.CreatesNone s' := by
  refine fun ph s' h => ⟨?_, uncreating_createsNone.append o s ph s' h⟩
  revert ph s'
  refine gives_last fun r s₁ => ?_
  rcases r with ⟨f | _, output⟩
  · refine gives_last fun _ _ => gives_last fun _ _ => gives_last fun _ _ =>
      gives_pure ⟨?_, ?_⟩
    · rintro _ ⟨⟩
    · rintro _ ⟨⟩
  · refine gives_pure ⟨nofun, ?_⟩
    rintro p ⟨⟩
    rfl

lemma gives_take (w : Writer ω) (o : StreamObject) (s : Surroundings σ) :
    (w.take o : Act σ _).Gives s fun w' s' => w'.memory = w.memory ∧ w.Heeds s w' s' ∧
      ∀ window, w'.phase = .skipping window .completeWindow → w'.phase = w.phase := by
  unfold take
  cases hw : w.phase with
  | idle => exact gives_pure ⟨rfl, .refl w s, fun window h => hw⟩
  | writing file =>
    refine (w.gives_append_phase file o s).bind fun ph s₁ ⟨⟨hskip, hpart⟩, h⟩ => gives_pure ?_
    refine ⟨rfl, ⟨h, fun {p} hp => ?_⟩, fun window hph => (hskip window hph).elim⟩
    rw [hw]
    exact congrArg some (hpart p hp)
  | skipping window reason =>
    rintro _ _ ⟨⟩
    exact ⟨rfl, .of_phase (Surroundings.createsNone_told rfl s) rfl, fun _ _ => hw⟩

/-- **Adding an object** is kept in mind as it should be: whatever becomes of the files, the policy
ends with an object of another period than the last one, and until then it is heeded. -/
theorem gives_add (hrunning : w.stopped = false) (s : Surroundings σ) :
    (w.add o : Act σ _).Gives s fun r s' => ∃ w', r = .ok w' ∧ w'.memory = w.memory.add o ∧
      (w.Attentive → w'.Attentive) ∧ (w'.completeWindow = true → w.Heeds s w' s') := by
  rw [add_eq hrunning]
  refine (w.gives_turned o s).bind fun w₁ s₁ h₁ => ?_
  refine Gives.bind (P := fun w' s' => w'.memory = w.memory.add o ∧
    (w.Attentive → w'.Attentive) ∧ (w'.completeWindow = true → w.Heeds s w' s')) ?_
    fun w' s' h => gives_pure ⟨w', rfl, h⟩
  refine (w₁.gives_enter o _ s₁).bind fun w₂ s₂ ⟨hm₂, h₂⟩ => ?_
  refine (w₂.gives_take o s₂).bind fun w₃ s₃ ⟨hm₃, h₃, hskip⟩ => gives_pure ⟨?_, ?_, ?_⟩
  · have hm : w₃.memory = w.memory.notice (w.clock.period o.timestamp) :=
      hm₃.trans (hm₂.trans h₁.memory)
    exact congrArg (fun m : Memory =>
      { m with runningHash := o.link, lastPeriod := some (w.clock.period o.timestamp) }) hm
  · intro hw window hphase
    rw [hskip window hphase] at hphase
    cases h₂ with
    | waiting idle phase creates =>
      rw [phase] at hphase
      cases hphase
      exact ⟨_, rfl, rfl⟩
    | opening ended phase => exact (phase window hphase).elim
    | writing phase heeds => exact (phase window hphase).elim
    | passing skips phase creates =>
      rw [phase] at hphase
      rcases h₁.phase with hidle | ⟨hsame, hin⟩
      · rw [hidle] at hphase
        cases hphase
      · rw [hsame] at hphase
        obtain ⟨q, rfl, -⟩ := hw window hphase
        have hq : q = w.clock.period o.timestamp := by
          simpa [Window.contains, Alignment.sameBlock] using hin _ _ hphase
        exact ⟨q, rfl, congrArg some hq.symm⟩
  · intro hon
    have hpolicy : w₃.completeWindow = w₁.completeWindow :=
      congrArg Memory.completeWindow (hm₃.trans hm₂)
    exact h₁.heeds.trans ((h₂.heeds (hpolicy ▸ hon)).trans ⟨h₃.creates, h₃.opened⟩)

/-! ### Other operations -/

lemma gives_cleared (w : Writer ω) (s : Surroundings σ) :
    (w.clear : Act σ _).Gives s fun w' s' =>
      (w'.memory = w.memory ∧ w'.phase = .idle) ∧ s.CreatesNone s' := by
  rw [clear_eq]
  exact CreatesNone.then uncreating_createsNone.sweep fun _ _ => createsNone_pure ⟨rfl, rfl⟩

/-- A step by which no object is taken, and what it leaves of what is kept in mind. -/
structure Bears (x : Step) (w : Writer ω) (s : Surroundings σ) (w' : Writer ω)
    (s' : Surroundings σ) : Prop where
  config : w'.config = w.config
  clock : w'.clock = w.clock
  lastPeriod : w'.lastPeriod = w.lastPeriod
  policy : (∀ on, x ≠ .call (.setCompleteWindow on)) → w'.completeWindow = w.completeWindow
  link : (∀ op, x = .call op → op.keeps = true) → w'.runningHash = w.runningHash
  running : w'.stopped = false → w.stopped = false
  creates : s.CreatesNone s'
  phase : w'.phase = .idle ∨ w'.phase = w.phase

omit [Storage σ ω] in
lemma Bears.of_memory {x : Step} (hm : w'.memory = w.memory) (hcreates : s.CreatesNone s')
    (hphase : w'.phase = .idle ∨ w'.phase = w.phase) : w.Bears x s w' s' where
  config := congrArg Memory.config hm
  clock := congrArg Memory.clock hm
  lastPeriod := congrArg Memory.lastPeriod hm
  policy _ := congrArg Memory.completeWindow hm
  link _ := congrArg Memory.runningHash hm
  running h := (congrArg Memory.stopped hm).symm.trans h
  creates := hcreates
  phase := hphase

omit [Storage σ ω] in
lemma Bears.relinked (w : Writer ω) {op : Operation} {link : Link} (hop : op.keeps = false)
    (hcreates : s.CreatesNone s') : w.Bears (.call op) s { w with runningHash := link } s' where
  config := rfl
  clock := rfl
  lastPeriod := rfl
  policy _ := rfl
  link h := by
    rw [h op rfl] at hop
    cases hop
  running := id
  creates := hcreates
  phase := .inr rfl

omit [Storage σ ω] in
lemma Bears.told (w : Writer ω) (on : Bool) (s : Surroundings σ) :
    w.Bears (.call (.setCompleteWindow on)) s { w with completeWindow := on } s where
  config := rfl
  clock := rfl
  lastPeriod := rfl
  policy h := (h on rfl).elim
  link _ := rfl
  running := id
  creates := .refl s
  phase := .inr rfl

omit [Storage σ ω] in
lemma Bears.attentive {x : Step} (h : w.Bears x s w' s') (hw : w.Attentive) : w'.Attentive := by
  rcases h.phase with hidle | hsame
  · exact attentive_of_idle hidle
  · intro window hphase
    rw [h.lastPeriod]
    exact hw window (hsame ▸ hphase)

omit [Storage σ ω] in
lemma Bears.heeds {x : Step} (h : w.Bears x s w' s') : w.Heeds s w' s' :=
  h.phase.elim (.of_idle h.creates) (.of_phase h.creates)

/-- **Every operation** but adding an object leaves what is kept in mind of the objects. -/
theorem gives_bears (w : Writer ω) (s : Surroundings σ) {op : Operation} (hop : ∀ o, op ≠ .add o) :
    (w.apply op : Act σ _).Gives s fun r s' => w.Bears (.call op) s r.2 s' ∧ op.taken r.1 = [] := by
  cases op with
  | add o => exact (hop o rfl).elim
  | closeAndSign =>
    exact (w.gives_closeAndSign s).bind fun w' s' ⟨⟨hm, hidle⟩, h⟩ =>
      gives_pure ⟨.of_memory hm h (.inl hidle), rfl⟩
  | clear =>
    exact (w.gives_cleared s).bind fun w' s' ⟨⟨hm, hidle⟩, h⟩ =>
      gives_pure ⟨.of_memory hm h (.inl hidle), rfl⟩
  | close =>
    refine Gives.bind (P := fun w' s' => w.Bears (.call .close) s w' s') ?_
      fun w' s' h => gives_pure ⟨h, rfl⟩
    refine (w.gives_closeAndSign s).bind fun w₁ s₁ ⟨⟨hm, hidle⟩, h⟩ => ?_
    have h₁ : w.Bears (.call .close) s w₁ s₁ := .of_memory hm h (.inl hidle)
    rintro _ _ ⟨⟩
    exact { h₁ with
      running := nofun
      creates := h.trans (Surroundings.createsNone_told rfl s₁) }
  | setRunningHash hash =>
    rintro _ _ ⟨⟩
    exact ⟨.relinked w rfl (.of_same rfl), rfl⟩
  | clearRunningHash =>
    rintro _ _ ⟨⟩
    exact ⟨.relinked w rfl (.of_same rfl), rfl⟩
  | setCompleteWindow on => exact gives_pure ⟨.told w on s, rfl⟩
  | resetCancellation =>
    refine Gives.bind (P := fun r s' => w.Bears (.call .resetCancellation) s r.2 s') ?_
      fun r s' h => gives_pure ⟨h, rfl⟩
    rintro _ s' hrun
    rw [resetCancellation_eq] at hrun
    split at hrun
    · cases hrun
      exact .of_memory rfl (.of_same rfl) (.inr rfl)
    · cases hrun
      exact .of_memory rfl (.refl s) (.inr rfl)

end Writer

/-! ### Runs -/

/-- Objects that follow one another without a boundary between periods. -/
def StreamObject.InOnePeriod (millis : UInt64) (os : List StreamObject) : Prop :=
  os.IsChain fun x y => x.timestamp.periodIn millis = y.timestamp.periodIn millis

lemma StreamObject.inOnePeriod_concat {millis : UInt64} {os : List StreamObject}
    {o : StreamObject} : InOnePeriod millis (os ++ [o]) ↔ InOnePeriod millis os ∧
      ∀ x ∈ os.getLast?, x.timestamp.periodIn millis = o.timestamp.periodIn millis := by
  rw [InOnePeriod, List.isChain_append]
  simp [InOnePeriod]

namespace Stage

variable [Storage σ ω] {config : Config} {t t₁ : Stage σ ω} {x : Step} {steps : List Step}
  {s₀ : Surroundings σ}

/-- What a step does to what the writer keeps in mind: it takes an object, or it does not. -/
inductive Minds (t : Stage σ ω) (t₁ : Stage σ ω) : Step → Prop where
  | takes {o : StreamObject} (running : t.writer.stopped = false)
      (accepted : t₁.accepted = t.accepted ++ [o])
      (memory : t₁.writer.memory = t.writer.memory.add o)
      (attentive : t.writer.Attentive → t₁.writer.Attentive)
      (heeds : t₁.writer.completeWindow = true →
        t.writer.Heeds t.world t₁.writer t₁.world) : Minds t t₁ (.call (.add o))
  | bears {x : Step} (accepted : t₁.accepted = t.accepted)
      (bears : t.writer.Bears x t.world t₁.writer t₁.world)
      (refused : ∀ o, x = .call (.add o) → t₁.writer.stopped = true) : Minds t t₁ x

/-- **Every step** is one of the two. -/
theorem minds (h : t.step x = some t₁) : t.Minds t₁ x := by
  cases x with
  | outside i =>
    cases h
    exact .bears rfl (.of_memory rfl (.of_same rfl) (.inr rfl)) nofun
  | call op =>
    obtain ⟨⟨⟨reply, w⟩, s⟩, happly, rfl⟩ := Option.map_eq_some_iff.mp h
    by_cases hop : ∃ o, op = .add o
    · obtain ⟨o, rfl⟩ := hop
      obtain ⟨r, s₁, hadd, hreply⟩ := bind_eq_some.mp happly
      cases hstopped : t.writer.stopped with
      | true =>
        rw [Writer.add_of_stopped hstopped] at hadd
        cases hadd
        cases hreply
        exact .bears (List.append_nil _) (.of_memory rfl (.refl _) (.inr rfl)) fun _ _ => hstopped
      | false =>
        obtain ⟨w', rfl, hm, hattentive, hheeds⟩ := Writer.gives_add hstopped _ _ _ hadd
        cases hreply
        exact .takes hstopped rfl hm hattentive hheeds
    · have hne : ∀ o, op ≠ .add o := fun o ho => hop ⟨o, ho⟩
      obtain ⟨hbears, htaken⟩ := t.writer.gives_bears t.world hne _ _ happly
      refine .bears ?_ hbears fun o ho => (hne o (by simpa using ho)).elim
      show t.accepted ++ op.taken reply = t.accepted
      rw [htaken, List.append_nil]

/-- The writer keeps in mind the configuration and the period of the last object, wherever a run has
come to. -/
structure Mindful (config : Config) (t : Stage σ ω) : Prop where
  clock : t.writer.clock.millis = config.periodMillis
  last : t.writer.lastPeriod =
    t.accepted.getLast?.map fun o => o.timestamp.periodIn config.periodMillis
  attentive : t.writer.Attentive
  config : t.writer.config = config

omit [Storage σ ω] in
lemma mindful_start (h : start config s₀ = some t) :
    t.Mindful config ∧ t.accepted = [] ∧ t.writer.completeWindow = config.completeWindow := by
  obtain ⟨-, clock, hclock, rfl⟩ := start_eq_some_iff.mp h
  exact ⟨⟨Config.clock_eq_ok_iff.mp hclock, rfl, Writer.attentive_of_idle rfl, rfl⟩, rfl, rfl⟩

lemma Mindful.step (ht : t.Mindful config) (h : t.step x = some t₁) : t₁.Mindful config := by
  cases minds h with
  | takes running accepted memory attentive heeds =>
    refine ⟨(congrArg (·.clock.millis) memory).trans ht.clock, ?_, attentive ht.attentive,
      (congrArg Memory.config memory).trans ht.config⟩
    rw [accepted, List.getLast?_concat]
    refine (congrArg Memory.lastPeriod memory).trans ?_
    show some (Timestamp.periodIn _ t.writer.clock.millis) = _
    rw [ht.clock]
    rfl
  | bears accepted bears refused =>
    exact ⟨(congrArg _ bears.clock).trans ht.clock, by rw [bears.lastPeriod, ht.last, accepted],
      bears.attentive ht.attentive, bears.config.trans ht.config⟩

lemma run_append {more : List Step} : run (steps ++ more) t = (run steps t).bind (run more) :=
  List.foldlM_append

lemma run_concat : run (steps ++ [x]) t = (run steps t).bind (step · x) := by
  rw [run_append]
  exact Option.bind_congr fun u _ => bind_pure (u.step x)

lemma Mindful.run (ht : t.Mindful config) (h : run steps t = some t₁) : t₁.Mindful config := by
  induction steps using List.reverseRecOn generalizing t₁ with
  | nil =>
    cases h
    exact ht
  | append_singleton steps x ih =>
    rw [run_concat, Option.bind_eq_some_iff] at h
    obtain ⟨u, hu, hstep⟩ := h
    exact (ih hu).step hstep

/-- **What has been kept in mind**, wherever a run has come to. -/
theorem mindful (h : (start config s₀).bind (run steps) = some t) : t.Mindful config := by
  obtain ⟨u, hu, hrun⟩ := Option.bind_eq_some_iff.mp h
  exact (mindful_start hu).1.run hrun

omit [Storage σ ω] in
lemma Mindful.policy_add {o : StreamObject} (ht : t.Mindful config)
    (hm : t₁.writer.memory = t.writer.memory.add o) : t₁.writer.completeWindow = true ↔
      t.writer.completeWindow = true ∧ ∀ x ∈ t.accepted.getLast?,
        x.timestamp.periodIn config.periodMillis = o.timestamp.periodIn config.periodMillis := by
  have hpolicy : t₁.writer.completeWindow = (t.writer.completeWindow &&
      t.writer.lastPeriod.all (· = o.timestamp.periodIn t.writer.clock.millis)) :=
    congrArg Memory.completeWindow hm
  rw [hpolicy, ht.last, ht.clock]
  cases t.accepted.getLast? <;> simp

/-- **The policy lasts until the first boundary** after it was switched on, and it is heeded. The
induction is from the end of the steps: the last object is compared with the one before it. -/
theorem policy_run {t₀ : Stage σ ω} (ht₀ : t₀.Mindful config)
    (hon : t₀.writer.completeWindow = true)
    (hleft : ∀ on, .call (.setCompleteWindow on) ∉ steps) (h : run steps t₀ = some t) :
    ∃ new, t.accepted = t₀.accepted ++ new ∧
      (t.writer.completeWindow = true ↔ StreamObject.InOnePeriod config.periodMillis
        (t₀.accepted.getLast?.toList ++ new)) ∧
      (t.writer.completeWindow = true → t₀.writer.Heeds t₀.world t.writer t.world) := by
  induction steps using List.reverseRecOn generalizing t with
  | nil =>
    cases h
    refine ⟨[], (List.append_nil _).symm, ?_, fun _ => .refl _ _⟩
    cases t₀.accepted.getLast? <;> simp [hon, StreamObject.InOnePeriod]
  | append_singleton steps x ih =>
    rw [run_concat, Option.bind_eq_some_iff] at h
    obtain ⟨u, hu, hstep⟩ := h
    obtain ⟨new, hnew, hiff, hheeds⟩ :=
      ih (fun on hmem => hleft on (List.mem_append_left _ hmem)) hu
    have hx : ∀ on, x ≠ .call (.setCompleteWindow on) := fun on hx =>
      hleft on (hx ▸ List.mem_append_right _ (List.mem_singleton.mpr rfl))
    cases minds hstep with
    | bears accepted bears refused =>
      have hpolicy := bears.policy hx
      exact ⟨new, accepted.trans hnew, by rw [hpolicy, hiff],
        fun hon' => (hheeds (hpolicy ▸ hon')).trans bears.heeds⟩
    | @takes o running accepted memory attentive heeds =>
      have hpolicy := (ht₀.run hu).policy_add memory
      refine ⟨new ++ [o], by rw [accepted, hnew, List.append_assoc], ?_,
        fun hon' => (hheeds (hpolicy.mp hon').1).trans (heeds hon')⟩
      have hlast : (t₀.accepted.getLast?.toList ++ new).getLast? = u.accepted.getLast? := by
        rw [hnew, List.getLast?_append, List.getLast?_append]
        cases t₀.accepted.getLast? <;> rfl
      rw [hpolicy, hiff, ← List.append_assoc, StreamObject.inOnePeriod_concat, hlast]

/-- **The next file starts from the last object** that was taken, if since then no running hash has
been set or cleared. -/
theorem link_run {o : StreamObject} {earlier later : List Step}
    (h : run (earlier ++ .call (.add o) :: later) t = some t₁)
    (hkeeps : ∀ op ∈ Step.calls later, op.keeps = true) (hrunning : t₁.writer.stopped = false)
    {x : StreamObject} (hx : t₁.accepted.getLast? = some x) : t₁.writer.runningHash = x.link := by
  induction later using List.reverseRecOn generalizing t₁ with
  | nil =>
    rw [run_concat, Option.bind_eq_some_iff] at h
    obtain ⟨u, -, hstep⟩ := h
    cases minds hstep with
    | bears accepted bears refused =>
      rw [refused o rfl] at hrunning
      cases hrunning
    | takes running accepted memory attentive heeds =>
      rw [accepted, List.getLast?_concat] at hx
      cases hx
      exact congrArg Memory.runningHash memory
  | append_singleton later y ih =>
    rw [← List.cons_append, ← List.append_assoc, run_concat, Option.bind_eq_some_iff] at h
    obtain ⟨u, hu, hstep⟩ := h
    rw [Step.calls_append, List.forall_mem_append] at hkeeps
    cases minds hstep with
    | takes running accepted memory attentive heeds =>
      rw [accepted, List.getLast?_concat] at hx
      cases hx
      exact congrArg Memory.runningHash memory
    | bears accepted bears refused =>
      refine (bears.link fun op hop => ?_).trans
        (ih hu hkeeps.1 (bears.running hrunning) (accepted ▸ hx))
      subst hop
      exact hkeeps.2 op (List.mem_singleton.mpr rfl)

end Stage

end SealedStream
