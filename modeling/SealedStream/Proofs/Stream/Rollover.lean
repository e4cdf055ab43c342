import SealedStream.Proofs.Stream.Delivery
import SealedStream.Proofs.Writer.Passing

/-!
Where an object of no block ends the open file: at a boundary between periods, but it is the period
of the file's first object that counts. A block can have carried the file into later ones.
-/

namespace SealedStream

/-! ### Windows and their objects -/

/-- The objects of a stretch belong to its window, which its first one has opened if the stretch is
to be written. -/
structure Stretch.Framed (millis : UInt64) (st : Stretch) : Prop where
  opened : st.kept = true → st.Opened millis
  takes : ∀ x ∈ st.objects, st.window.takes millis x = true

variable {millis : UInt64} {st : Stretch} {o x y : StreamObject} {os g : List StreamObject}

lemma Stretch.Framed.snoc (h : st.Framed millis) (hx : st.window.takes millis x = true) :
    ({ st with objects := st.objects ++ [x] } : Stretch).Framed millis where
  opened hkept := (h.opened hkept).snoc x
  takes y hy := by
    rcases List.mem_append.mp hy with hy | hy
    · exact h.takes y hy
    · rw [List.mem_singleton.mp hy]
      exact hx

lemma Window.takes_of_period {w : Window} (hw : w.period = x.timestamp.periodIn millis) :
    w.takes millis x = true := by
  rw [takes, ← hw]
  exact contains_of_period _ _

/-- **For an object of no block** only the period counts. -/
lemma Window.takes_unaligned_iff {w : Window} (hx : x.alignment = .unaligned) :
    w.takes millis x = true ↔ w.period = x.timestamp.periodIn millis := by
  rw [takes, contains, hx]
  cases w.alignment <;> simp [Alignment.sameBlock]

namespace Course

variable {clock : PeriodClock} {c : Course}

def Framed (millis : UInt64) (c : Course) : Prop := ∀ st ∈ c.stretches, st.Framed millis

lemma framed_start (completeWindow : Bool) : (start completeWindow).Framed millis := by
  rintro _ ⟨⟩

lemma framed_opened (c : Course) (o : StreamObject) :
    ({ c.opened o (o.timestamp.periodIn millis) with objects := [o] } : Stretch).Framed millis := by
  have hperiod : (c.opened o (o.timestamp.periodIn millis)).window.period =
      o.timestamp.periodIn millis := by
    unfold opened
    split <;> rfl
  refine ⟨fun hkept => ⟨hkept, o, [], rfl, ?_⟩, fun x hx => ?_⟩
  · unfold opened at hkept ⊢
    split
    · rename_i hwaits
      rw [if_pos hwaits] at hkept
      cases hkept
    · exact ⟨rfl, rfl⟩
  · rw [List.mem_singleton.mp hx]
    exact Window.takes_of_period hperiod

lemma Framed.step (h : c.Framed clock.millis) (op : Operation) :
    (c.step clock op).Framed clock.millis :=
  forall_step h (fun _ _ hst hin => hst.snoc hin) (fun o => framed_opened _ o)
    (fun _ hst => ⟨nofun, hst.takes⟩) op

/-- **Windows and their objects**, wherever a course has come to. -/
lemma Framed.run (h : c.Framed clock.millis) (ops : List Operation) :
    (c.run clock ops).Framed clock.millis := by
  induction ops generalizing c with
  | nil => exact h
  | cons op ops ih => exact ih (h.step op)

/-! ### One more object -/

lemma stopped_adds (clock : PeriodClock) (c : Course) (os : List StreamObject) :
    (c.run clock (os.map .add)).stopped = c.stopped := by
  induction os generalizing c with
  | nil => rfl
  | cons o os ih => exact (ih (c.add clock o)).trans (stopped_add clock c o)

lemma add_of_takes (hs : c.stopped = false) (hc : c.current = some st)
    (hin : st.window.takes clock.millis o = true) :
    (c.add clock o).past = c.past ∧
      (c.add clock o).current = some { st with objects := st.objects ++ [o] } := by
  have hd : (c.notice (clock.period o.timestamp)).leaveFor o.alignment (clock.period o.timestamp) =
      c.notice (clock.period o.timestamp) := by
    unfold leaveFor
    rw [current_notice, hc]
    exact if_pos hin
  rw [add_eq hs, hd, past_receive, past_notice]
  refine ⟨rfl, ?_⟩
  simp [enter, take, pass, current_notice, hc]

lemma add_of_not_takes (hs : c.stopped = false) (hc : c.current = some st)
    (hout : st.window.takes clock.millis o = false) :
    (c.add clock o).past = c.past ++ [st] := by
  have hd : (c.notice (clock.period o.timestamp)).leaveFor o.alignment (clock.period o.timestamp) =
      (c.notice (clock.period o.timestamp)).leave := by
    unfold leaveFor
    rw [current_notice, hc]
    exact if_neg (Bool.eq_false_iff.mp hout)
  rw [add_eq hs, hd, past_receive, leave, past_notice, current_notice, hc]
  rfl

end Course

/-! ### Accounts of one more object -/

section

variable {σ ω : Type} [Storage σ ω] {G : Setting σ ω} {pubs pubs₁ : List Publication} {c : Course}
  {w w₁ : Writer ω} {s s₁ : Surroundings σ} {file : OpenFile ω}

lemma Account.placed_eq (h : Account G pubs c w s) (hs : Steady G pubs c w s) :
    s.placed = (c.past.filter G.fresh).filterMap G.config.recordPath? := by
  rw [h.records.placed, h.records.published.paths, hs.all]

/-- **An object that belongs to the open file** is put into it. -/
lemma Account.goes_on (h : Account G pubs c w s) (hs : Steady G pubs c w s)
    (h₁ : Account G pubs₁ (c.add G.clock y) w₁ s₁) (hs₁ : Steady G pubs₁ (c.add G.clock y) w₁ s₁)
    (hrunning : c.stopped = false) (hst : c.current = some st) (hwrites : Writes G st file s)
    (hin : st.window.takes G.clock.millis y = true) :
    s₁.placed = s.placed ∧ ∃ file', w₁.phase = .writing file' ∧
      Writes G { st with objects := st.objects ++ [y] } file' s₁ := by
  obtain ⟨hpast, hcurrent⟩ := Course.add_of_takes hrunning hst hin
  refine ⟨by rw [h₁.placed_eq hs₁, h.placed_eq hs, hpast], ?_⟩
  obtain ⟨file', hphase⟩ := hs₁.writing hcurrent hwrites.fresh
  obtain ⟨st', hst', hwrites'⟩ := h₁.opened hphase
  cases hcurrent.symm.trans hst'
  exact ⟨file', hphase, hwrites'⟩

/-- **One that does not belong to it** has it closed and put in place. -/
lemma Account.rolls_over (h : Account G pubs c w s) (hs : Steady G pubs c w s)
    (h₁ : Account G pubs₁ (c.add G.clock y) w₁ s₁) (hs₁ : Steady G pubs₁ (c.add G.clock y) w₁ s₁)
    (hrunning : c.stopped = false) (hst : c.current = some st) (hwrites : Writes G st file s)
    (hout : st.window.takes G.clock.millis y = false) :
    s₁.placed = s.placed ++ [file.path] := by
  have hpath : G.config.recordPath? st = some file.path := by
    rw [Config.recordPath?, hwrites.name]
    rfl
  rw [h₁.placed_eq hs₁, h.placed_eq hs, Course.add_of_not_takes hrunning hst hout,
    List.filter_append, List.filterMap_append, List.filter_singleton, hwrites.fresh, cond_true,
    List.filterMap_cons_some hpath, List.filterMap_nil]

end

/-! ### Feeding objects -/

def Operation.feeding (initial : Hash) (os : List StreamObject) : List Operation :=
  .setRunningHash initial :: os.map .add

lemma Operation.feeding_concat (initial : Hash) (os : List StreamObject) (y : StreamObject) :
    feeding initial (os ++ [y]) = feeding initial os ++ [.add y] := by
  rw [feeding, List.map_append]
  rfl

namespace Outset

variable {σ ω : Type} [Storage σ ω] {b : Outset σ ω} {config : Config} {initial : Hash}

namespace Serves

variable (h : b.Serves config)

lemma stretches_feeding (initial : Hash) (os : List StreamObject) :
    (h.course (Operation.feeding initial os)).stretches =
      (h.course (Operation.batch initial os)).past := by
  rw [← h.stretches_batch, show Operation.batch initial os =
    Operation.feeding initial os ++ [.close] from rfl, h.course_concat]
  exact (Course.stretches_leave _).symm

lemma objects_feeding (initial : Hash) (os : List StreamObject) :
    (h.course (Operation.feeding initial os)).objects = os := by
  rw [Course.objects, h.stretches_feeding, h.objects_batch]

lemma stopped_feeding (initial : Hash) (os : List StreamObject) :
    (h.course (Operation.feeding initial os)).stopped = false :=
  Course.stopped_adds h.plain.clock _ os

/-- **The current window** of objects that are fed: the last of them, if it is to be written, and
from the one on that has opened it. -/
lemma current_feeding
    (hst : (h.course (Operation.feeding initial os)).current = some st) (hkept : st.kept = true) :
    ∃ front o g, os = front ++ o :: g ∧ st.objects = o :: g ∧
      st.window = o.window config.periodMillis ∧ st.time = o.timestamp ∧
      ∀ x ∈ o :: g, (o.window config.periodMillis).takes config.periodMillis x = true := by
  have hmem := Course.mem_stretches_of_current hst
  have hstart : (Course.start config.completeWindow).Framed h.plain.clock.millis :=
    Course.framed_start _
  have hframed : st.Framed config.periodMillis := hstart.run _ st hmem
  obtain ⟨o, g, hobjects, hwindow, htime⟩ := (hframed.opened hkept).head
  have hos := h.objects_feeding initial os
  rw [Course.objects, Course.stretches, hst, Option.toList_some, List.flatMap_append,
    List.flatMap_singleton, hobjects] at hos
  have htakes := hframed.takes
  rw [hobjects, hwindow] at htakes
  exact ⟨_, o, g, hos.symm, hobjects, hwindow, htime, htakes⟩

end Serves

/-- **Objects are fed to a writer** while nothing fails: no window that could be written is
missed. -/
lemma run_feeding (h : b.Serves config) (hd : b.Dependable config) (hcalm : b.meanwhile = [])
    (initial : Hash) (hsorted : os.Pairwise fun x y : StreamObject => x.timestamp ≤ y.timestamp)
    (hnamed : ∀ x ∈ os, ∃ text, x.timestamp.toIso = .ok text) (hfits : ∀ x ∈ os, x.item.Fits)
    (hresolved : ∀ x ∈ os, ∃ k, b.pipeline.Holds x.link k) :
    ∃ t pubs, b.reached config ((Operation.feeding initial os).map .call) = some t ∧
      Account (h.straight True fun _ => hd) pubs
        (h.course (Operation.feeding initial os)) t.writer t.world ∧
      Steady (h.straight True fun _ => hd) pubs
        (h.course (Operation.feeding initial os)) t.writer t.world := by
  have hops : b.Provides (Operation.feeding initial os) :=
    ⟨fun {x} hx => hresolved x (by simpa [Operation.feeding] using hx),
      fun {x} hx => hnamed x (by simpa [Operation.feeding] using hx)⟩
  have hstarts : Operation.startsFrom initial (Operation.feeding initial os) = true := by
    simp [Operation.feeding, Operation.startsFrom, Operation.keeps]
  have hdistinct : ((h.course (Operation.feeding initial os)).stretches.map Stretch.time).Nodup :=
    h.stretches_feeding initial os ▸ h.nodup_batch hsorted
  obtain ⟨t, pubs, ht, account⟩ := account_straight h (fun _ : True => hd) hcalm hops
    hstarts (by simp [Operation.feeding]) (by simp [Operation.feeding]) hdistinct
  refine ⟨t, pubs, ht, account, account.steady_of_fits trivial trivial fun st hst x hx => ?_⟩
  rw [h.stretches_feeding] at hst
  exact hfits x (h.mem_batch_of_past hst x hx)

/-! ### Rolling over -/

/-- The writer has a file open that holds an object, which has opened its window, and others behind
it. -/
structure Collects (b : Outset σ ω) (config : Config) (t : Stage σ ω) (file : OpenFile ω)
    (o : StreamObject) (g : List StreamObject) : Prop where
  phase : t.writer.phase = .writing file
  name : Naming.recordPath config.exportDir o.timestamp config.kind = .ok file.path
  window : file.window = o.window config.periodMillis
  holds : file.Holds b.view config.kind ((o :: g).map StreamObject.item) t.world.storage

lemma collects_of_writes {h : b.Serves config} {reliable : Prop}
    {hd : reliable → b.Dependable config} {t : Stage σ ω} {file : OpenFile ω}
    (hphase : t.writer.phase = .writing file)
    (hwrites : Writes (h.straight reliable hd) st file t.world) (hobjects : st.objects = o :: g)
    (hwindow : st.window = o.window config.periodMillis) (htime : st.time = o.timestamp) :
    b.Collects config t file o g where
  phase := hphase
  name := htime ▸ hwrites.name
  window := hwrites.window.trans hwindow
  holds := by
    have hholds := hwrites.holds
    rw [Stretch.items, hobjects] at hholds
    exact hholds

section

variable (h : b.Serves config) (hd : b.Dependable config) (hcalm : b.meanwhile = [])
  (initial : Hash)
  (hsorted : (os ++ [y]).Pairwise fun x y : StreamObject => x.timestamp ≤ y.timestamp)
  (hnamed : ∀ x ∈ os ++ [y], ∃ text, x.timestamp.toIso = .ok text)
  (hfits : ∀ x ∈ os ++ [y], x.item.Fits)
  (hresolved : ∀ x ∈ os ++ [y], ∃ k, b.pipeline.Holds x.link k)

include h hd hcalm hsorted hnamed hfits hresolved

/-- **What an object does to the open file**: it is put into it, or it has it closed and put in
place. -/
theorem add_collected :
    ∃ t t₁, b.reached config ((Operation.feeding initial os).map .call) = some t ∧
      t.step (.call (.add y)) = some t₁ ∧
      ∀ file, t.writer.phase = .writing file → ∃ front o g, os = front ++ o :: g ∧
        b.Collects config t file o g ∧
        (∀ x ∈ o :: g, (o.window config.periodMillis).takes config.periodMillis x = true) ∧
        ((o.window config.periodMillis).takes config.periodMillis y = true →
          t₁.world.placed = t.world.placed ∧ ∃ file', b.Collects config t₁ file' o (g ++ [y])) ∧
        ((o.window config.periodMillis).takes config.periodMillis y = false →
          t₁.world.placed = t.world.placed ++ [file.path]) := by
  obtain ⟨t₁, pubs₁, ht₁, account₁, hsteady₁⟩ :=
    run_feeding h hd hcalm initial hsorted hnamed hfits hresolved
  obtain ⟨t, pubs, ht, account, hsteady⟩ := run_feeding h hd hcalm initial
    (hsorted.sublist (List.sublist_append_left _ _)) (fun x hx => hnamed x (by simp [hx]))
    (fun x hx => hfits x (by simp [hx])) fun x hx => hresolved x (by simp [hx])
  rw [Operation.feeding_concat, List.map_append, List.map_singleton, reached_concat_iff] at ht₁
  obtain ⟨t', ht', hstep⟩ := ht₁
  cases ht.symm.trans ht'
  rw [Operation.feeding_concat, h.course_concat] at account₁ hsteady₁
  have hrunning := h.stopped_feeding initial os
  refine ⟨t, t₁, ht, hstep, fun file hphase => ?_⟩
  obtain ⟨st, hst, hwrites⟩ := account.opened hphase
  obtain ⟨front, o, g, hos, hobjects, hwindow, htime, htakes⟩ := h.current_feeding hst hwrites.kept
  refine ⟨front, o, g, hos, collects_of_writes hphase hwrites hobjects hwindow htime, htakes,
    fun hin => ?_, fun hout => ?_⟩
  · obtain ⟨hplaced, file', hphase', hwrites'⟩ :=
      account.goes_on hsteady account₁ hsteady₁ hrunning hst hwrites (hwindow ▸ hin)
    have hobjects' : st.objects ++ [y] = o :: (g ++ [y]) := by rw [hobjects]; rfl
    exact ⟨hplaced, file', collects_of_writes hphase' hwrites' hobjects' hwindow htime⟩
  · exact account.rolls_over hsteady account₁ hsteady₁ hrunning hst hwrites (hwindow ▸ hout)

/-- **Where an object of no block ends the open file.** Objects whose times do not go back, all of
which can be named and written, are handed to a new writer while nothing fails, the last of them an
object of no block. Then it has the open file closed and put in place just if it is not in the
period of the file's first object; else it is the next one in the file. So it can do this in the
period of the object before it, but only where this one was carried into the period by its block. -/
theorem unaligned_closes_iff (hunaligned : y.alignment = .unaligned) :
    ∃ t t₁, b.reached config ((Operation.feeding initial os).map .call) = some t ∧
      t.step (.call (.add y)) = some t₁ ∧
      ∀ file, t.writer.phase = .writing file → ∃ front o g, os = front ++ o :: g ∧
        b.Collects config t file o g ∧
        (o.timestamp.periodIn config.periodMillis = y.timestamp.periodIn config.periodMillis →
          t₁.world.placed = t.world.placed ∧ ∃ file', b.Collects config t₁ file' o (g ++ [y])) ∧
        (o.timestamp.periodIn config.periodMillis ≠ y.timestamp.periodIn config.periodMillis →
          t₁.world.placed = t.world.placed ++ [file.path] ∧
          ∀ x, os.getLast? = some x →
            x.timestamp.periodIn config.periodMillis = y.timestamp.periodIn config.periodMillis →
            o.alignment.sameBlock x.alignment = true) := by
  obtain ⟨t, t₁, ht, hstep, hopen⟩ := add_collected h hd hcalm initial hsorted hnamed hfits
    hresolved
  refine ⟨t, t₁, ht, hstep, fun file hphase => ?_⟩
  obtain ⟨front, o, g, rfl, hcollects, htakes, hin, hout⟩ := hopen file hphase
  have hiff : (o.window config.periodMillis).takes config.periodMillis y = true ↔
      o.timestamp.periodIn config.periodMillis = y.timestamp.periodIn config.periodMillis :=
    Window.takes_unaligned_iff hunaligned
  refine ⟨front, o, g, rfl, hcollects, fun hperiod => hin (hiff.mpr hperiod), fun hperiod =>
    ⟨hout (Bool.eq_false_iff.mpr fun htakes => hperiod (hiff.mp htakes)), fun x hx hsame => ?_⟩⟩
  -- what is last in the file is there by its block, if not by its period
  have hmem : x ∈ o :: g := by
    rw [List.getLast?_append_of_ne_nil _ (List.cons_ne_nil o g)] at hx
    exact List.mem_of_getLast? hx
  have htaken := htakes x hmem
  rw [Window.takes, Window.contains, Bool.or_eq_true, decide_eq_true_iff] at htaken
  exact htaken.resolve_right fun hfirst => hperiod (hfirst.trans hsame)

end

/-- An object of a block, one that the block has carried into the next period, and one of no block
in this period. -/
def carried : List StreamObject :=
  [⟨.of [1] [2], ⟨1, 0⟩, ⟨0⟩, .block 7⟩, ⟨.of [3] [], ⟨3, 0⟩, ⟨1⟩, .block 7⟩,
    ⟨.of [] [4], ⟨3, 500000000⟩, ⟨2⟩, .unaligned⟩]

/-- The third one ends the file of the others within the period of the second. -/
theorem unaligned_closes_carried : ∃ (t t₁ : Stage Disk DiskOutput) (file : OpenFile DiskOutput),
    (chained carried).reached .standard
      ((Operation.feeding .zero (carried.take 2)).map .call) = some t ∧
      t.step (.call (.add carried[2])) = some t₁ ∧ t.writer.phase = .writing file ∧
      t₁.world.placed = t.world.placed ++ [file.path] ∧
      carried[1].timestamp.periodIn Config.standard.periodMillis =
        carried[2].timestamp.periodIn Config.standard.periodMillis := by
  have hslot : ∀ x ∈ carried, x.link.slot < carried.length := by decide
  have hsorted : (carried.take 2 ++ [carried[2]]).Pairwise fun x y =>
      x.timestamp ≤ y.timestamp := by decide
  obtain ⟨t, t₁, ht, hstep, hopen⟩ := unaligned_closes_iff (serves_chained carried)
    (smooth_chained carried).dependable rfl .zero hsorted
    (fun x (hx : x ∈ carried) => named_of_isOk (by decide) hx)
    (show ∀ x ∈ carried, x.item.Fits by decide)
    (fun x (hx : x ∈ carried) => ⟨_, hslot x hx, rfl⟩) rfl
  -- the open file is of the period before
  have hwriting : ((chained carried).reached .standard
      ((Operation.feeding .zero (carried.take 2)).map .call)).any (fun t =>
        t.writer.isWriting && t.writer.phase.window?.all
          (·.period ≠ carried[2].timestamp.periodIn Config.standard.periodMillis)) = true := by
    decide +kernel
  rw [ht, Option.any_some, Bool.and_eq_true, Writer.isWriting_iff] at hwriting
  obtain ⟨⟨file, hphase⟩, hperiod⟩ := hwriting
  obtain ⟨front, o, g, -, hcollects, -, hcloses⟩ := hopen file hphase
  rw [hphase, Phase.window?, Option.all_some, hcollects.window, decide_eq_true_iff] at hperiod
  exact ⟨t, t₁, file, ht, hstep, hphase, (hcloses hperiod).1, by decide⟩

end Outset

end SealedStream
