import SealedStream.Proofs.Stream.Grouping

/-!
The course of a writer that waits for a complete window: it passes over the objects of the first
period, and makes groups of those that come later.
-/

namespace SealedStream

def StreamObject.periodWindow (o : StreamObject) (millis : UInt64) : Window :=
  ⟨o.timestamp.periodIn millis, .unaligned⟩

/-- The objects in front of the first boundary between periods. -/
def firstPeriod (millis : UInt64) : List StreamObject → List StreamObject
  | [] => []
  | o :: os => o :: os.takeWhile ((o.periodWindow millis).takes millis)

def laterPeriods (millis : UInt64) : List StreamObject → List StreamObject
  | [] => []
  | o :: os => os.dropWhile ((o.periodWindow millis).takes millis)

variable {millis : UInt64} {o o' : StreamObject} {os : List StreamObject}

lemma firstPeriod_append (millis : UInt64) (os : List StreamObject) :
    firstPeriod millis os ++ laterPeriods millis os = os := by
  cases os with
  | nil => rfl
  | cons o os => rw [firstPeriod, laterPeriods, List.cons_append, List.takeWhile_append_dropWhile]

lemma StreamObject.periodWindow_takes :
    (o.periodWindow millis).takes millis o' = true ↔
      o.timestamp.periodIn millis = o'.timestamp.periodIn millis := by
  show decide (o.timestamp.periodIn millis = o'.timestamp.periodIn millis) = true ↔ _
  exact decide_eq_true_iff

/-! ### What is past -/

namespace Course

variable {clock : PeriodClock} {c : Course} {st : Stretch} {ps : List Stretch}

def behind (ps : List Stretch) (c : Course) : Course := { c with past := ps ++ c.past }

@[simp] lemma stretches_behind (ps : List Stretch) (c : Course) :
    (c.behind ps).stretches = ps ++ c.stretches := by
  simp [behind, stretches]

@[simp] lemma current_behind (ps : List Stretch) (c : Course) : (c.behind ps).current = c.current :=
  rfl

lemma leave_behind (ps : List Stretch) (c : Course) :
    (c.behind ps).leave = c.leave.behind ps := by
  simp [behind, leave]

lemma add_behind (ps : List Stretch) (c : Course) (o : StreamObject) :
    (c.behind ps).add clock o = (c.add clock o).behind ps := by
  have hnotice (period : Int64) : (c.behind ps).notice period = (c.notice period).behind ps := by
    unfold notice
    show (if c.completeWindow && c.crosses period then _ else _) = _
    split <;> rfl
  have hleave (d : Course) (alignment : Alignment) (period : Int64) :
      (d.behind ps).leaveFor alignment period = (d.leaveFor alignment period).behind ps := by
    rw [leaveFor, current_behind, leaveFor]
    cases d.current with
    | none => rfl
    | some st =>
      simp only
      split
      · rfl
      · exact leave_behind ps d
  have henter (d : Course) (period : Int64) :
      (d.behind ps).enter o period = (d.enter o period).behind ps := by
    rw [enter, current_behind, enter]
    cases d.current <;> rfl
  unfold add
  show (if c.stopped then _ else _) = _
  split
  · rfl
  · simp only [hnotice, hleave, henter]
    rfl

/-- **What is past** has no part in what comes. -/
lemma run_behind (ps : List Stretch) (c : Course) (os : List StreamObject) :
    (c.behind ps).run clock (os.map .add) = (c.run clock (os.map .add)).behind ps := by
  induction os generalizing c with
  | nil => rfl
  | cons o os ih =>
    show ((c.behind ps).add clock o).run clock (os.map .add) = _
    rw [add_behind, ih]
    rfl

/-! ### Waiting -/

/-- The writer passes over the period of an object. -/
structure Waiting (clock : PeriodClock) (c : Course) (o : StreamObject) (st : Stretch) : Prop where
  running : c.stopped = false
  policy : c.completeWindow = true
  current : c.current = some st
  window : st.window = o.periodWindow clock.millis
  last : c.lastPeriod = some (clock.period o.timestamp)

def passing (clock : PeriodClock) (c : Course) (o : StreamObject) : Stretch :=
  ⟨o.periodWindow clock.millis, c.origin, o.timestamp, [o], false⟩

lemma add_waiting_first (hs : c.stopped = false) (hw : c.completeWindow = true)
    (hc : c.current = none) (hl : c.lastPeriod = none) (o : StreamObject) : c.add clock o =
      { c with
        current := some (c.passing clock o)
        origin := .after o
        lastPeriod := some (clock.period o.timestamp) } := by
  simp [add, notice, crosses, leaveFor, enter, opened, take, pass, passing, hs, hw, hc, hl,
    StreamObject.periodWindow, PeriodClock.period]

lemma waiting_first (hs : c.stopped = false) (hw : c.completeWindow = true)
    (hc : c.current = none) (hl : c.lastPeriod = none) (o : StreamObject) :
    (c.add clock o).Waiting clock o (c.passing clock o) := by
  rw [add_waiting_first hs hw hc hl]
  exact ⟨hs, hw, rfl, rfl, rfl⟩

lemma Waiting.add_inside (h : c.Waiting clock o st)
    (hin : (o.periodWindow clock.millis).takes clock.millis o' = true) : c.add clock o' =
      { c with
        current := some { st with objects := st.objects ++ [o'] }
        origin := .after o'
        lastPeriod := some (clock.period o.timestamp) } := by
  have hperiod : clock.period o'.timestamp = clock.period o.timestamp :=
    (StreamObject.periodWindow_takes.mp hin).symm
  have hcontains : st.window.contains o'.alignment (clock.period o.timestamp) = true := by
    rw [h.window]
    exact Window.contains_of_period _ _
  simp [add, notice, crosses, leaveFor, enter, take, pass, h.running, h.policy, h.current, h.last,
    hperiod, hcontains]

lemma Waiting.add_outside (h : c.Waiting clock o st)
    (hout : (o.periodWindow clock.millis).takes clock.millis o' = false) : c.add clock o' =
      behind (c.past ++ [st])
        { c with
          past := []
          current := some (c.opening clock o')
          origin := .after o'
          completeWindow := false
          lastPeriod := some (clock.period o'.timestamp) } := by
  have hperiod : clock.period o.timestamp ≠ clock.period o'.timestamp := fun heq => by
    rw [StreamObject.periodWindow_takes.mpr heq] at hout
    cases hout
  have hcontains :
      st.window.contains o'.alignment (o'.timestamp.periodIn clock.millis) = false := by
    rw [h.window]
    exact hout
  have hnotice : c.notice (clock.period o'.timestamp) = { c with completeWindow := false } := by
    have hcrosses : c.crosses (clock.period o'.timestamp) = true := by
      rw [crosses, h.last]
      exact decide_eq_true hperiod
    rw [notice, h.policy, hcrosses]
    rfl
  rw [add_eq h.running, hnotice]
  simp [leaveFor, leave, enter, opened, take, pass, opening, behind, h.current, hcontains,
    StreamObject.window, PeriodClock.period]

/-- While it waits, a course passes over the period and then makes groups of the rest. -/
lemma Waiting.run_adds (h : c.Waiting clock o st) (os : List StreamObject) :
    ∃ rest, (c.run clock (os.map .add)).stretches =
        c.past ++ { st with
          objects := st.objects ++
            os.takeWhile ((o.periodWindow clock.millis).takes clock.millis) } :: rest ∧
      rest.map Stretch.objects = groups clock.millis
        (os.dropWhile ((o.periodWindow clock.millis).takes clock.millis)) ∧
      ∀ st ∈ rest, st.Opened clock.millis := by
  induction os generalizing c st with
  | nil =>
    refine ⟨[], ?_, by simp, nofun⟩
    show c.stretches = _
    simp [stretches, h.current]
  | cons x os ih =>
    rw [List.map_cons]
    show ∃ rest, ((c.add clock x).run clock (os.map .add)).stretches = _ ∧ _
    cases hin : (o.periodWindow clock.millis).takes clock.millis x with
    | true =>
      rw [h.add_inside hin]
      obtain ⟨rest, hstretches, hrest⟩ := ih (c :=
        { c with
          current := some { st with objects := st.objects ++ [x] }
          origin := .after x
          lastPeriod := some (clock.period o.timestamp) }) ⟨h.running, h.policy, rfl, h.window, rfl⟩
      refine ⟨rest, ?_, by simpa [hin] using hrest⟩
      rw [hstretches]
      simp [hin]
    | false =>
      rw [h.add_outside hin, run_behind, stretches_behind]
      have hopening : ∀ st' ∈ [c.opening clock x], st'.Opened clock.millis := fun st' hst' => by
        obtain rfl := List.mem_singleton.mp hst'
        exact opened_opening clock c x
      obtain ⟨hgroups, hopened⟩ := Course.run_adds (c :=
        { c with
          past := []
          current := some (c.opening clock x)
          origin := .after x
          completeWindow := false
          lastPeriod := some (clock.period x.timestamp) }) os h.running rfl rfl hopening
      refine ⟨_, by simp [hin], ?_, hopened⟩
      rw [hgroups]
      simp [hin, groups_cons, opening]

/-- **The course of a batch for a writer that waits**: one stretch that is not kept, and groups. -/
theorem run_batch_waiting (clock : PeriodClock) (initial : Hash) (o : StreamObject)
    (os : List StreamObject) :
    ((start true).run clock (Operation.batch initial (o :: os))).current = none ∧
      ∃ rest, ((start true).run clock (Operation.batch initial (o :: os))).past =
          ⟨o.periodWindow clock.millis, .given initial, o.timestamp,
            firstPeriod clock.millis (o :: os), false⟩ :: rest ∧
        rest.map Stretch.objects = groups clock.millis (laterPeriods clock.millis (o :: os)) ∧
        ∀ st ∈ rest, st.Opened clock.millis := by
  have hrun : (start true).run clock (Operation.batch initial (o :: os)) =
      ((add clock { start true with origin := .given initial } o).run clock (os.map .add)).step
        clock .close := by
    rw [Operation.batch, run, List.foldl_cons, List.foldl_append]
    rfl
  rw [hrun]
  refine ⟨rfl, ?_⟩
  show ∃ rest, stretches _ = _ ∧ _
  have hwaits : (add clock { start true with origin := .given initial } o).Waiting clock o _ :=
    waiting_first rfl rfl rfl rfl o
  obtain ⟨rest, hstretches, hrest⟩ := hwaits.run_adds os
  refine ⟨rest, ?_, hrest⟩
  rw [hstretches, add_waiting_first rfl rfl rfl rfl]
  rfl

/-! ### Either way -/

lemma current_batch (clock : PeriodClock) (completeWindow : Bool) (initial : Hash)
    (os : List StreamObject) :
    ((start completeWindow).run clock (Operation.batch initial os)).current = none := by
  rw [Operation.batch, run, List.foldl_cons, List.foldl_append]
  rfl

/-- **The windows of a batch hold its objects**, each of them once and in order. -/
theorem objects_batch (clock : PeriodClock) (completeWindow : Bool) (initial : Hash)
    (os : List StreamObject) :
    ((start completeWindow).run clock (Operation.batch initial os)).past.flatMap
      Stretch.objects = os := by
  cases completeWindow with
  | false =>
    obtain ⟨-, hgroups, -⟩ := run_batch clock initial os
    rw [List.flatMap_def, hgroups, flatten_groups]
  | true =>
    cases os with
    | nil => rfl
    | cons o os =>
      obtain ⟨-, rest, hpast, hgroups, -⟩ := run_batch_waiting clock initial o os
      rw [hpast, List.flatMap_cons, List.flatMap_def, hgroups, flatten_groups, firstPeriod_append]

/-- **No two windows of a batch have one time**, whether the writer waits or not. -/
theorem nodup_batch (clock : PeriodClock) (completeWindow : Bool) (initial : Hash)
    (hsorted : os.Pairwise fun x y : StreamObject => x.timestamp ≤ y.timestamp) :
    (((start completeWindow).run clock (Operation.batch initial os)).stretches.map
      Stretch.time).Nodup := by
  rw [stretches, current_batch, Option.toList_none, List.append_nil]
  cases completeWindow with
  | false =>
    obtain ⟨-, hgroups, hopened⟩ := run_batch clock initial os
    exact Stretch.nodup_times hgroups hopened hsorted
  | true =>
    cases os with
    | nil => exact .nil
    | cons o os =>
      obtain ⟨-, rest, hpast, hgroups, hopened⟩ := run_batch_waiting clock initial o os
      have hlater : (laterPeriods clock.millis (o :: os)).Sublist os := List.dropWhile_sublist _
      rw [hpast, List.map_cons, List.nodup_cons]
      refine ⟨fun hmem => ?_, Stretch.nodup_times hgroups hopened
        ((List.pairwise_cons.mp hsorted).2.sublist hlater)⟩
      -- the first period is left behind when the second window opens
      obtain ⟨st, hst, htime⟩ := List.mem_map.mp hmem
      obtain ⟨x, hx, htime'⟩ := (hopened st hst).time_mem (hgroups ▸ List.mem_map_of_mem hst)
      exact ne_of_mem_dropWhile (w := o.periodWindow clock.millis) rfl hsorted hx
        (htime.symm.trans htime')

end Course

end SealedStream
