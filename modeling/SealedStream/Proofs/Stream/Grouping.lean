import Mathlib.Data.List.TakeWhile
import SealedStream.Proofs.Time.Order
import SealedStream.Proofs.Writer.Runs

/-!
Greedy groups of objects, and the course that cuts a stream into just these groups.
-/

namespace SealedStream

def StreamObject.window (o : StreamObject) (millis : UInt64) : Window :=
  ⟨o.timestamp.periodIn millis, o.alignment⟩

def Window.takes (w : Window) (millis : UInt64) (o : StreamObject) : Bool :=
  w.contains o.alignment (o.timestamp.periodIn millis)

/-- Each group takes the objects behind its first one for as long as they belong to the window that
this opens. -/
def groups (millis : UInt64) : List StreamObject → List (List StreamObject)
  | [] => []
  | o :: os =>
    (o :: os.takeWhile ((o.window millis).takes millis)) ::
      groups millis (os.dropWhile ((o.window millis).takes millis))
termination_by os => os.length
decreasing_by exact Nat.lt_succ_of_le (List.dropWhile_sublist _).length_le

variable {millis : UInt64} {o o' : StreamObject} {os : List StreamObject}

@[simp] lemma groups_nil : groups millis [] = [] := by rw [groups]

lemma groups_cons : groups millis (o :: os) =
    (o :: os.takeWhile ((o.window millis).takes millis)) ::
      groups millis (os.dropWhile ((o.window millis).takes millis)) := by
  rw [groups]

lemma flatten_groups (millis : UInt64) (os : List StreamObject) :
    (groups millis os).flatten = os := by
  induction os using groups.induct millis with
  | case1 => rw [groups_nil, List.flatten_nil]
  | case2 o os ih =>
    rw [groups_cons, List.flatten_cons, ih, List.cons_append, List.takeWhile_append_dropWhile]

lemma groups_split {g : List StreamObject} {before after : List (List StreamObject)}
    (h : groups millis os = before ++ (o :: g) :: after) :
    (∀ x ∈ g, (o.window millis).takes millis x = true) ∧
      ∀ y ∈ after.flatten.head?, (o.window millis).takes millis y = false := by
  induction os using groups.induct millis generalizing before with
  | case1 => simp at h
  | case2 p os ih =>
    rw [groups_cons] at h
    cases before with
    | nil =>
      obtain ⟨⟨rfl, rfl⟩, rfl⟩ : (p = o ∧ _ = g) ∧ _ = after := by simpa using h
      rw [flatten_groups]
      refine ⟨fun x hx => List.mem_takeWhile_imp hx, fun y hy => ?_⟩
      have hhead := List.head?_dropWhile_not ((p.window millis).takes millis) os
      rw [hy] at hhead
      simpa using hhead
    | cons b before => exact ih (List.cons.inj h).2

/-- **More objects** go on with the last group, and then make groups of their own. -/
lemma groups_append {xs g : List StreamObject} {before : List (List StreamObject)}
    (h : groups millis xs = before ++ [o :: g]) (ys : List StreamObject) :
    groups millis (xs ++ ys) =
      before ++ (o :: g ++ ys.takeWhile ((o.window millis).takes millis)) ::
        groups millis (ys.dropWhile ((o.window millis).takes millis)) := by
  induction xs using groups.induct millis generalizing before with
  | case1 => simp at h
  | case2 p xs ih =>
    rw [groups_cons] at h
    have hflat := flatten_groups millis (xs.dropWhile ((p.window millis).takes millis))
    rw [List.cons_append, groups_cons]
    cases before with
    | nil =>
      obtain ⟨⟨rfl, hg⟩, hrest⟩ : (p = o ∧ xs.takeWhile ((p.window millis).takes millis) = g) ∧
          groups millis (xs.dropWhile ((p.window millis).takes millis)) = [] := by simpa using h
      rw [hrest, List.flatten_nil] at hflat
      have hxs : xs = g := by
        rw [← hg, ← List.append_nil (xs.takeWhile _), hflat, List.takeWhile_append_dropWhile]
      subst hxs
      have hall := List.takeWhile_eq_self_iff.mp hg
      rw [List.takeWhile_append_of_pos hall, List.dropWhile_append_of_pos hall]
      rfl
    | cons b before =>
      obtain ⟨rfl, hrest⟩ := List.cons.inj h
      have hne : xs.dropWhile ((p.window millis).takes millis) ≠ [] := by
        intro hnil
        rw [hnil, groups_nil] at hrest
        simp at hrest
      rw [List.takeWhile_append, List.dropWhile_append, if_neg, if_neg, ih hrest]
      · rfl
      · simpa using hne
      · intro hlen
        refine hne ?_
        have hwhole := List.takeWhile_append_dropWhile
          (p := (p.window millis).takes millis) (l := xs)
        have hcount := congrArg List.length hwhole
        rw [List.length_append] at hcount
        exact List.eq_nil_of_length_eq_zero (by omega)

/-- The cut between the two parts of a stream does not go through a group. -/
def Cuts (millis : UInt64) (xs ys : List StreamObject) : Prop :=
  groups millis (xs ++ ys) = groups millis xs ++ groups millis ys

@[simp] lemma cuts_nil_left (millis : UInt64) (ys : List StreamObject) : Cuts millis [] ys := by
  rw [Cuts, groups_nil, List.nil_append, List.nil_append]

@[simp] lemma cuts_nil_right (millis : UInt64) (xs : List StreamObject) : Cuts millis xs [] := by
  rw [Cuts, groups_nil, List.append_nil, List.append_nil]

/-- **A cut goes between groups** just if the window before it does not take the next object. -/
lemma cuts_cons_iff {xs ys g : List StreamObject} {before : List (List StreamObject)}
    (h : groups millis xs = before ++ [o :: g]) :
    Cuts millis xs (o' :: ys) ↔ (o.window millis).takes millis o' = false := by
  rw [Cuts, groups_append h, h, List.append_assoc, List.append_cancel_left_eq]
  cases htakes : (o.window millis).takes millis o' with
  | true => simp [htakes]
  | false => simp [htakes]

lemma ne_of_not_takes {w : Window} (hw : w.period = o.timestamp.periodIn millis)
    (h : w.takes millis o' = false) : o.timestamp ≠ o'.timestamp := by
  intro heq
  have hin : w.takes millis o' = true := by
    rw [Window.takes, ← heq, ← hw]
    exact Window.contains_of_period _ _
  rw [hin] at h
  cases h

lemma ne_of_mem_dropWhile {w : Window} (hw : w.period = o.timestamp.periodIn millis)
    (h : (o :: os).Pairwise fun x y : StreamObject => x.timestamp ≤ y.timestamp)
    (ho' : o' ∈ os.dropWhile (w.takes millis)) : o.timestamp ≠ o'.timestamp := by
  obtain ⟨hfirst, hrest⟩ := List.pairwise_cons.mp h
  have hhead := List.head?_dropWhile_not (w.takes millis) os
  have hsub := List.dropWhile_sublist (l := os) (w.takes millis)
  cases hd : os.dropWhile (w.takes millis) with
  | nil =>
    rw [hd] at ho'
    cases ho'
  | cons r rs =>
    rw [hd] at ho' hhead hsub
    have hne : o.timestamp ≠ r.timestamp := ne_of_not_takes hw (by simpa using hhead)
    rcases List.mem_cons.mp ho' with rfl | ho'
    · exact hne
    · -- times in between would be equal too
      intro heq
      have hle := hfirst r (hsub.subset List.mem_cons_self)
      have hle' := (List.pairwise_cons.mp (hrest.sublist hsub)).1 o' ho'
      rw [← heq] at hle'
      exact hne (Timestamp.le_antisymm hle hle')

/-- **The first objects of groups differ in their times**, if times do not go back. -/
lemma pairwise_groups (millis : UInt64)
    (h : os.Pairwise fun x y : StreamObject => x.timestamp ≤ y.timestamp) :
    (groups millis os).Pairwise fun g g' =>
      ∀ x ∈ g.head?, ∀ y ∈ g'.head?, x.timestamp ≠ y.timestamp := by
  induction os using groups.induct millis with
  | case1 =>
    rw [groups_nil]
    exact .nil
  | case2 o os ih =>
    have hsub := List.dropWhile_sublist (l := os) ((o.window millis).takes millis)
    rw [groups_cons]
    refine List.pairwise_cons.mpr ⟨fun g hg x hx y hy => ?_,
      ih ((List.pairwise_cons.mp h).2.sublist hsub)⟩
    cases hx
    refine ne_of_mem_dropWhile rfl h (?_ : y ∈ os.dropWhile ((o.window millis).takes millis))
    rw [← flatten_groups millis (os.dropWhile _)]
    exact List.mem_flatten.mpr ⟨g, hg, List.mem_of_head? hy⟩

/-! ### The course of a batch -/

/-- The calls for a batch: all objects from a running hash on, and then the end. -/
def Operation.batch (initial : Hash) (os : List StreamObject) : List Operation :=
  .setRunningHash initial :: (os.map .add ++ [.close])

/-- The stretch is to be written, and its first object has opened it. -/
structure Stretch.Opened (millis : UInt64) (st : Stretch) : Prop where
  kept : st.kept = true
  head : ∃ o os, st.objects = o :: os ∧ st.window = o.window millis ∧ st.time = o.timestamp

lemma Stretch.Opened.snoc {st : Stretch} (h : st.Opened millis) (x : StreamObject) :
    ({ st with objects := st.objects ++ [x] } : Stretch).Opened millis := by
  obtain ⟨o, os, hobjects, hhead⟩ := h.head
  exact ⟨h.kept, o, os ++ [x], by rw [hobjects]; rfl, hhead⟩

lemma Stretch.Opened.time_mem {st : Stretch} (h : st.Opened millis)
    (hst : st.objects ∈ groups millis os) : ∃ o ∈ os, st.time = o.timestamp := by
  obtain ⟨o, more, hobjects, -, htime⟩ := h.head
  refine ⟨o, ?_, htime⟩
  rw [← flatten_groups millis os]
  exact List.mem_flatten.mpr ⟨_, hst, by rw [hobjects]; exact List.mem_cons_self⟩

/-- **No two groups have one time**, if times do not go back. -/
lemma Stretch.nodup_times {ss : List Stretch} (hgroups : ss.map Stretch.objects = groups millis os)
    (hopened : ∀ st ∈ ss, st.Opened millis)
    (hsorted : os.Pairwise fun x y : StreamObject => x.timestamp ≤ y.timestamp) :
    (ss.map Stretch.time).Nodup := by
  have hpairs := pairwise_groups millis hsorted
  rw [← hgroups, List.pairwise_map] at hpairs
  refine List.pairwise_map.mpr (hpairs.imp_of_mem fun {st st'} hst hst' hne => ?_)
  obtain ⟨x, xs, hobjects, -, htime⟩ := (hopened st hst).head
  obtain ⟨y, ys, hobjects', -, htime'⟩ := (hopened st' hst').head
  rw [htime, htime']
  exact hne x (by rw [hobjects]; rfl) y (by rw [hobjects']; rfl)

namespace Course

variable {clock : PeriodClock} {c : Course} {st : Stretch}

def opening (clock : PeriodClock) (c : Course) (o : StreamObject) : Stretch :=
  ⟨o.window clock.millis, c.origin, o.timestamp, [o], true⟩

lemma opened_opening (clock : PeriodClock) (c : Course) (o : StreamObject) :
    (c.opening clock o).Opened clock.millis :=
  ⟨rfl, o, [], rfl, rfl, rfl⟩

lemma add_first (hs : c.stopped = false) (hw : c.completeWindow = false) (hc : c.current = none)
    (o : StreamObject) : c.add clock o =
      { c with
        current := some (c.opening clock o)
        origin := .after o
        lastPeriod := some (clock.period o.timestamp) } := by
  simp [add, notice, leaveFor, enter, opened, take, pass, opening, hs, hw, hc, StreamObject.window,
    PeriodClock.period]

lemma add_inside (hs : c.stopped = false) (hw : c.completeWindow = false) (hc : c.current = some st)
    (hin : st.window.takes clock.millis o = true) : c.add clock o =
      { c with
        current := some { st with objects := st.objects ++ [o] }
        origin := .after o
        lastPeriod := some (clock.period o.timestamp) } := by
  rw [Window.takes] at hin
  simp [add, notice, leaveFor, enter, take, pass, hs, hw, hc, PeriodClock.period, hin]

lemma add_outside (hs : c.stopped = false) (hw : c.completeWindow = false)
    (hc : c.current = some st) (hout : st.window.takes clock.millis o = false) : c.add clock o =
      { c with
        past := c.past ++ [st]
        current := some (c.opening clock o)
        origin := .after o
        lastPeriod := some (clock.period o.timestamp) } := by
  rw [Window.takes] at hout
  simp [add, notice, leaveFor, leave, enter, opened, take, pass, opening, hs, hw, hc, hout,
    StreamObject.window, PeriodClock.period]

lemma opened_add (hw : c.completeWindow = false)
    (hopened : ∀ st ∈ c.stretches, st.Opened clock.millis) (o : StreamObject) :
    ∀ st ∈ (c.add clock o).stretches, st.Opened clock.millis := by
  intro st hst
  have hreshapes : c.Reshapes clock (.add o) (c.add clock o).stretches :=
    reshapes_step c clock (.add o)
  generalize (c.add clock o).stretches = ss at hst hreshapes
  cases hreshapes with
  | same _ => exact hopened st hst
  | joins _ hcurrent _ =>
    rcases List.mem_append.mp hst with hst | hst
    · exact hopened st (List.mem_append_left _ hst)
    · obtain rfl := List.mem_singleton.mp hst
      exact (hopened _ (mem_stretches_of_current hcurrent)).snoc o
  | opens _ =>
    rcases List.mem_append.mp hst with hst | hst
    · exact hopened st hst
    · obtain rfl := List.mem_singleton.mp hst
      rw [notice_of_complete hw, opened, if_neg (by simp [hw])]
      exact opened_opening clock c o

/-- Within a window, a course fills it up and then makes groups of the rest. -/
lemma run_adds (os : List StreamObject) (hs : c.stopped = false) (hw : c.completeWindow = false)
    (hc : c.current = some st) (hopened : ∀ st ∈ c.stretches, st.Opened clock.millis) :
    (c.run clock (os.map .add)).stretches.map Stretch.objects =
        c.past.map Stretch.objects ++
          (st.objects ++ os.takeWhile (st.window.takes clock.millis)) ::
            groups clock.millis (os.dropWhile (st.window.takes clock.millis)) ∧
      ∀ st ∈ (c.run clock (os.map .add)).stretches, st.Opened clock.millis := by
  induction os generalizing c st with
  | nil =>
    refine ⟨?_, hopened⟩
    show c.stretches.map Stretch.objects = _
    simp [stretches, hc]
  | cons o os ih =>
    rw [List.map_cons]
    show ((c.add clock o).run clock (os.map .add)).stretches.map Stretch.objects = _ ∧
      ∀ st ∈ ((c.add clock o).run clock (os.map .add)).stretches, _
    have hopened' := opened_add hw hopened o
    cases hin : st.window.takes clock.millis o with
    | true =>
      have hadd := add_inside hs hw hc hin
      obtain ⟨h, hall⟩ := ih (by rw [hadd, hs]) (by rw [hadd, hw]) (by rw [hadd]) hopened'
      refine ⟨?_, hall⟩
      rw [h, hadd]
      simp [hin]
    | false =>
      have hadd := add_outside hs hw hc hin
      obtain ⟨h, hall⟩ := ih (by rw [hadd, hs]) (by rw [hadd, hw]) (by rw [hadd]) hopened'
      refine ⟨?_, hall⟩
      rw [h, hadd]
      simp [hin, groups_cons, opening]

lemma run_adds_idle (os : List StreamObject) (hs : c.stopped = false)
    (hw : c.completeWindow = false) (hc : c.current = none)
    (hopened : ∀ st ∈ c.past, st.Opened clock.millis) :
    (c.run clock (os.map .add)).stretches.map Stretch.objects =
        c.past.map Stretch.objects ++ groups clock.millis os ∧
      ∀ st ∈ (c.run clock (os.map .add)).stretches, st.Opened clock.millis := by
  cases os with
  | nil =>
    show c.stretches.map Stretch.objects = _ ∧ ∀ st ∈ c.stretches, _
    rw [stretches, hc, Option.toList_none, List.append_nil, groups_nil, List.append_nil]
    exact ⟨rfl, hopened⟩
  | cons o os =>
    rw [List.map_cons]
    show ((c.add clock o).run clock (os.map .add)).stretches.map Stretch.objects = _ ∧
      ∀ st ∈ ((c.add clock o).run clock (os.map .add)).stretches, _
    have hadd : c.add clock o = _ := add_first hs hw hc o
    have hstretches : c.stretches = c.past := by simp [stretches, hc]
    have hopened' := opened_add hw (hstretches ▸ hopened) o
    have hcurrent : (c.add clock o).current = some (c.opening clock o) := by rw [hadd]
    obtain ⟨h, hall⟩ := run_adds os (by rw [hadd, hs]) (by rw [hadd, hw]) hcurrent hopened'
    refine ⟨?_, hall⟩
    rw [h, hadd, groups_cons]
    rfl

/-- **The course of a batch** is that of its groups. -/
theorem run_batch (clock : PeriodClock) (initial : Hash) (os : List StreamObject) :
    ((start false).run clock (Operation.batch initial os)).current = none ∧
      ((start false).run clock (Operation.batch initial os)).past.map Stretch.objects =
        groups clock.millis os ∧
      ∀ st ∈ ((start false).run clock (Operation.batch initial os)).past,
        st.Opened clock.millis := by
  have hrun : (start false).run clock (Operation.batch initial os) =
      (({ start false with origin := .given initial }).run clock (os.map .add)).step clock
        .close := by
    rw [Operation.batch, run, List.foldl_cons, List.foldl_append]
    rfl
  rw [hrun]
  exact ⟨rfl, run_adds_idle os rfl rfl rfl nofun⟩

end Course

end SealedStream
