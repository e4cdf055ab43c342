import Mathlib.Data.Nat.Notation
import Mathlib.Tactic.Common
import SealedStream.Writer.Run

/-!
The course of a writer: how the operations cut the stream into stretches, one for each window.

It takes no notice of the storage, of the signer and of links, so whatever fails it stays the same.
-/

namespace SealedStream

/-- What the next file starts from. -/
inductive Origin where
  | unset
  | given (hash : Hash)
  | after (o : StreamObject)
  deriving DecidableEq

/-- The objects that share a window. -/
structure Stretch where
  window : Window
  before : Origin
  /-- The time of the object that opened the window. -/
  time : Timestamp
  objects : List StreamObject
  /-- It is to be written: the writer does not wait for a complete window, and it is not cleared. -/
  kept : Bool
  deriving DecidableEq

def Stretch.items (st : Stretch) : List Item := st.objects.map StreamObject.item

structure Course where
  /-- The windows that have been left, in order. -/
  past : List Stretch
  current : Option Stretch
  origin : Origin
  completeWindow : Bool
  lastPeriod : Option Int64
  stopped : Bool

namespace Course

def start (completeWindow : Bool) : Course := ⟨[], none, .unset, completeWindow, none, false⟩

def crosses (c : Course) (period : Int64) : Bool :=
  match c.lastPeriod with
  | some last => last ≠ period
  | none => false

def notice (c : Course) (period : Int64) : Course :=
  if c.completeWindow && c.crosses period then { c with completeWindow := false } else c

def leave (c : Course) : Course := { c with past := c.past ++ c.current.toList, current := none }

/-- Leaves the current window if an object is outside of it. -/
def leaveFor (c : Course) (alignment : Alignment) (period : Int64) : Course :=
  match c.current with
  | some st => if st.window.contains alignment period then c else c.leave
  | none => c

def opened (c : Course) (o : StreamObject) (period : Int64) : Stretch :=
  if c.completeWindow then ⟨⟨period, .unaligned⟩, c.origin, o.timestamp, [], false⟩
  else ⟨⟨period, o.alignment⟩, c.origin, o.timestamp, [], true⟩

def enter (c : Course) (o : StreamObject) (period : Int64) : Course :=
  match c.current with
  | some _ => c
  | none => { c with current := some (c.opened o period) }

def take (c : Course) (o : StreamObject) : Course :=
  { c with current := c.current.map fun st => { st with objects := st.objects ++ [o] } }

def pass (c : Course) (o : StreamObject) (period : Int64) : Course :=
  { c with origin := .after o, lastPeriod := some period }

def add (clock : PeriodClock) (c : Course) (o : StreamObject) : Course :=
  if c.stopped then c
  else
    let period := clock.period o.timestamp
    ((((c.notice period).leaveFor o.alignment period).enter o period).take o).pass o period

def drop (c : Course) : Course :=
  { c with current := c.current.map fun st => { st with kept := false } }

def step (clock : PeriodClock) (c : Course) : Operation → Course
  | .add o => c.add clock o
  | .closeAndSign => c.leave
  | .clear => c.drop.leave
  | .close => { c.leave with stopped := true }
  | .setRunningHash h => { c with origin := .given h }
  | .clearRunningHash => { c with origin := .unset }
  | .setCompleteWindow on => { c with completeWindow := on }
  | .resetCancellation => c

def run (clock : PeriodClock) (c : Course) (ops : List Operation) : Course :=
  ops.foldl (step clock) c

def stretches (c : Course) : List Stretch := c.past ++ c.current.toList

def objects (c : Course) : List StreamObject := c.stretches.flatMap Stretch.objects

variable {clock : PeriodClock} {c : Course} {o : StreamObject} {period : Int64} {st : Stretch}

/-! ### The parts of adding an object -/

lemma add_eq (h : c.stopped = false) : c.add clock o =
    ((((c.notice (clock.period o.timestamp)).leaveFor o.alignment
      (clock.period o.timestamp)).enter o (clock.period o.timestamp)).take o).pass o
        (clock.period o.timestamp) := by
  simp [add, h]

@[simp] lemma past_notice (c : Course) (period : Int64) : (c.notice period).past = c.past := by
  unfold notice
  split <;> rfl

@[simp] lemma current_notice (c : Course) (period : Int64) :
    (c.notice period).current = c.current := by
  unfold notice
  split <;> rfl

@[simp] lemma origin_notice (c : Course) (period : Int64) :
    (c.notice period).origin = c.origin := by
  unfold notice
  split <;> rfl

@[simp] lemma stopped_notice (c : Course) (period : Int64) :
    (c.notice period).stopped = c.stopped := by
  unfold notice
  split <;> rfl

lemma notice_of_complete (h : c.completeWindow = false) (period : Int64) :
    c.notice period = c := by
  simp [notice, h]

@[simp] lemma stretches_notice (c : Course) (period : Int64) :
    (c.notice period).stretches = c.stretches := by
  rw [stretches, past_notice, current_notice]
  rfl

@[simp] lemma stretches_leave (c : Course) : c.leave.stretches = c.stretches := by
  simp [stretches, leave]

lemma leaveFor_cases (c : Course) (alignment : Alignment) (period : Int64) :
    (c.leaveFor alignment period = c ∧
        ∀ st, c.current = some st → st.window.contains alignment period = true) ∨
      c.leaveFor alignment period = c.leave := by
  unfold leaveFor
  cases hc : c.current with
  | none => exact .inl ⟨rfl, nofun⟩
  | some st =>
    by_cases hin : st.window.contains alignment period = true
    · refine .inl ⟨if_pos hin, ?_⟩
      rintro _ ⟨⟩
      exact hin
    · exact .inr (if_neg hin)

lemma stretches_leaveFor (c : Course) (alignment : Alignment) (period : Int64) :
    (c.leaveFor alignment period).stretches = c.stretches := by
  rcases leaveFor_cases c alignment period with ⟨h, -⟩ | h <;> rw [h]
  exact stretches_leave c

lemma origin_leaveFor (c : Course) (alignment : Alignment) (period : Int64) :
    ((c.notice period).leaveFor alignment period).origin = c.origin := by
  rcases leaveFor_cases (c.notice period) alignment period with ⟨h, -⟩ | h <;> rw [h]
  · exact origin_notice c period
  · exact origin_notice c period

lemma stretches_take (c : Course) (o : StreamObject) (period : Int64) :
    (∃ st, c.current = some st ∧ (((c.enter o period).take o).pass o period).stretches =
        c.past ++ [{ st with objects := st.objects ++ [o] }]) ∨
      (c.current = none ∧ (((c.enter o period).take o).pass o period).stretches =
        c.past ++ [{ c.opened o period with objects := [o] }]) := by
  cases hc : c.current with
  | some st => exact Or.inl ⟨st, rfl, by simp [stretches, enter, take, pass, hc]⟩
  | none =>
    refine Or.inr ⟨rfl, ?_⟩
    have hempty : (c.opened o period).objects = [] := by
      unfold opened
      split <;> rfl
    simp [stretches, enter, take, pass, hc, hempty]

lemma times_take (c : Course) (o : StreamObject) (period : Int64) :
    (((c.take o).pass o period).stretches.map Stretch.time) = c.stretches.map Stretch.time := by
  cases hc : c.current <;> simp [stretches, take, pass, hc]

lemma past_receive (c : Course) (o : StreamObject) (period : Int64) :
    (((c.enter o period).take o).pass o period).past = c.past := by
  unfold enter
  split <;> rfl

@[simp] lemma stopped_add (clock : PeriodClock) (c : Course) (o : StreamObject) :
    (c.add clock o).stopped = c.stopped := by
  have hreceive (d : Course) (period : Int64) :
      (((d.enter o period).take o).pass o period).stopped = d.stopped := by
    unfold enter
    split <;> rfl
  unfold add
  split
  · rfl
  · rw [hreceive]
    rcases leaveFor_cases (c.notice (clock.period o.timestamp)) o.alignment
      (clock.period o.timestamp) with ⟨h, -⟩ | h <;> rw [h]
    · exact stopped_notice c _
    · exact stopped_notice c _

lemma completeWindow_add (h : c.completeWindow = false) :
    (c.add clock o).completeWindow = false := by
  have hreceive (d : Course) (period : Int64) :
      (((d.enter o period).take o).pass o period).completeWindow = d.completeWindow := by
    unfold enter
    split <;> rfl
  unfold add
  split
  · exact h
  · rw [hreceive, notice_of_complete h]
    rcases leaveFor_cases c o.alignment (clock.period o.timestamp) with ⟨heq, -⟩ | heq <;> rw [heq]
    · exact h
    · exact h

/-! ### Stretches -/

lemma stretches_of_current (h : c.current = some st) : c.stretches = c.past ++ [st] := by
  rw [stretches, h]
  rfl

lemma mem_stretches_of_current (h : c.current = some st) : st ∈ c.stretches := by
  rw [stretches_of_current h]
  exact List.mem_concat_self

lemma past_or_current {earlier later : List Stretch}
    (h : c.stretches = earlier ++ st :: later) :
    (∃ later, c.past = earlier ++ st :: later) ∨ (earlier = c.past ∧ c.current = some st) := by
  unfold stretches at h
  cases hc : c.current with
  | none => exact .inl ⟨later, by simpa [hc] using h⟩
  | some cur =>
    rw [hc, Option.toList_some] at h
    rcases List.eq_nil_or_concat later with rfl | ⟨later, last, rfl⟩
    · obtain ⟨rfl, hst⟩ := List.append_inj' h rfl
      exact .inr ⟨rfl, congrArg some (List.singleton_inj.mp hst)⟩
    · have h : c.past ++ [cur] = (earlier ++ st :: later) ++ [last] := by simpa using h
      exact .inl ⟨later, (List.append_inj' h rfl).1⟩

lemma length_objects (h : c.current = some st) :
    c.objects.length = (c.past.flatMap Stretch.objects).length + st.objects.length := by
  rw [objects, stretches_of_current h, List.flatMap_append, List.length_append]
  simp

lemma time_not_mem_past (hn : (c.stretches.map Stretch.time).Nodup) (hc : c.current = some st) :
    st.time ∉ c.past.map Stretch.time := by
  rw [stretches_of_current hc, List.map_append, List.nodup_append] at hn
  exact fun hmem => hn.2.2 _ hmem _ (List.mem_singleton.mpr rfl) rfl

/-! ### Operations -/

/-- The objects that an operation takes of the stream. -/
def taken (c : Course) : Operation → List StreamObject
  | .add o => if c.stopped then [] else [o]
  | _ => []

lemma mem_taken {op : Operation} (h : o ∈ c.taken op) : op = .add o := by
  cases op with
  | add o' =>
    rw [taken] at h
    split at h
    · cases h
    · rw [List.mem_singleton] at h
      rw [h]
  | _ => cases h

/-- What an operation can make of the stretches: the last of them is added to, is joined by another
one or is given up. -/
inductive Reshapes (clock : PeriodClock) (c : Course) : Operation → List Stretch → Prop where
  | same {op : Operation} (taken : c.taken op = []) : Reshapes clock c op c.stretches
  | joins {o : StreamObject} {st : Stretch} (running : c.stopped = false)
      (current : c.current = some st)
      (inside : st.window.contains o.alignment (clock.period o.timestamp) = true) :
      Reshapes clock c (.add o) (c.past ++ [{ st with objects := st.objects ++ [o] }])
  | opens {o : StreamObject} (running : c.stopped = false) :
      Reshapes clock c (.add o) (c.stretches ++
        [{ (c.notice (clock.period o.timestamp)).opened o (clock.period o.timestamp) with
            objects := [o] }])
  | drops {st : Stretch} (current : c.current = some st) :
      Reshapes clock c .clear (c.past ++ [{ st with kept := false }])

lemma reshapes_add (h : c.stopped = false) :
    c.Reshapes clock (.add o) (c.add clock o).stretches := by
  rw [add_eq h]
  rcases leaveFor_cases (c.notice (clock.period o.timestamp)) o.alignment
    (clock.period o.timestamp) with ⟨heq, hin⟩ | heq <;> rw [heq]
  · rcases stretches_take (c.notice (clock.period o.timestamp)) o (clock.period o.timestamp) with
      ⟨st, hst, hs⟩ | ⟨hnone, hs⟩ <;> rw [hs, past_notice]
    · exact .joins h (current_notice c _ ▸ hst) (hin st hst)
    · rw [current_notice] at hnone
      have hpast : c.past = c.stretches := by simp [stretches, hnone]
      rw [hpast]
      exact .opens h
  · -- once the window has been left there is none, and the past are all stretches
    rcases stretches_take (c.notice (clock.period o.timestamp)).leave o
      (clock.period o.timestamp) with ⟨st, hst, -⟩ | ⟨-, hs⟩
    · cases hst
    · have hpast : (c.notice (clock.period o.timestamp)).leave.past = c.stretches :=
        stretches_notice c _
      rw [hs, hpast]
      exact .opens h

/-- **An operation** leaves all stretches but the last as they are. -/
lemma reshapes_step (c : Course) (clock : PeriodClock) (op : Operation) :
    c.Reshapes clock op (c.step clock op).stretches := by
  cases op with
  | add o =>
    cases h : c.stopped with
    | true =>
      rw [step, add, if_pos h]
      exact .same (if_pos h)
    | false => exact reshapes_add h
  | clear =>
    rw [step, stretches_leave]
    cases hc : c.current with
    | none =>
      have hsame : c.drop.stretches = c.stretches := by simp [stretches, drop, hc]
      rw [hsame]
      exact .same rfl
    | some st =>
      have hdrops : c.drop.stretches = c.past ++ [{ st with kept := false }] := by
        simp [stretches, drop, hc]
      rw [hdrops]
      exact .drops hc
  | closeAndSign =>
    rw [step, stretches_leave]
    exact .same rfl
  | close =>
    have hsame : (c.step clock .close).stretches = c.stretches := stretches_leave c
    rw [hsame]
    exact .same rfl
  | setRunningHash hash => exact .same rfl
  | clearRunningHash => exact .same rfl
  | setCompleteWindow on => exact .same rfl
  | resetCancellation => exact .same rfl

/-- **What is true of all windows** stays true of them, if it does where an object joins a window,
where one opens a window, and where a window is given up. -/
lemma forall_step {P : Stretch → Prop} (h : ∀ st ∈ c.stretches, P st)
    (hjoins : ∀ st o, P st → st.window.contains o.alignment (clock.period o.timestamp) = true →
      P { st with objects := st.objects ++ [o] })
    (hopens : ∀ o, P { (c.notice (clock.period o.timestamp)).opened o
      (clock.period o.timestamp) with objects := [o] })
    (hdrops : ∀ st, P st → P { st with kept := false }) (op : Operation) :
    ∀ st ∈ (c.step clock op).stretches, P st := by
  have hreshapes := reshapes_step c clock op
  generalize (c.step clock op).stretches = ss at hreshapes
  have hlast : ∀ {before : List Stretch} {last : Stretch}, (∀ st ∈ before, st ∈ c.stretches) →
      P last → ∀ st ∈ before ++ [last], P st := fun hbefore hP st hst =>
    (List.mem_append.mp hst).elim (fun hst => h st (hbefore st hst))
      fun hst => List.mem_singleton.mp hst ▸ hP
  have hpast : ∀ st ∈ c.past, st ∈ c.stretches := fun _ => List.mem_append_left _
  cases hreshapes with
  | same _ => exact h
  | joins _ hcurrent hin =>
    exact hlast hpast (hjoins _ _ (h _ (mem_stretches_of_current hcurrent)) hin)
  | opens _ => exact hlast (fun _ => id) (hopens _)
  | drops hcurrent => exact hlast hpast (hdrops _ (h _ (mem_stretches_of_current hcurrent)))

lemma objects_step (c : Course) (clock : PeriodClock) (op : Operation) :
    (c.step clock op).objects = c.objects ++ c.taken op := by
  have h := reshapes_step c clock op
  rw [objects]
  generalize (c.step clock op).stretches = ss at h
  cases h with
  | same htaken => rw [htaken, List.append_nil, objects]
  | joins hrunning hcurrent _ => simp [objects, stretches_of_current hcurrent, taken, hrunning]
  | opens hrunning => simp [objects, taken, hrunning]
  | drops hcurrent => simp [objects, stretches_of_current hcurrent, taken]

lemma times_step (c : Course) (clock : PeriodClock) (op : Operation) :
    c.stretches.map Stretch.time <+: (c.step clock op).stretches.map Stretch.time := by
  have h := reshapes_step c clock op
  generalize (c.step clock op).stretches = ss at h
  cases h with
  | same _ => exact List.prefix_rfl
  | joins _ hcurrent _ => simp [stretches_of_current hcurrent]
  | opens _ => simp
  | drops hcurrent => simp [stretches_of_current hcurrent]

lemma nodup_before_step (op : Operation)
    (h : ((c.step clock op).stretches.map Stretch.time).Nodup) :
    (c.stretches.map Stretch.time).Nodup :=
  h.sublist (times_step c clock op).sublist

end Course

end SealedStream
