import SealedStream.Proofs.Writer.Runs

/-!
Stretches follow one another: each starts from the object that the ones before it end with, or from
the running hash that was set, as long as that is set once and before the first object.
-/

namespace SealedStream

/-! ### One running hash -/

namespace Operation

/-- The operation leaves the running hash as it is. -/
def keeps : Operation → Bool
  | .setRunningHash _ => false
  | .clearRunningHash => false
  | _ => true

/-- The running hash is set to `initial` before the first object, and never again. -/
def startsFrom (initial : Hash) : List Operation → Bool
  | [] => false
  | .setRunningHash h :: rest => h = initial && rest.all keeps
  | .clearRunningHash :: _ => false
  | .add _ :: _ => false
  | _ :: rest => startsFrom initial rest

lemma startsFrom_of_append {initial : Hash} {o : StreamObject} {before after : List Operation}
    (h : startsFrom initial (before ++ .add o :: after) = true) :
    startsFrom initial before = true := by
  induction before with
  | nil => cases h
  | cons op before ih =>
    cases op with
    | setRunningHash k =>
      simp only [List.cons_append, startsFrom, List.all_append, Bool.and_eq_true] at h ⊢
      exact ⟨h.1, h.2.1⟩
    | clearRunningHash => cases h
    | add o => cases h
    | closeAndSign => exact ih h
    | clear => exact ih h
    | close => exact ih h
    | setCompleteWindow on => exact ih h
    | resetCancellation => exact ih h

end Operation

/-! ### Stretches -/

/-- What is to be started from once objects have been taken. -/
def Origin.past (origin : Origin) (objects : List StreamObject) : Origin :=
  match objects.getLast? with
  | some o => .after o
  | none => origin

@[simp] lemma Origin.past_nil (origin : Origin) : origin.past [] = origin := rfl

@[simp] lemma Origin.past_concat (origin : Origin) (xs : List StreamObject) (o : StreamObject) :
    origin.past (xs ++ [o]) = .after o := by
  rw [past, List.getLast?_concat]

lemma Origin.past_append (origin : Origin) (xs ys : List StreamObject) :
    origin.past (xs ++ ys) = (origin.past xs).past ys := by
  rcases List.eq_nil_or_concat ys with rfl | ⟨zs, o, rfl⟩
  · rw [List.append_nil, past_nil]
  · rw [List.concat_eq_append, ← List.append_assoc, past_concat, past_concat]

lemma Origin.past_given_ne_unset (initial : Hash) (xs : List StreamObject) :
    (Origin.given initial).past xs ≠ .unset := by
  rcases List.eq_nil_or_concat xs with rfl | ⟨zs, o, rfl⟩
  · exact nofun
  · rw [List.concat_eq_append, past_concat]
    exact nofun

lemma Origin.past_cases (origin : Origin) (xs : List StreamObject) :
    origin.past xs = origin ∨ ∃ o ∈ xs, origin.past xs = .after o := by
  rcases List.eq_nil_or_concat xs with rfl | ⟨zs, o, rfl⟩
  · exact Or.inl rfl
  · rw [List.concat_eq_append]
    exact Or.inr ⟨o, by simp, past_concat _ _ _⟩

/-- Each stretch starts from what the ones before it end with. -/
def Stretch.Linked : Origin → List Stretch → Prop
  | _, [] => True
  | origin, st :: rest => st.before = origin ∧ Linked (origin.past st.objects) rest

lemma Stretch.linked_append (origin : Origin) (xs ys : List Stretch) :
    Linked origin (xs ++ ys) ↔
      Linked origin xs ∧ Linked (origin.past (xs.flatMap Stretch.objects)) ys := by
  induction xs generalizing origin with
  | nil => simp [Linked]
  | cons st xs ih =>
    rw [List.cons_append, Linked, ih, Linked, List.flatMap_cons, Origin.past_append, and_assoc]

lemma Stretch.linked_concat (origin : Origin) (xs : List Stretch) (st : Stretch) :
    Linked origin (xs ++ [st]) ↔
      Linked origin xs ∧ st.before = origin.past (xs.flatMap Stretch.objects) := by
  rw [linked_append, Linked, Linked, and_true]

lemma Stretch.Linked.before_cases {origin : Origin} {ss : List Stretch} {st : Stretch}
    (h : Linked origin ss) (hst : st ∈ ss) :
    st.before = origin ∨ ∃ o ∈ ss.flatMap Stretch.objects, st.before = .after o := by
  obtain ⟨before, after, rfl⟩ := List.append_of_mem hst
  rw [linked_append] at h
  rw [h.2.1]
  refine (Origin.past_cases _ _).imp id fun ⟨o, ho, heq⟩ => ⟨o, ?_, heq⟩
  rw [List.flatMap_append]
  exact List.mem_append_left _ ho

/-- The course goes on from `origin`. -/
structure Course.Follows (origin : Origin) (c : Course) : Prop where
  linked : Stretch.Linked origin c.stretches
  origin : c.origin = origin.past c.objects

namespace Course

variable {clock : PeriodClock} {c : Course} {op : Operation} {ops : List Operation}
  {o : StreamObject} {origin : Origin} {initial : Hash}

lemma origin_step (hop : op.keeps = true) :
    (c.step clock op).origin = c.origin.past (c.taken op) := by
  cases op with
  | add o =>
    rw [step, add, taken]
    cases c.stopped <;> rfl
  | setRunningHash hash => cases hop
  | clearRunningHash => cases hop
  | _ => rfl

/-- **The course goes on** through everything but setting another running hash. -/
theorem Follows.step (h : c.Follows origin) (hop : op.keeps = true) :
    (c.step clock op).Follows origin := by
  refine ⟨?_, by rw [origin_step hop, h.origin, objects_step, Origin.past_append]⟩
  have hlinked := h.linked
  have hreshapes := reshapes_step c clock op
  generalize (c.step clock op).stretches = ss at hreshapes
  cases hreshapes with
  | same _ => exact hlinked
  | joins _ hcurrent _ =>
    rw [stretches_of_current hcurrent, Stretch.linked_concat] at hlinked
    exact (Stretch.linked_concat ..).mpr hlinked
  | @opens o _ =>
    have hbefore : ((c.notice (clock.period o.timestamp)).opened o
        (clock.period o.timestamp)).before = c.origin := by
      rw [← origin_notice c (clock.period o.timestamp)]
      unfold opened
      split <;> rfl
    exact (Stretch.linked_concat ..).mpr ⟨hlinked, hbefore.trans h.origin⟩
  | drops hcurrent =>
    rw [stretches_of_current hcurrent, Stretch.linked_concat] at hlinked
    exact (Stretch.linked_concat ..).mpr hlinked

lemma Follows.run (h : c.Follows origin) (hops : ops.all Operation.keeps = true) :
    (c.run clock ops).Follows origin := by
  induction ops generalizing c with
  | nil => exact h
  | cons op ops ih =>
    rw [List.all_cons, Bool.and_eq_true] at hops
    exact ih (h.step hops.1) hops.2

lemma follows_of_startsFrom (hc : c.stretches = []) (h : Operation.startsFrom initial ops = true) :
    (c.run clock ops).Follows (.given initial) := by
  induction ops generalizing c with
  | nil => cases h
  | cons op ops ih =>
    have hcurrent : c.current = none := by
      simp only [stretches, List.append_eq_nil_iff, Option.toList_eq_nil_iff] at hc
      exact hc.2
    cases op with
    | add o => cases h
    | clearRunningHash => cases h
    | setRunningHash hash =>
      rw [Operation.startsFrom, Bool.and_eq_true, decide_eq_true_iff] at h
      obtain ⟨rfl, h⟩ := h
      refine Follows.run (c := c.step clock (.setRunningHash hash)) ⟨?_, ?_⟩ h
      · show Stretch.Linked _ c.stretches
        rw [hc]
        trivial
      · show Origin.given hash = Origin.past _ (c.stretches.flatMap Stretch.objects)
        rw [hc]
        rfl
    | closeAndSign => exact ih ((stretches_leave c).trans hc) h
    | clear =>
      refine ih (c := c.step clock .clear) ?_ h
      have hdrop : c.drop = c := by
        rw [drop, hcurrent]
        exact congrArg (fun d => { c with current := d }) hcurrent.symm
      rw [step, hdrop, stretches_leave, hc]
    | close => exact ih (c := c.step clock .close) ((stretches_leave c).trans hc) h
    | setCompleteWindow on => exact ih (c := c.step clock (.setCompleteWindow on)) hc h
    | resetCancellation => exact ih hc h

end Course

/-- **Every object finds a running hash**, if one is set before the first of them. -/
theorem Step.seeded_of_startsFrom {clock : PeriodClock} {completeWindow : Bool} {steps : List Step}
    {initial : Hash} (h : Operation.startsFrom initial (Step.calls steps) = true) :
    Step.Seeded clock (Course.start completeWindow) steps := by
  rintro before o after rfl
  have hcalls : Step.calls (before ++ .call (.add o) :: after) =
      Step.calls before ++ .add o :: Step.calls after := Step.calls_append _ _
  rw [hcalls] at h
  have hbefore := Operation.startsFrom_of_append h
  have hfollows : ((Course.start completeWindow).run clock (Step.calls before)).Follows _ :=
    Course.follows_of_startsFrom rfl hbefore
  rw [hfollows.origin]
  exact Origin.past_given_ne_unset _ _

end SealedStream
