import SealedStream.Proofs.Writer.Runs

/-!
The writer keeps its token until the caller asks for a new one, and a cancellation is not taken back
before.
-/

namespace SealedStream

variable {σ ω : Type}

def Pipeline.Cancelled (p : Pipeline) (t : Token) : Prop :=
  t.flag < p.tokens ∧ p.isCancelled t = true

lemma Pipeline.Cancelled.mono {p q : Pipeline} {t : Token} (h : p.Cancelled t)
    (hpq : p.Extends q) : q.Cancelled t :=
  ⟨Nat.lt_of_lt_of_le h.1 hpq.tokens, hpq.cancelled h.1 h.2⟩

/-- From one writer and its world to the next no cancellation has been taken back, and the writer's
token has been given out. -/
structure Onward (w : Writer ω) (s : Surroundings σ) (w' : Writer ω) (s' : Surroundings σ) :
    Prop where
  pipeline : s.pipeline.Extends s'.pipeline
  token : w.token.flag < s.pipeline.tokens → w'.token.flag < s'.pipeline.tokens

variable {w w' : Writer ω} {s s' : Surroundings σ}

lemma Onward.of_grows (hg : s.pipeline.Grows s'.pipeline) (ht : w'.token = w.token) :
    Onward w s w' s' :=
  ⟨hg.extends, fun h => by rwa [ht, hg.tokens]⟩

variable [Storage σ ω] {t t' : Stage σ ω}

open Act in
/-- **Every operation** but taking a cancellation back leaves the writer its token. -/
theorem Writer.gives_token (w : Writer ω) (s : Surroundings σ) {op : Operation}
    (hop : op ≠ .resetCancellation) :
    (w.apply op : Act σ _).Gives s fun r s' =>
      r.2.token = w.token ∧ s.pipeline.Extends s'.pipeline := by
  have hdone : ∀ {m : Act σ (Writer ω)}, w.Advances m →
      (do return (.done, ← m) : Act σ (Reply × Writer ω)).Gives s fun r s' =>
        r.2.token = w.token ∧ s.pipeline.Extends s'.pipeline :=
    fun hm => (hm s).bind fun _ _ ⟨ht, hg⟩ => gives_pure ⟨ht, hg.extends⟩
  cases op with
  | add o =>
    refine (advances_add o).bind ?_
    rintro (e | w') s' ⟨hg, ht⟩
    · exact gives_pure ⟨rfl, hg.extends⟩
    · exact gives_pure ⟨ht w' rfl, hg.extends⟩
  | closeAndSign => exact hdone advances_closeAndSign
  | clear => exact hdone advances_clear
  | close => exact hdone advances_close
  | setRunningHash hash =>
    rintro _ _ ⟨⟩
    exact ⟨rfl, Pipeline.extends_newLink _ _⟩
  | clearRunningHash =>
    rintro _ _ ⟨⟩
    exact ⟨rfl, Pipeline.extends_newLink _ _⟩
  | setCompleteWindow on => exact gives_pure ⟨rfl, .refl _⟩
  | resetCancellation => exact (hop rfl).elim

open Act in
/-- **Every operation** goes onward. -/
theorem Writer.gives_onward (w : Writer ω) (s : Surroundings σ) (op : Operation) :
    (w.apply op : Act σ _).Gives s fun r s' => Onward w s r.2 s' := by
  by_cases hop : op = .resetCancellation
  · subst hop
    refine Gives.bind (P := fun r s' => Onward w s r.2 s') ?_ fun _ _ h => gives_pure h
    rintro _ s' hrun
    rw [resetCancellation_eq] at hrun
    split at hrun
    · cases hrun
      exact ⟨Pipeline.extends_newToken _, fun _ => Nat.lt_succ_self _⟩
    · cases hrun
      exact .of_grows (.refl _) rfl
  · refine (w.gives_token s hop).mono fun r s' ⟨ht, he⟩ => ⟨he, fun hlt => ?_⟩
    rw [ht]
    exact Nat.lt_of_lt_of_le hlt he.tokens

/-- **Every step** goes onward. -/
theorem Stage.onward (x : Step) (h : t.step x = some t') :
    Onward t.writer t.world t'.writer t'.world := by
  cases x with
  | outside i =>
    cases h
    exact .of_grows (Pipeline.grows_perform _ i) rfl
  | call op =>
    obtain ⟨⟨⟨reply, w⟩, s⟩, happly, rfl⟩ := Option.map_eq_some_iff.mp h
    exact t.writer.gives_onward t.world op _ _ happly

omit [Storage σ ω] in
lemma Stage.given_start {config : Config} (h : start config s = some t) :
    t.writer.token.flag < t.world.pipeline.tokens := by
  obtain ⟨-, clock, -, rfl⟩ := start_eq_some_iff.mp h
  exact Nat.lt_succ_self _

lemma Stage.given_run {steps : List Step} (ht : t.writer.token.flag < t.world.pipeline.tokens)
    (h : run steps t = some t') : t'.writer.token.flag < t'.world.pipeline.tokens := by
  induction steps generalizing t with
  | nil =>
    cases h
    exact ht
  | cons x steps ih =>
    rw [run_cons, Option.bind_eq_some_iff] at h
    obtain ⟨t₁, hstep, hrun⟩ := h
    exact ih ((onward x hstep).token ht) hrun

/-- **The writer's token has been given out**, wherever a run has come to. -/
theorem Stage.given {config : Config} {steps : List Step}
    (h : (start config s).bind (run steps) = some t) :
    t.writer.token.flag < t.world.pipeline.tokens := by
  obtain ⟨t₀, hstart, hrun⟩ := Option.bind_eq_some_iff.mp h
  exact given_run (given_start hstart) hrun

/-- **A cancelled token stays cancelled** until the caller asks for a new one. -/
theorem Stage.cancelled {x : Step} (hx : x ≠ .call .resetCancellation) (h : t.step x = some t')
    (hc : t.world.pipeline.Cancelled t.writer.token) :
    t'.world.pipeline.Cancelled t'.writer.token := by
  cases x with
  | outside i =>
    cases h
    exact hc.mono (Pipeline.grows_perform _ i).extends
  | call op =>
    obtain ⟨⟨⟨reply, w⟩, s⟩, happly, rfl⟩ := Option.map_eq_some_iff.mp h
    obtain ⟨ht, hextends⟩ := t.writer.gives_token t.world (by simpa using hx) _ _ happly
    exact ht ▸ hc.mono hextends

end SealedStream
