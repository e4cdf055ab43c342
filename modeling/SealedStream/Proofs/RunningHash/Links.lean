import Mathlib.Tactic.Common
import SealedStream.RunningHash.Link

/-!
Links settle once, and cancelled tokens stay cancelled, whatever others do and however long a
reader waits.
-/

namespace SealedStream.Pipeline

variable {p q r : Pipeline} {l : Link} {t : Token}

/-- From `p` to `q` links have settled and tokens have been cancelled, but nothing else. -/
structure Grows (p q : Pipeline) : Prop where
  settled {l : Link} : p.stateOf l ≠ .pending → q.stateOf l = p.stateOf l
  cancelled {t : Token} : p.isCancelled t = true → q.isCancelled t = true
  links : q.links = p.links
  tokens : q.tokens = p.tokens

lemma Grows.refl (p : Pipeline) : p.Grows p := ⟨fun _ => rfl, id, rfl, rfl⟩

lemma Grows.trans (h : p.Grows q) (h' : q.Grows r) : p.Grows r where
  settled hl := by
    rw [h'.settled (by rw [h.settled hl]; exact hl), h.settled hl]
  cancelled ht := h'.cancelled (h.cancelled ht)
  links := h'.links.trans h.links
  tokens := h'.tokens.trans h.tokens

lemma Grows.alive (h : p.Grows q) (ht : q.isCancelled t = false) : p.isCancelled t = false := by
  cases hp : p.isCancelled t with
  | false => rfl
  | true => exact nomatch ht.symm.trans (h.cancelled hp)

lemma grows_settle (p : Pipeline) (l : Link) (s : LinkState) : p.Grows (p.settle l s).2 := by
  unfold settle
  split
  · rename_i hp
    refine ⟨fun {k} hk => ?_, id, rfl, rfl⟩
    have hne : k.slot ≠ l.slot := by
      intro h
      exact hk (by rw [stateOf, h]; exact hp)
    simp [stateOf, setState, hne]
  · exact Grows.refl p

lemma grows_cancel (p : Pipeline) (t : Token) : p.Grows (p.cancel t) := by
  refine ⟨fun _ => rfl, fun {k} hk => ?_, rfl, rfl⟩
  simp only [isCancelled, cancel] at hk ⊢
  split <;> simp [hk]

@[simp] lemma isCancelled_cancel (p : Pipeline) (t : Token) :
    (p.cancel t).isCancelled t = true := by
  simp [isCancelled, cancel]

lemma grows_perform (p : Pipeline) (i : Intervention) : p.Grows (p.perform i) := by
  cases i with
  | resolve l h => exact grows_settle p l _
  | release l => exact grows_settle p l _
  | cancel t => exact grows_cancel p t

lemma grows_foldl (is : List Intervention) (p : Pipeline) : p.Grows (is.foldl perform p) := by
  induction is generalizing p with
  | nil => exact Grows.refl p
  | cons i is ih => exact (grows_perform p i).trans (ih _)

/-! ### Reading and waiting -/

lemma read_eq_of_alive (ht : p.isCancelled t = false) : p.read l t = (p.stateOf l).answer := by
  simp [read, poll, enter, ht]

lemma read_of_cancelled (ht : p.isCancelled t = true) :
    p.read l t = some (.error .cancelled) := by
  simp [read, enter, ht]

lemma read_ok {h : Hash} (hr : p.read l t = some (.ok h)) :
    p.stateOf l = .resolved h ∧ p.isCancelled t = false := by
  cases ht : p.isCancelled t with
  | true => simp [read_of_cancelled ht] at hr
  | false =>
    rw [read_eq_of_alive ht] at hr
    cases hs : p.stateOf l <;> simp_all [LinkState.answer]

lemma read_resolved {h : Hash} (hl : p.stateOf l = .resolved h) (ht : p.isCancelled t = false) :
    p.read l t = some (.ok h) := by
  rw [read_eq_of_alive ht, hl]
  rfl

lemma read_isSome (hl : p.stateOf l ≠ .pending) : (p.read l t).isSome := by
  unfold read poll
  cases hs : p.stateOf l <;> simp_all [LinkState.answer]

/-- The order in which slot and token are looked at matters only when both have something to say. -/
lemma poll_eq_read (h : p.stateOf l = .pending ∨ p.isCancelled t = false) :
    p.poll l t = p.read l t := by
  unfold read poll enter
  rcases h with h | h <;> rw [h] <;> simp [LinkState.answer]

lemma isCancelled_settle (p : Pipeline) (l : Link) (s : LinkState) (t : Token) :
    (p.settle l s).2.isCancelled t = p.isCancelled t := by
  unfold settle
  split <;> rfl

/-- One act cannot settle the slot and cancel the token. -/
lemma perform_pending_or_alive (i : Intervention) (hl : p.stateOf l = .pending)
    (ht : p.isCancelled t = false) :
    (p.perform i).stateOf l = .pending ∨ (p.perform i).isCancelled t = false := by
  cases i with
  | resolve k h => exact .inr ((isCancelled_settle p k _ t).trans ht)
  | release k => exact .inr ((isCancelled_settle p k _ t).trans ht)
  | cancel u => exact .inl hl

lemma poll_eq_none (h : p.poll l t = none) :
    p.stateOf l = .pending ∧ p.isCancelled t = false := by
  unfold poll enter at h
  cases hs : p.stateOf l <;> simp_all [LinkState.answer]

lemma linger_eq_some {coming coming' : List Intervention} {a : Except LinkError Hash}
    (hp : p.stateOf l = .pending ∨ p.isCancelled t = false)
    (h : linger l t p coming = some (a, coming', q)) : p.Grows q ∧ q.read l t = some a := by
  induction coming generalizing p with
  | nil =>
    rw [linger, poll_eq_read hp, Option.map_eq_some_iff] at h
    obtain ⟨b, hb, heq⟩ := h
    cases heq
    exact ⟨Grows.refl _, hb⟩
  | cons i rest ih =>
    rw [linger] at h
    split at h
    · rename_i b hb
      cases h
      exact ⟨Grows.refl _, (poll_eq_read hp).symm.trans hb⟩
    · rename_i hnone
      obtain ⟨hl, ht⟩ := poll_eq_none hnone
      obtain ⟨hg, hr⟩ := ih (perform_pending_or_alive i hl ht) h
      exact ⟨(grows_perform p i).trans hg, hr⟩

lemma wait_eq_some {coming coming' : List Intervention} {a : Except LinkError Hash}
    (h : wait l t p coming = some (a, coming', q)) : p.Grows q ∧ q.read l t = some a := by
  unfold wait at h
  split at h
  · rename_i b hb
    cases h
    exact ⟨Grows.refl _, by rw [read, hb]; rfl⟩
  · rename_i hnone
    have ht : p.isCancelled t = false := by simpa [enter] using hnone
    exact linger_eq_some (.inr ht) h

lemma wait_of_read {a : Except LinkError Hash} (hr : p.read l t = some a)
    (coming : List Intervention) : wait l t p coming = some (a, coming, p) := by
  unfold read at hr
  unfold wait
  cases hin : p.enter t with
  | some b =>
    rw [hin] at hr
    cases hr
    rfl
  | none =>
    rw [hin, Option.none_or] at hr
    cases coming <;> simp [linger, hr]

/-! ### New handles -/

/-- From `p` to `q` handles may have been given out as well. -/
structure Extends (p q : Pipeline) : Prop where
  settled {l : Link} : l.slot < p.links → p.stateOf l ≠ .pending → q.stateOf l = p.stateOf l
  cancelled {t : Token} : t.flag < p.tokens → p.isCancelled t = true → q.isCancelled t = true
  links : p.links ≤ q.links
  tokens : p.tokens ≤ q.tokens

lemma Extends.refl (p : Pipeline) : p.Extends p :=
  ⟨fun _ _ => rfl, fun _ => id, Nat.le_refl _, Nat.le_refl _⟩

lemma Extends.trans (h : p.Extends q) (h' : q.Extends r) : p.Extends r where
  settled hl hs := by
    have hq := h.settled hl hs
    rw [h'.settled (Nat.lt_of_lt_of_le hl h.links) (by rw [hq]; exact hs), hq]
  cancelled ht hc := h'.cancelled (Nat.lt_of_lt_of_le ht h.tokens) (h.cancelled ht hc)
  links := Nat.le_trans h.links h'.links
  tokens := Nat.le_trans h.tokens h'.tokens

lemma Grows.extends (h : p.Grows q) : p.Extends q :=
  ⟨fun _ => h.settled, fun _ => h.cancelled, Nat.le_of_eq h.links.symm, Nat.le_of_eq h.tokens.symm⟩

lemma extends_newLink (p : Pipeline) (s : LinkState) : p.Extends (p.newLink s).2 := by
  refine ⟨fun {l} hl _ => ?_, fun _ => id, Nat.le_succ _, Nat.le_refl _⟩
  have hne : l.slot ≠ p.links := Nat.ne_of_lt hl
  simp [stateOf, newLink, setState, hne]

lemma extends_newToken (p : Pipeline) : p.Extends p.newToken.2 := by
  refine ⟨fun _ _ => rfl, fun {t} ht hc => ?_, Nat.le_refl _, Nat.le_succ _⟩
  have hne : t.flag ≠ p.tokens := Nat.ne_of_lt ht
  simpa [isCancelled, newToken, hne] using hc

@[simp] lemma isCancelled_newToken (p : Pipeline) :
    p.newToken.2.isCancelled p.newToken.1 = false := by
  simp [isCancelled, newToken]

/-- The link has been given out and holds a hash. -/
def Holds (p : Pipeline) (l : Link) (h : Hash) : Prop :=
  l.slot < p.links ∧ p.stateOf l = .resolved h

variable {h h' : Hash}

lemma Holds.mono (hl : p.Holds l h) (hpq : p.Extends q) : q.Holds l h :=
  ⟨Nat.lt_of_lt_of_le hl.1 hpq.links, by
    rw [hpq.settled hl.1 (by rw [hl.2]; exact nofun), hl.2]⟩

lemma Holds.unique (hl : p.Holds l h) (hl' : p.Holds l h') : h = h' := by
  have heq := hl.2.symm.trans hl'.2
  cases heq
  rfl

lemma holds_newLink (p : Pipeline) (h : Hash) :
    (p.newLink (.resolved h)).2.Holds (p.newLink (.resolved h)).1 h :=
  ⟨Nat.lt_succ_self _, by simp [stateOf, newLink, setState]⟩

end SealedStream.Pipeline
