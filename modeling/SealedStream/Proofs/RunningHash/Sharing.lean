import Mathlib.Data.List.Induction
import SealedStream.Proofs.RunningHash.Links
import SealedStream.RunningHash.Exchange

/-!
Links in the hands of many settle once.

What an act is answered depends on what was observed before it, and of that on little: the first
attempt to settle a link succeeds and no other, and all readers of a link get what that attempt
left.
-/

namespace SealedStream

/-! ### Slots -/

namespace Pipeline

lemma hash?_eq (p : Pipeline) (l : Link) : p.hash? l = (p.stateOf l).hash? := by
  unfold hash? LinkState.hash?
  split <;> simp_all

lemma stateOf_settle (p : Pipeline) (l k : Link) (s : LinkState) :
    (p.settle l s).2.stateOf k =
      if k = l ∧ p.stateOf l = .pending then s else p.stateOf k := by
  unfold settle
  split
  · rename_i hp
    by_cases hk : k = l
    · simp only [hk, hp, and_self, if_true]
      simp [stateOf, setState]
    · have hne : k.slot ≠ l.slot := fun h => hk (by cases k; cases l; cases h; rfl)
      simp [hk, stateOf, setState, hne]
  · rename_i hp
    simp [hp]

lemma fst_settle (p : Pipeline) (l : Link) (s : LinkState) :
    (p.settle l s).1 = true ↔ p.stateOf l = .pending := by
  unfold settle
  split <;> simp_all

end Pipeline

/-! ### What the answers depend on -/

namespace Observation

def link? : Observation → Option Link
  | .made l | .resolved l _ _ | .released l _ | .peeked l _ | .asked l _ => some l
  | .entered _ l _ _ | .polled _ l _ _ => some l
  | .cancelled _ => none

def token? : Observation → Option Token
  | .cancelled t | .entered _ _ t _ | .polled _ _ t _ => some t
  | _ => none

def attempt (l : Link) : Observation → Option LinkState
  | .resolved k hash _ => if k = l then some (.resolved hash) else none
  | .released k _ => if k = l then some .released else none
  | _ => none

def did (l : Link) : Observation → Option Bool
  | .resolved k _ did | .released k did => if k = l then some did else none
  | _ => none

def cancels (t : Token) : Observation → Bool
  | .cancelled u => u = t
  | _ => false

end Observation

/-- What the first attempt to settle the link has left there. -/
def outcome (l : Link) (before : List Observation) : LinkState :=
  (before.findSome? (Observation.attempt l)).getD .pending

def verdict (t : Token) (before : List Observation) : Option (Except LinkError Hash) :=
  if before.any (Observation.cancels t) then some (.error .cancelled) else none

/-- The answer is the one that what came before calls for. An attempt to settle a link succeeds if
it is the first. Reading gives what the first attempt left, a call whose token was cancelled before
is told so at once, and a call that was let in is told so only as long as its link is pending. A new
link shares its slot with none before it. -/
def Observation.Follows (before : List Observation) : Observation → Prop
  | .made l => ∀ e ∈ before, e.link? ≠ some l
  | .cancelled _ => True
  | .resolved l _ did | .released l did => did = true ↔ outcome l before = .pending
  | .peeked l found => found = (outcome l before).hash?
  | .asked l yes => yes = (outcome l before).hash?.isSome
  | .entered _ _ t answer => answer = verdict t before
  | .polled call l t answer =>
    .entered call l t none ∈ before ∧ answer = (outcome l before).answer.or (verdict t before)

def answers (l : Link) (es : List Observation) : List Bool := es.filterMap (Observation.did l)

def Explained (es : List Observation) : Prop :=
  ∀ before e, before ++ [e] <+: es → e.Follows before

/-! ### What holds between acts -/

lemma outcome_concat (l : Link) (es : List Observation) (e : Observation) :
    outcome l (es ++ [e]) =
      if outcome l es = .pending then (e.attempt l).getD .pending else outcome l es := by
  unfold outcome
  rw [List.findSome?_append]
  cases hes : es.findSome? (Observation.attempt l) with
  | none => simp
  | some st =>
    obtain ⟨e', -, he'⟩ := List.exists_of_findSome?_eq_some hes
    have hst : st ≠ .pending := by
      rintro rfl
      cases e' <;> simp [Observation.attempt] at he'
    simp [hst]

lemma outcome_of_untouched {l : Link} {es : List Observation}
    (h : ∀ e ∈ es, e.link? ≠ some l) : outcome l es = .pending := by
  unfold outcome
  rw [List.findSome?_eq_none_iff.mpr, Option.getD_none]
  intro e he
  have hl := h e he
  cases e <;> simp_all [Observation.attempt, Observation.link?]

lemma Explained.concat {es : List Observation} {e : Observation} (h : Explained es)
    (he : e.Follows es) : Explained (es ++ [e]) := by
  intro before e' hpre
  rcases List.prefix_concat_iff.mp hpre with heq | hpre
  · obtain ⟨rfl, heq'⟩ := List.append_inj' heq rfl
    obtain rfl := List.singleton_inj.mp heq'
    exact he
  · exact h before e' hpre

lemma Observation.tried (e : Observation) (l : Link) :
    (e.did l = none ∧ e.attempt l = none) ∨
      ∃ b st, e.did l = some b ∧ e.attempt l = some st ∧ st ≠ .pending ∧
        ∀ before, e.Follows before → (b = true ↔ outcome l before = .pending) := by
  cases e with
  | resolved k hash b =>
    by_cases hk : k = l
    · cases hk
      exact .inr ⟨b, .resolved hash, if_pos rfl, if_pos rfl, nofun, fun _ h => h⟩
    · exact .inl ⟨if_neg hk, if_neg hk⟩
  | released k b =>
    by_cases hk : k = l
    · cases hk
      exact .inr ⟨b, .released, if_pos rfl, if_pos rfl, nofun, fun _ h => h⟩
    · exact .inl ⟨if_neg hk, if_neg hk⟩
  | _ => exact .inl ⟨rfl, rfl⟩

lemma Explained.answers_eq {es : List Observation} (h : Explained es) (l : Link) :
    (outcome l es = .pending ∧ answers l es = []) ∨
      (outcome l es ≠ .pending ∧ ∃ n, answers l es = true :: List.replicate n false) := by
  induction es using List.reverseRecOn with
  | nil => exact .inl ⟨rfl, rfl⟩
  | append_singleton es e ih =>
    have hfollows := h es e List.prefix_rfl
    have hadd : answers l (es ++ [e]) = answers l es ++ (e.did l).toList := by
      rw [answers, List.filterMap_append]
      cases hd : e.did l <;> simp [answers, hd]
    rw [hadd, outcome_concat]
    replace ih := ih fun before e' hpre => h before e' (hpre.trans (List.prefix_append es [e]))
    rcases e.tried l with ⟨hdid, hattempt⟩ | ⟨b, st, hdid, hattempt, hst, hb⟩ <;>
      rw [hdid, hattempt] <;> rcases ih with ⟨ho, ha⟩ | ⟨ho, n, ha⟩
    · simp [ho, ha]
    · exact .inr ⟨by simp [ho], n, by simp [ha]⟩
    · obtain rfl := (hb es hfollows).mpr ho
      exact .inr ⟨by simpa [ho] using hst, 0, by simp [ha]⟩
    · have hfalse : b = false := by
        cases b with
        | false => rfl
        | true => exact absurd ((hb es hfollows).mp rfl) ho
      refine .inr ⟨by simp [ho], n + 1, ?_⟩
      rw [ha, hfalse, List.replicate_succ', List.cons_append]
      rfl

namespace Exchange

variable {s s' : Exchange} {e : Observation} {l : Link} {t : Token}

/-- The slots and flags are what the observations make of them, and every observation follows from
those before it. -/
structure Sound (s : Exchange) : Prop where
  held {l : Link} : l ∈ s.links → l.slot < s.pipeline.links
  state (l : Link) : s.pipeline.stateOf l = outcome l s.history
  flag (t : Token) : s.pipeline.isCancelled t = s.history.any (Observation.cancels t)
  seen {e : Observation} {l : Link} : e ∈ s.history → e.link? = some l → l.slot < s.pipeline.links
  tokens {e : Observation} {t : Token} :
    e ∈ s.history → e.token? = some t → t.flag < s.pipeline.tokens
  waits {c : Nat} {l : Link} {t : Token} :
    s.waiting c = some (l, t) → .entered c l t none ∈ s.history
  explained : Explained s.history

lemma sound_start : start.Sound where
  held hl := by cases hl
  state _ := rfl
  flag _ := rfl
  seen he := by cases he
  tokens he := by cases he
  waits hc := by cases hc
  explained before e hpre := by
    have := hpre.length_le
    simp [start] at this

lemma mem_links {h : Holder} (hl : s.link? h = some l) : l ∈ s.links := by
  cases h with
  | handle i => exact List.mem_append_left _ (List.mem_of_getElem? hl)
  | object i =>
    obtain ⟨o, ho, rfl⟩ := Option.map_eq_some_iff.mp hl
    exact List.mem_append_right _ (List.mem_map_of_mem (List.mem_of_getElem? ho))

lemma Sound.through {h : Holder} {act : Link → Exchange} (hs : s.Sound)
    (hact : ∀ l ∈ s.links, (act l).Sound) : (s.through h act).Sound := by
  unfold Exchange.through
  split
  · rename_i l hl
    exact hact l (mem_links hl)
  · exact hs

lemma Sound.enter_eq (h : s.Sound) (t : Token) : s.pipeline.enter t = verdict t s.history := by
  unfold Pipeline.enter verdict
  rw [h.flag]

/-- Handles may be copied and objects changed; nothing of that is observed. -/
lemma Sound.rehandle {hs : List Link} {os : List StreamObject} (h : s.Sound)
    (hheld : ∀ l ∈ hs ++ os.map (·.link), l ∈ s.links) :
    { s with handles := hs, objects := os }.Sound :=
  { h with held := fun hl => h.held (hheld _ hl) }

/-- One more observation. -/
lemma Sound.observe (h : s.Sound) (hh : s'.history = s.history ++ [e])
    (hlinks : s.pipeline.links ≤ s'.pipeline.links)
    (htokens : s'.pipeline.tokens = s.pipeline.tokens)
    (hheld : ∀ l ∈ s'.links, l ∈ s.links ∨ e = .made l)
    (hstate : ∀ l, s'.pipeline.stateOf l = outcome l (s.history ++ [e]))
    (hflag : ∀ t, s'.pipeline.isCancelled t = (s.history ++ [e]).any (Observation.cancels t))
    (hl : ∀ l, e.link? = some l → l.slot < s'.pipeline.links)
    (ht : ∀ t, e.token? = some t → t.flag < s.pipeline.tokens)
    (hw : ∀ c l t, s'.waiting c = some (l, t) →
      s.waiting c = some (l, t) ∨ e = .entered c l t none)
    (he : e.Follows s.history) : s'.Sound where
  held {l} hmem := by
    rcases hheld l hmem with hmem | rfl
    · exact Nat.lt_of_lt_of_le (h.held hmem) hlinks
    · exact hl l rfl
  state l := by rw [hh]; exact hstate l
  flag t := by rw [hh]; exact hflag t
  seen {e' l} he' hel := by
    rw [hh, List.mem_append, List.mem_singleton] at he'
    rcases he' with he' | rfl
    · exact Nat.lt_of_lt_of_le (h.seen he' hel) hlinks
    · exact hl l hel
  tokens {e' t} he' het := by
    rw [hh, List.mem_append, List.mem_singleton] at he'
    rw [htokens]
    rcases he' with he' | rfl
    · exact h.tokens he' het
    · exact ht t het
  waits {c l t} hc := by
    rw [hh, List.mem_append, List.mem_singleton]
    exact (hw c l t hc).imp h.waits Eq.symm
  explained := hh ▸ h.explained.concat he

lemma Sound.look (h : s.Sound) (hp : s'.pipeline = s.pipeline)
    (hh : s'.history = s.history ++ [e]) (hheld : s'.links = s.links)
    (hattempt : ∀ l, e.attempt l = none) (hcancels : ∀ t, e.cancels t = false)
    (hl : ∀ l, e.link? = some l → l.slot < s.pipeline.links)
    (ht : ∀ t, e.token? = some t → t.flag < s.pipeline.tokens)
    (hw : ∀ c l t, s'.waiting c = some (l, t) →
      s.waiting c = some (l, t) ∨ e = .entered c l t none)
    (he : e.Follows s.history) : s'.Sound := by
  refine h.observe hh (Nat.le_of_eq (by rw [hp])) (by rw [hp]) (fun l hmem => .inl (hheld ▸ hmem))
    (fun l => ?_) (fun t => ?_) (by rw [hp]; exact hl) ht hw he
  · rw [hp, h.state, outcome_concat, hattempt]
    split <;> simp_all
  · rw [hp, h.flag]
    simp [hcancels]

lemma Sound.made (h : s.Sound)
    (hp : s'.pipeline = (s.pipeline.newLink .pending).2)
    (hh : s'.history = s.history ++ [.made (s.pipeline.newLink .pending).1])
    (hw : s'.waiting = s.waiting)
    (hheld : ∀ l ∈ s'.links, l ∈ s.links ∨ l = (s.pipeline.newLink .pending).1) : s'.Sound := by
  have hfresh : ∀ e ∈ s.history, e.link? ≠ some (s.pipeline.newLink .pending).1 :=
    fun e he hel => absurd (h.seen he hel) (Nat.lt_irrefl _)
  refine h.observe hh (by rw [hp]; exact Nat.le_succ _) (by rw [hp]; rfl)
    (fun l hmem => (hheld l hmem).imp_right (by rintro rfl; rfl)) (fun l => ?_) (fun t => ?_)
    (fun l hl => ?_) nofun (fun c l t hc => .inl (hw ▸ hc)) hfresh
  · rw [hp, outcome_concat, ← h.state]
    by_cases hl : l.slot = s.pipeline.links
    · have hl' : l = (s.pipeline.newLink .pending).1 := by cases l; cases hl; rfl
      rw [h.state, hl', outcome_of_untouched hfresh]
      simp [Pipeline.stateOf, Pipeline.newLink, Pipeline.setState, Observation.attempt]
    · have : (s.pipeline.newLink .pending).2.stateOf l = s.pipeline.stateOf l := by
        simp [Pipeline.stateOf, Pipeline.newLink, Pipeline.setState, hl]
      rw [this]
      split <;> simp_all [Observation.attempt]
  · have : (s.pipeline.newLink .pending).2.isCancelled t = s.pipeline.isCancelled t := rfl
    rw [hp, this, h.flag]
    simp [Observation.cancels]
  · cases hl
    rw [hp]
    exact Nat.lt_succ_self _

lemma Sound.settle {st : LinkState} {seen : Bool → Observation} (h : s.Sound)
    (hk : l ∈ s.links) (hseen : ∀ b, (seen b).link? = some l)
    (hattempt : ∀ b m, (seen b).attempt m = if l = m then some st else none)
    (hcancels : ∀ b t, (seen b).cancels t = false) (htoken : ∀ b, (seen b).token? = none)
    (hfollows : ∀ b, (seen b).Follows s.history ↔ (b = true ↔ outcome l s.history = .pending)) :
    (s.settle l st seen).Sound := by
  have hgrows := Pipeline.grows_settle s.pipeline l st
  refine h.observe rfl (Nat.le_of_eq hgrows.links.symm) hgrows.tokens (fun l hmem => .inl hmem)
    (fun m => ?_) (fun t => ?_) (fun m hm => ?_) (fun t ht => ?_) (fun c l t hc => .inl hc) ?_
  · change (s.pipeline.settle l st).2.stateOf m = _
    rw [Pipeline.stateOf_settle, outcome_concat, hattempt, ← h.state]
    by_cases hm : l = m
    · subst hm
      simp
    · simp only [Ne.symm hm, hm, false_and, if_false, Option.getD_none]
      split <;> simp_all
  · change (s.pipeline.settle l st).2.isCancelled t = _
    rw [Pipeline.isCancelled_settle, h.flag]
    simp [hcancels]
  · rw [hseen] at hm
    cases hm
    exact Nat.lt_of_lt_of_le (h.held hk) (Nat.le_of_eq hgrows.links.symm)
  · rw [htoken] at ht
    cases ht
  · rw [hfollows, Pipeline.fst_settle, h.state]

lemma Sound.cancel (h : s.Sound) (ht : t.flag < s.pipeline.tokens) :
    (s.note (s.pipeline.cancel t) (.cancelled t)).Sound := by
  refine h.observe rfl (Nat.le_refl _) rfl (fun l hmem => .inl hmem) (fun l => ?_) (fun u => ?_)
    nofun (fun u hu => ?_) (fun c l t hc => .inl hc) trivial
  · rw [outcome_concat, ← h.state]
    change s.pipeline.stateOf l = _
    split <;> simp_all [Observation.attempt]
  · change (s.pipeline.cancel t).isCancelled u = _
    rw [List.any_append, ← h.flag]
    by_cases hu : u = t
    · subst hu
      simp [Observation.cancels]
    · have hflag : u.flag ≠ t.flag := fun hf => hu (by cases u; cases t; cases hf; rfl)
      simp [Pipeline.isCancelled, Pipeline.cancel, Observation.cancels, hflag, Ne.symm hu]
  · cases hu
    exact ht

lemma Sound.enter (h : s.Sound) (hk : l ∈ s.links)
    (ht : t.flag < s.pipeline.tokens) : (s.enter l t).Sound := by
  refine h.look (e := .entered s.calls l t (s.pipeline.enter t)) rfl rfl rfl (fun _ => rfl)
    (fun _ => rfl) (fun m hm => ?_) (fun u hu => ?_) (fun c m u hc => ?_) (h.enter_eq t)
  · cases hm
    exact h.held hk
  · cases hu
    exact ht
  · simp only [Exchange.enter] at hc
    by_cases hcall : c = s.calls
    · rw [if_pos hcall] at hc
      cases henter : s.pipeline.enter t with
      | some a => simp [henter] at hc
      | none =>
        simp only [henter, Option.isSome_none] at hc
        cases hc
        exact .inr (by rw [hcall])
    · rw [if_neg hcall] at hc
      exact .inl hc

lemma Sound.poll {c : Nat} (h : s.Sound) (hc : s.waiting c = some (l, t)) :
    (s.poll c l t).Sound := by
  have hmem := h.waits hc
  refine h.look (e := .polled c l t (s.pipeline.poll l t)) rfl rfl rfl (fun _ => rfl)
    (fun _ => rfl) (fun m hm => ?_) (fun u hu => ?_) (fun c' m u hc' => ?_) ⟨hmem, ?_⟩
  · cases hm
    exact h.seen hmem rfl
  · cases hu
    exact h.tokens hmem rfl
  · simp only [Exchange.poll] at hc'
    split at hc'
    · cases hc'
    · exact .inl hc'
  · rw [Pipeline.poll, h.state, h.enter_eq]

lemma Sound.glance (h : s.Sound) (hl : l ∈ s.links) (hlink : e.link? = some l)
    (htoken : e.token? = none) (hattempt : ∀ l, e.attempt l = none)
    (hcancels : ∀ t, e.cancels t = false) (he : e.Follows s.history) :
    (s.note s.pipeline e).Sound := by
  refine h.look rfl rfl rfl hattempt hcancels (fun m hm => ?_) (fun t ht => ?_)
    (fun c m t hc => .inl hc) he
  · cases hlink.symm.trans hm
    exact h.held hl
  · cases htoken.symm.trans ht

lemma Sound.newToken (h : s.Sound) : { s with pipeline := s.pipeline.newToken.2 }.Sound := by
  have hcancelled (t : Token) :
      s.pipeline.newToken.2.isCancelled t = s.pipeline.isCancelled t := by
    by_cases ht : t.flag = s.pipeline.tokens
    · have hold : s.pipeline.isCancelled t = false := by
        rw [h.flag, List.any_eq_false]
        intro e he hc
        cases e <;> simp only [Observation.cancels, decide_eq_true_eq, reduceCtorEq] at hc
        subst hc
        exact absurd (h.tokens he rfl) (by omega)
      rw [hold]
      simp [Pipeline.isCancelled, Pipeline.newToken, ht]
    · simp [Pipeline.isCancelled, Pipeline.newToken, ht]
  exact { h with
    flag := fun t => (hcancelled t).trans (h.flag t)
    tokens := fun he ht => Nat.lt_succ_of_lt (h.tokens he ht) }

lemma Sound.attach (h : s.Sound) (i : Nat) (hl : l ∈ s.links) :
    { s with objects := s.objects.modify i fun o => { o with link := l } }.Sound := by
  refine h.rehandle fun m hm => ?_
  rw [List.mem_append] at hm
  rcases hm with hm | hm
  · exact List.mem_append_left _ hm
  · obtain ⟨o, ho, rfl⟩ := List.mem_map.mp hm
    obtain ⟨j, hj⟩ := List.mem_iff_getElem?.mp ho
    rw [List.getElem?_modify] at hj
    obtain ⟨o', ho', rfl⟩ := Option.map_eq_some_iff.mp hj
    split
    · exact hl
    · exact mem_links (h := .object j) (by simp [link?, ho'])

lemma Sound.step (h : s.Sound) (d : Deed) : (s.step d).Sound := by
  cases d with
  | link =>
    refine h.made rfl rfl rfl fun l hl => ?_
    simp only [links, Exchange.step, note, List.mem_append, List.mem_singleton] at hl ⊢
    tauto
  | object item timestamp alignment =>
    refine h.made rfl rfl rfl fun l hl => ?_
    simp only [links, Exchange.step, note, List.map_append, List.mem_append, List.map_cons,
      List.map_nil, List.mem_singleton] at hl ⊢
    tauto
  | copy k =>
    refine h.rehandle fun l hl => ?_
    rw [List.mem_append, List.mem_append, Option.mem_toList] at hl
    rcases hl with (hl | hl) | hl
    · exact List.mem_append_left _ hl
    · exact mem_links hl
    · exact List.mem_append_right _ hl
  | duplicate i =>
    refine h.rehandle fun l hl => ?_
    rw [List.map_append, List.mem_append, List.mem_append] at hl
    rcases hl with hl | hl | hl
    · exact List.mem_append_left _ hl
    · exact List.mem_append_right _ hl
    · obtain ⟨o, ho, rfl⟩ := List.mem_map.mp hl
      exact mem_links (h := .object i) (by simp [link?, Option.mem_toList.mp ho])
  | attach i k => exact h.through fun l hl => h.attach i hl
  | token => exact h.newToken
  | cancel t =>
    simp only [Exchange.step]
    split
    · rename_i ht
      exact h.cancel ht
    · exact h
  | resolve k hash =>
    exact h.through fun l hl => h.settle hl (fun _ => rfl) (fun _ _ => rfl) (fun _ _ => rfl)
      (fun _ => rfl) (fun _ => Iff.rfl)
  | release k =>
    exact h.through fun l hl => h.settle hl (fun _ => rfl) (fun _ _ => rfl) (fun _ _ => rfl)
      (fun _ => rfl) (fun _ => Iff.rfl)
  | peek k =>
    refine h.through fun l hl => h.glance hl rfl rfl (fun _ => rfl) (fun _ => rfl) ?_
    rw [Pipeline.hash?_eq, h.state]
    rfl
  | ask k =>
    refine h.through fun l hl => h.glance hl rfl rfl (fun _ => rfl) (fun _ => rfl) ?_
    rw [Pipeline.isResolved, Pipeline.hash?_eq, h.state]
    rfl
  | enter k t =>
    refine h.through fun l hl => ?_
    split
    · rename_i ht
      exact h.enter hl ht
    · exact h
  | poll c =>
    simp only [Exchange.step]
    split
    · rename_i l t hc
      exact h.poll hc
    · exact h

lemma reached_concat (deeds : List Deed) (d : Deed) :
    reached (deeds ++ [d]) = (reached deeds).step d := by
  simp [reached, run]

lemma sound_reached (deeds : List Deed) : (reached deeds).Sound := by
  induction deeds using List.reverseRecOn with
  | nil => exact sound_start
  | append_singleton deeds d ih =>
    rw [reached_concat]
    exact ih.step d

/-! ### What an act leaves alone -/

/-- From `s` to `s'` observations have been added; an attempt to settle a link is among them only if
that holder holds the link. -/
def Adds (holder : Option Holder) (s s' : Exchange) : Prop :=
  ∃ es, s'.history = s.history ++ es ∧
    ∀ e ∈ es, ∀ l, e.attempt l ≠ none → ∃ h, holder = some h ∧ s.link? h = some l

variable {holder : Option Holder}

lemma adds_nothing (h : s'.history = s.history) : Adds holder s s' := ⟨[], by simp [h], by simp⟩

lemma adds_look (h : s'.history = s.history ++ [e]) (he : ∀ l, e.attempt l = none) :
    Adds holder s s' := ⟨[e], h, by simp [he]⟩

lemma adds_attempt {h : Holder} (hh : s'.history = s.history ++ [e])
    (he : ∀ l, e.attempt l ≠ none → s.link? h = some l) : Adds (some h) s s' :=
  ⟨[e], hh, fun e' he' l hl => by
    cases List.mem_singleton.mp he'
    exact ⟨h, rfl, he l hl⟩⟩

lemma adds_through {h : Holder} {act : Link → Exchange}
    (hact : ∀ l, s.link? h = some l → Adds holder s (act l)) : Adds holder s (s.through h act) := by
  unfold Exchange.through
  split
  · rename_i l hl
    exact hact l hl
  · exact adds_nothing rfl

lemma adds_step (s : Exchange) (d : Deed) : Adds d.settles s (s.step d) := by
  cases d with
  | link => exact adds_look rfl fun _ => rfl
  | object item timestamp alignment => exact adds_look rfl fun _ => rfl
  | copy k => exact adds_nothing rfl
  | duplicate i => exact adds_nothing rfl
  | attach i k => exact adds_through fun l _ => adds_nothing rfl
  | token => exact adds_nothing rfl
  | cancel t =>
    simp only [Exchange.step]
    split
    · exact adds_look rfl fun _ => rfl
    · exact adds_nothing rfl
  | resolve k hash =>
    refine adds_through fun l hl => adds_attempt rfl fun m hm => ?_
    by_cases h : l = m
    · exact h ▸ hl
    · exact absurd (if_neg h) hm
  | release k =>
    refine adds_through fun l hl => adds_attempt rfl fun m hm => ?_
    by_cases h : l = m
    · exact h ▸ hl
    · exact absurd (if_neg h) hm
  | peek k => exact adds_through fun l _ => adds_look rfl fun _ => rfl
  | ask k => exact adds_through fun l _ => adds_look rfl fun _ => rfl
  | enter k t =>
    refine adds_through fun l _ => ?_
    split
    · exact adds_look rfl fun _ => rfl
    · exact adds_nothing rfl
  | poll c =>
    simp only [Exchange.step]
    split
    · exact adds_look rfl fun _ => rfl
    · exact adds_nothing rfl

lemma outcome_append_of_untried {es : List Observation} (before : List Observation)
    (h : ∀ e ∈ es, e.attempt l = none) : outcome l (before ++ es) = outcome l before := by
  unfold outcome
  rw [List.findSome?_append, List.findSome?_eq_none_iff.mpr h, Option.or_none]

lemma stateOf_step (hs : s.Sound) {d : Deed} (h : ∀ k, d.settles = some k → s.link? k ≠ some l) :
    (s.step d).pipeline.stateOf l = s.pipeline.stateOf l := by
  obtain ⟨es, hes, hattempt⟩ := adds_step s d
  rw [(hs.step d).state, hs.state, hes]
  refine outcome_append_of_untried _ fun e he => ?_
  by_contra hne
  obtain ⟨k, hk, hl⟩ := hattempt e he l hne
  exact h k hk hl

lemma stateOf_run (hs : s.Sound) (more : List Deed) (hl : s.pipeline.stateOf l ≠ .pending) :
    (s.run more).pipeline.stateOf l = s.pipeline.stateOf l := by
  induction more generalizing s with
  | nil => rfl
  | cons d more ih =>
    have hstep : (s.step d).pipeline.stateOf l = s.pipeline.stateOf l := by
      obtain ⟨es, hes, -⟩ := adds_step s d
      rw [(hs.step d).state, hs.state, hes]
      rw [hs.state] at hl
      unfold outcome at hl ⊢
      rw [List.findSome?_append]
      cases hfirst : s.history.findSome? (Observation.attempt l) with
      | none => simp [hfirst] at hl
      | some st => rfl
    exact (ih (hs.step d) (hstep ▸ hl)).trans hstep

/-- A call that waits for a settled link returns when it wakes up. -/
lemma history_poll {c : Nat} (hc : s.waiting c = some (l, t))
    (hl : s.pipeline.stateOf l ≠ .pending) :
    ∃ a, (s.pipeline.stateOf l).answer = some a ∧
      (s.step (.poll c)).history = s.history ++ [.polled c l t (some a)] := by
  obtain ⟨a, ha⟩ : ∃ a, (s.pipeline.stateOf l).answer = some a := by
    cases h : s.pipeline.stateOf l with
    | pending => exact absurd h hl
    | resolved k => exact ⟨_, rfl⟩
    | released => exact ⟨_, rfl⟩
  refine ⟨a, ha, ?_⟩
  simp [Exchange.step, hc, Exchange.poll, note, Pipeline.poll, ha]

/-- **Links settle once, for everybody**: of the attempts to settle a link, through whichever of its
holders, the first succeeds and no other, and from then on the link stays as it is; acts through
other links do not touch it. All that is read of a link, by whatever handle, is what the first
attempt has left. A call whose token was cancelled before is told so, whatever the link holds; one
that was let in returns with what the link holds as soon as it wakes up and finds it settled. -/
theorem settles_once (deeds : List Deed) :
    Explained (reached deeds).history ∧
    (∀ l, answers l (reached deeds).history = [] ∨
      ∃ n, answers l (reached deeds).history = true :: List.replicate n false) ∧
    (∀ l more, (reached deeds).pipeline.stateOf l ≠ .pending →
      (reached (deeds ++ more)).pipeline.stateOf l = (reached deeds).pipeline.stateOf l) ∧
    (∀ l d, (∀ h, d.settles = some h → (reached deeds).link? h ≠ some l) →
      (reached (deeds ++ [d])).pipeline.stateOf l = (reached deeds).pipeline.stateOf l) ∧
    ∀ c l t, (reached deeds).waiting c = some (l, t) →
      (reached deeds).pipeline.stateOf l ≠ .pending →
      ∃ a, ((reached deeds).pipeline.stateOf l).answer = some a ∧
        (reached (deeds ++ [.poll c])).history =
          (reached deeds).history ++ [.polled c l t (some a)] := by
  have hs := sound_reached deeds
  refine ⟨hs.explained, fun l => ?_, fun l more hl => ?_, fun l d h => ?_, fun c l t hc hl => ?_⟩
  · exact (hs.explained.answers_eq l).imp And.right And.right
  · rw [reached, run, List.foldl_append]
    exact stateOf_run hs more hl
  · rw [reached_concat]
    exact stateOf_step hs h
  · rw [reached_concat]
    exact history_poll hc hl

/-- An object is copied; a reader waits through the copy while both settle the link. -/
def race : List Deed :=
  [.object (.of [] []) .epoch .unaligned, .duplicate 0, .link, .token, .enter (.object 1) ⟨0⟩, .poll 0,
    .resolve (.object 0) (.digest []), .release (.object 1), .resolve (.object 1) (.digest [0])]

/-- The second holder comes too late, the reader gets the first hash though its token has been
cancelled meanwhile, the next reader is sent away, and the other link knows nothing of it. -/
theorem settles_once_race :
    (reached (race ++ [.cancel ⟨0⟩, .poll 0, .enter (.object 0) ⟨0⟩, .peek (.handle 0)])).history =
      [.made ⟨0⟩, .made ⟨1⟩, .entered 0 ⟨0⟩ ⟨0⟩ none, .polled 0 ⟨0⟩ ⟨0⟩ none,
        .resolved ⟨0⟩ (.digest []) true, .released ⟨0⟩ false, .resolved ⟨0⟩ (.digest [0]) false,
        .cancelled ⟨0⟩, .polled 0 ⟨0⟩ ⟨0⟩ (some (.ok (.digest []))),
        .entered 1 ⟨0⟩ ⟨0⟩ (some (.error .cancelled)), .peeked ⟨1⟩ none] ∧
    (reached (race ++ [.release (.object 0)])).pipeline.stateOf ⟨0⟩ =
      (reached race).pipeline.stateOf ⟨0⟩ ∧
    (reached (race ++ [.release (.handle 0)])).pipeline.stateOf ⟨0⟩ =
      (reached race).pipeline.stateOf ⟨0⟩ ∧
    ∃ a, ((reached race).pipeline.stateOf ⟨0⟩).answer = some a ∧
      (reached (race ++ [.poll 0])).history =
        (reached race).history ++ [.polled 0 ⟨0⟩ ⟨0⟩ (some a)] := by
  obtain ⟨-, -, hkept, hapart, hpoll⟩ := settles_once race
  have hstate : (reached race).pipeline.stateOf ⟨0⟩ = .resolved (.digest []) := rfl
  have hsettled : (reached race).pipeline.stateOf ⟨0⟩ ≠ .pending := by
    rw [hstate]
    exact nofun
  have hother : ∀ h, (Deed.release (.handle 0)).settles = some h →
      (reached race).link? h ≠ some ⟨0⟩ := by
    rintro h ⟨⟩
    decide
  exact ⟨rfl, hkept ⟨0⟩ _ hsettled, hapart ⟨0⟩ _ hother, hpoll 0 ⟨0⟩ ⟨0⟩ rfl hsettled⟩

end Exchange

end SealedStream
