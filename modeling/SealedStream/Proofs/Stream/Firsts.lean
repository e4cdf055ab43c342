import Mathlib.Data.List.Nodup
import SealedStream.Proofs.Stream.Integrity
import SealedStream.Proofs.Writer.Thorough

/-!
The first windows of their times: where nothing fails these get their files, and the others find one
in their place.
-/

namespace SealedStream

/-! ### The first of each key -/

section

variable {α β γ δ : Type} [DecidableEq β]

def firstsBy (key : α → β) (xs : List α) : List α := xs.eraseDupsBy fun x y => key x == key y

variable {key : α → β} {xs ys : List α} {y : α}

@[simp] lemma firstsBy_nil : firstsBy key [] = [] := rfl

lemma firstsBy_concat (key : α → β) (xs : List α) (y : α) :
    firstsBy key (xs ++ [y]) = firstsBy key xs ++ if key y ∈ xs.map key then [] else [y] := by
  induction hlen : xs.length using Nat.strong_induction_on generalizing xs with
  | _ n ih =>
    cases xs with
    | nil => rfl
    | cons x xs =>
      have hless : (xs.filter fun b => decide ((key b == key x) = false)).length < n := by
        rw [← hlen]
        exact Nat.lt_succ_of_le (List.length_filter_le _ _)
      have hrest := ih _ hless _ rfl
      unfold firstsBy at hrest ⊢
      rw [List.cons_append, List.eraseDupsBy_cons, List.eraseDupsBy_cons, List.filter_append,
        List.cons_append]
      by_cases hkey : key y = key x
      · simp [hkey]
      · have hstays : [y].filter (fun b => decide ((key b == key x) = false)) = [y] := by
          simp [hkey]
        have hmem : key y ∈ (xs.filter fun b => decide ((key b == key x) = false)).map key ↔
            key y ∈ (x :: xs).map key := by
          simp only [List.mem_map, List.mem_filter, List.mem_cons]
          constructor
          · rintro ⟨z, ⟨hz, -⟩, heq⟩
            exact ⟨z, .inr hz, heq⟩
          · rintro ⟨z, rfl | hz, heq⟩
            · exact (hkey heq.symm).elim
            · exact ⟨z, ⟨hz, by simpa [heq] using hkey⟩, heq⟩
        rw [hstays, hrest]
        simp only [hmem]

lemma firstsBy_sublist (key : α → β) (xs : List α) : (firstsBy key xs).Sublist xs := by
  induction xs using List.reverseRecOn with
  | nil => exact List.Sublist.refl _
  | append_singleton xs y ih =>
    rw [firstsBy_concat]
    refine ih.append ?_
    split
    · exact List.nil_sublist _
    · exact List.Sublist.refl _

lemma mem_keys_firstsBy {k : β} : k ∈ (firstsBy key xs).map key ↔ k ∈ xs.map key := by
  induction xs using List.reverseRecOn with
  | nil => rfl
  | append_singleton xs y ih =>
    rw [firstsBy_concat, List.map_append, List.mem_append, ih, List.map_append, List.mem_append]
    by_cases hkey : key y ∈ xs.map key
    · rw [if_pos hkey, List.map_nil, List.map_singleton, List.mem_singleton]
      exact ⟨fun h => .inl (h.resolve_right nofun), fun h => .inl (h.elim id fun hk => hk ▸ hkey)⟩
    · rw [if_neg hkey]

lemma firstsBy_eq_self_iff : firstsBy key xs = xs ↔ (xs.map key).Nodup := by
  induction xs using List.reverseRecOn with
  | nil => simp
  | append_singleton xs y ih =>
    rw [firstsBy_concat, List.map_append, List.nodup_append', ← ih]
    by_cases hkey : key y ∈ xs.map key
    · rw [if_pos hkey, List.append_nil]
      refine iff_of_false (fun heq => ?_) fun h => h.2.2 hkey (List.mem_singleton.mpr rfl)
      have hlen := (firstsBy_sublist key xs).length_le
      rw [heq, List.length_append, List.length_singleton] at hlen
      omega
    · rw [if_neg hkey, List.append_left_inj]
      refine ⟨fun h => ⟨h, List.nodup_singleton _, ?_⟩, And.left⟩
      exact List.disjoint_singleton.mpr hkey

lemma firstsBy_map [DecidableEq δ] {f : γ → α} {zs : List γ} {k : γ → δ}
    (h : ∀ x ∈ zs, ∀ y ∈ zs, key (f x) = key (f y) ↔ k x = k y) :
    firstsBy key (zs.map f) = (firstsBy k zs).map f := by
  induction zs using List.reverseRecOn with
  | nil => rfl
  | append_singleton zs y ih =>
    have hmem : key (f y) ∈ (zs.map f).map key ↔ k y ∈ zs.map k := by
      rw [List.map_map, List.mem_map, List.mem_map]
      refine exists_congr fun x => and_congr_right fun hx => ?_
      exact h x (List.mem_append_left _ hx) y (by simp)
    rw [List.map_append, List.map_singleton, firstsBy_concat, firstsBy_concat, List.map_append,
      ih fun x hx y hy => h x (List.mem_append_left _ hx) y (List.mem_append_left _ hy)]
    by_cases hk : k y ∈ zs.map k
    · rw [if_pos hk, if_pos (hmem.mpr hk), List.map_nil]
    · rw [if_neg hk, if_neg fun h => hk (hmem.mp h), List.map_singleton]

lemma append_eq_firstsBy {more : List α} {new : Option α}
    (hsub : (firstsBy key xs ++ more).Sublist (xs ++ new.toList))
    (hnodup : ((firstsBy key xs ++ more).map key).Nodup)
    (hall : ∀ y ∈ new, key y ∈ (firstsBy key xs ++ more).map key) :
    firstsBy key xs ++ more = firstsBy key (xs ++ new.toList) := by
  rw [List.map_append, List.nodup_append'] at hnodup
  obtain ⟨-, hmore, hdisjoint⟩ := hnodup
  have hnew : ∀ z ∈ more, key z ∉ xs.map key ∧ z ∈ new := by
    intro z hz
    have hkey : key z ∉ xs.map key := fun hmem =>
      hdisjoint (mem_keys_firstsBy.mpr hmem) (List.mem_map_of_mem hz)
    refine ⟨hkey, ?_⟩
    have hmem := hsub.subset (List.mem_append_right _ hz)
    rw [List.mem_append, Option.mem_toList] at hmem
    exact hmem.resolve_left fun hx => hkey (List.mem_map_of_mem hx)
  cases new with
  | none =>
    have hnil : more = [] := List.eq_nil_iff_forall_not_mem.mpr fun z hz => nomatch (hnew z hz).2
    rw [hnil, Option.toList_none, List.append_nil, List.append_nil]
  | some y =>
    rw [Option.toList_some, firstsBy_concat, List.append_cancel_left_eq]
    by_cases hkey : key y ∈ xs.map key
    · rw [if_pos hkey]
      refine List.eq_nil_iff_forall_not_mem.mpr fun z hz => ?_
      obtain ⟨hz, hy⟩ := hnew z hz
      cases hy
      exact hz hkey
    · rw [if_neg hkey]
      have hmem := hall y rfl
      rw [List.map_append, List.mem_append, mem_keys_firstsBy] at hmem
      obtain ⟨z, hz, -⟩ := List.mem_map.mp (hmem.resolve_left hkey)
      refine List.perm_singleton.mp ((List.perm_ext_iff_of_nodup hmore.of_map
        (List.nodup_singleton y)).mpr fun x => ?_)
      rw [List.mem_singleton]
      constructor
      · intro hx
        obtain ⟨-, hy⟩ := hnew x hx
        exact (Option.some.inj hy).symm
      · rintro rfl
        obtain ⟨-, hy⟩ := hnew z hz
        exact Option.some.inj hy ▸ hz

end

/-! ### One file of each time -/

namespace Course

lemma past_step (c : Course) (clock : PeriodClock) (op : Operation) :
    ∃ new : Option Stretch, (c.step clock op).past = c.past ++ new.toList := by
  cases op with
  | add o =>
    rw [step, add]
    split
    · exact ⟨none, (List.append_nil _).symm⟩
    · rw [past_receive, leaveFor, current_notice]
      split
      · split
        · exact ⟨none, by rw [past_notice, Option.toList_none, List.append_nil]⟩
        · exact ⟨c.current, by rw [leave, past_notice, current_notice]⟩
      · exact ⟨none, by rw [past_notice, Option.toList_none, List.append_nil]⟩
  | clear => exact ⟨c.drop.current, rfl⟩
  | closeAndSign => exact ⟨c.current, rfl⟩
  | close => exact ⟨c.current, rfl⟩
  | setRunningHash hash => exact ⟨none, (List.append_nil _).symm⟩
  | clearRunningHash => exact ⟨none, (List.append_nil _).symm⟩
  | setCompleteWindow on => exact ⟨none, (List.append_nil _).symm⟩
  | resetCancellation => exact ⟨none, (List.append_nil _).symm⟩

end Course

section

variable {σ ω : Type} [Storage σ ω] {G : Setting σ ω} {pubs : List Publication}
  {past : List Stretch} {last : Option WrittenFile} {s : Surroundings σ} {st : Stretch}

lemma Records.nodup_times (h : Records G pubs past last s) :
    ((pubs.map Publication.stretch).map Stretch.time).Nodup := by
  rw [List.map_map]
  have hpaths := h.nodup
  rw [List.Nodup, List.pairwise_map] at hpaths ⊢
  refine hpaths.imp_of_mem fun {b b'} hb hb' hne htime => hne ?_
  obtain ⟨call, hvalid⟩ := h.published.valid hb
  obtain ⟨call', hvalid'⟩ := h.published.valid hb'
  have hname := hvalid.name
  rw [show b.stretch.time = b'.stretch.time from htime, hvalid'.name] at hname
  exact (Except.ok.inj hname).symm

lemma Records.time_mem (h : Records G pubs past last s) (hfresh : G.fresh st = true)
    (hstands : G.Stands st.time s.storage) :
    st.time ∈ (pubs.map Publication.stretch).map Stretch.time := by
  obtain ⟨-, path, hname, hfree⟩ := G.fresh_iff.mp hfresh
  obtain ⟨path', hname', hsome⟩ := hstands
  cases hname.symm.trans hname'
  have hmem : path ∈ pubs.map Publication.path := by
    by_contra hnot
    rw [h.untouched ⟨_, hname⟩ hnot, hfree] at hsome
    cases hsome
  obtain ⟨b, hb, rfl⟩ := List.mem_map.mp hmem
  obtain ⟨call, hvalid⟩ := h.published.valid hb
  have hpath : Naming.Role.record.path G.config.kind b.path = Naming.Role.record.path _ b.path :=
    rfl
  rw [(Naming.path_inj G.plain hname hvalid.name hpath).2]
  exact List.mem_map_of_mem (List.mem_map_of_mem hb)

lemma Account.firsts_append {more : List Publication} {c c' : Course} {w' : Writer ω}
    (account : Account G (pubs ++ more) c' w' s) (hthorough : Thorough G c' w' s)
    (hpubs : pubs.map Publication.stretch = firstsBy Stretch.time (c.past.filter G.fresh))
    {new : Option Stretch} (hnew : c'.past = c.past ++ new.toList) :
    (pubs ++ more).map Publication.stretch = firstsBy Stretch.time (c'.past.filter G.fresh) := by
  have hpast : c'.past.filter G.fresh = c.past.filter G.fresh ++ (new.filter G.fresh).toList := by
    rw [hnew, List.filter_append]
    cases new with
    | none => rfl
    | some st => cases hfresh : G.fresh st <;> simp [hfresh, Option.filter_some]
  have hsublist := account.records.sublist
  have hnodup := account.records.nodup_times
  rw [hpast, List.map_append, hpubs] at hsublist
  rw [hpast, List.map_append, hpubs]
  rw [List.map_append, hpubs] at hnodup
  refine append_eq_firstsBy hsublist hnodup fun st hst => ?_
  obtain ⟨hmem, hfresh⟩ := Option.filter_eq_some_iff.mp hst
  have hpast : st ∈ c'.past := by
    rw [hnew, hmem]
    simp
  have hstands := hthorough.past hpast (G.fresh_iff.mp hfresh).1
  rw [← hpubs, ← List.map_append]
  exact account.records.time_mem hfresh hstands

end

namespace Outset

variable {σ ω : Type} [Storage σ ω] {b : Outset σ ω} {config : Config} {ops : List Operation}
  {t : Stage σ ω}

/-! ### Runs without failures -/

lemma Serves.thorough_start (h : b.Serves config) (hs : b.Smooth config)
    (hstart : Stage.start config b.world = some t) :
    Thorough (h.exposed True) (Course.start config.completeWindow) t.writer t.world := by
  have hnew := (h.exposed True).start_eq b.world
  cases hnew.symm.trans hstart
  exact
    { token := Pipeline.isCancelled_newToken b.pipeline
      calm := hs.calm
      ready := fun hset => (hset rfl).elim
      lastReady := nofun
      free := nofun
      clear := by
        rintro p ⟨q, hq, rfl | rfl⟩ -
        · exact (hs.tidy hq).1
        · exact (hs.tidy hq).2
      past := nofun
      current := nofun }

lemma Serves.admitted_call (h : b.Serves config) {op : Operation}
    (hops : b.Provides (ops ++ [op])) : op.Admitted (h.exposed True) (h.course ops) := by
  cases op with
  | add o =>
    exact ⟨⟨fun _ => (hops.resolved (by simp)).choose_spec.1, nofun, nofun, nofun⟩, nofun⟩
  | clear => exact id
  | resetCancellation => exact id
  | _ => trivial

lemma Serves.thorough_step (h : b.Serves config) (hs : b.Smooth config) {op : Operation}
    (hops : b.Provides (ops ++ [op])) (hclear : op ≠ .clear)
    (hseeded : ∀ o, op = .add o → (h.course ops).origin ≠ .unset) {t' : Stage σ ω}
    (hstep : t.step (.call op) = some t') {pubs : List Publication}
    (account : Account (h.exposed True) pubs (h.course ops) t.writer t.world)
    (hthorough : Thorough (h.exposed True) (h.course ops) t.writer t.world) :
    (∃ more, Account (h.exposed True) (pubs ++ more) (h.course (ops ++ [op])) t'.writer t'.world) ∧
      (Thorough (h.exposed True) (h.course (ops ++ [op])) t'.writer t'.world ∨
        ∃ o, op = .add o ∧ t'.writer.Unfit t'.world o) := by
  obtain ⟨⟨⟨reply, w⟩, s⟩, happly, rfl⟩ := Option.map_eq_some_iff.mp hstep
  have hnonempty : ∀ st, (h.course ops).current = some st → st.objects ≠ [] := fun _ =>
    (h.grounded _).current_nonempty
  rw [h.course_concat]
  obtain ⟨⟨more, account', -⟩, -⟩ :=
    account.apply (h.admitted_call hops) hnonempty False.elim _ _ happly
  refine ⟨⟨more, account'⟩,
    account.thorough_apply hthorough ⟨hs.storage, hs.signs⟩ id (h.admitted_call hops) hnonempty
      hclear ?_ _ _ happly⟩
  rintro o rfl
  obtain ⟨text, htext⟩ := hops.named (o := o) (by simp)
  exact ⟨⟨hops.resolved (by simp), Naming.recordPath_of_toIso htext _ _⟩, hseeded o rfl⟩

/-- **Where nothing fails, the first window of each time gets its file**, in whatever order times
come, unless a payload cannot be written: then the token is cancelled for good. -/
theorem Serves.publishes_firsts (h : b.Serves config) (hs : b.Smooth config) (hops : b.Provides ops)
    (hreset : .resetCancellation ∉ ops) (hclear : .clear ∉ ops)
    (hseeded : Step.Seeded h.plain.clock (Course.start config.completeWindow) (ops.map .call))
    (ht : b.reached config (ops.map .call) = some t) :
    (∃ pubs, Account (h.exposed True) pubs (h.course ops) t.writer t.world ∧
        Thorough (h.exposed True) (h.course ops) t.writer t.world ∧
        pubs.map Publication.stretch =
          firstsBy Stretch.time ((h.course ops).past.filter (h.exposed True).fresh)) ∨
      t.world.pipeline.Cancelled t.writer.token ∧ ∃ o, .add o ∈ ops ∧ ¬o.item.Fits := by
  induction ops using List.reverseRecOn generalizing t with
  | nil =>
    obtain ⟨t₀, hstart, hrun⟩ := Option.bind_eq_some_iff.mp ht
    cases hrun
    exact .inl
      ⟨[], (Account.start (h.begins_exposed True) hstart).1, h.thorough_start hs hstart, rfl⟩
  | append_singleton ops op ih =>
    have hgiven := Stage.given ht
    rw [List.map_append] at ht
    obtain ⟨t₁, ht₁, hstep⟩ := reached_concat_iff.mp ht
    simp only [List.mem_append, List.mem_singleton, not_or] at hclear hreset
    have hearlier : b.Provides ops :=
      ⟨fun ho => hops.resolved (List.mem_append_left _ ho),
        fun ho => hops.named (List.mem_append_left _ ho)⟩
    have hbefore := ih hearlier hreset.1 hclear.1 (fun before o after heq =>
      hseeded before o (after ++ [.call op]) (by simp [heq])) ht₁
    rcases hbefore with ⟨pubs, account, hthorough, hpubs⟩ | ⟨hcancelled, o, ho, hunfit⟩
    · have hset : ∀ o, op = .add o → (h.course ops).origin ≠ .unset := by
        rintro o rfl
        have hset := hseeded (ops.map .call) o [] (by simp)
        rwa [Step.calls_map] at hset
      obtain ⟨⟨more, account'⟩, hnext⟩ :=
        h.thorough_step hs hops (Ne.symm hclear.2) hset hstep account hthorough
      rcases hnext with hthorough' | ⟨o, rfl, hcancelled, hunfit⟩
      · obtain ⟨new, hnew⟩ := (h.course ops).past_step h.plain.clock op
        rw [← h.course_concat] at hnew
        have hpubs' := account'.firsts_append hthorough' hpubs hnew
        exact .inl ⟨pubs ++ more, account', hthorough', hpubs'⟩
      · exact .inr ⟨⟨hgiven, hcancelled⟩, o, by simp, hunfit⟩
    · refine .inr ⟨Stage.cancelled ?_ hstep hcancelled, o, List.mem_append_left _ ho, hunfit⟩
      simpa using Ne.symm hreset.2

/-- **Where nothing fails** no window is missed, unless a payload cannot be written: then the token
is cancelled for good. -/
theorem Serves.thorough_run (h : b.Serves config) (hs : b.Smooth config) (hops : b.Provides ops)
    (hreset : .resetCancellation ∉ ops) (hclear : .clear ∉ ops)
    (hseeded : Step.Seeded h.plain.clock (Course.start config.completeWindow) (ops.map .call))
    (ht : b.reached config (ops.map .call) = some t) :
    Thorough (h.exposed True) (h.course ops) t.writer t.world ∨
      t.world.pipeline.Cancelled t.writer.token ∧ ∃ o, .add o ∈ ops ∧ ¬o.item.Fits := by
  rcases h.publishes_firsts hs hops hreset hclear hseeded ht with ⟨-, -, hthorough, -⟩ | hlapsed
  · exact .inl hthorough
  · exact .inr hlapsed

end Outset

end SealedStream
