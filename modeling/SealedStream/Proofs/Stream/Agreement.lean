import Mathlib.Data.List.Nodup
import SealedStream.Proofs.Stream.Integrity
import SealedStream.Proofs.Time.Order

/-!
Failures take whole files away, and that is all they do: what a run puts in place in spite of them,
the run of the same calls without any puts in place as well, byte for byte.

Both runs go through one course, and a file is determined by its stretch of it.
-/

namespace SealedStream

variable {σ ω τ υ : Type} [Storage σ ω] [Storage τ υ] {initial : Hash} {config : Config}
  {ops : List Operation} {steps : List Step} {b : Outset σ ω} {c : Outset τ υ}

/-! ### One stretch, one file -/

section

variable {G : Setting σ ω} {K : Setting τ υ} {x y : Publication} {p q : Pipeline} {m n : ℕ}
  (hx : x.Valid G p m) (hy : y.Valid K q n) (hkind : K.config.kind = G.config.kind) (hG : G.known)
  (hK : K.known) (hp : G.pipeline.Extends p) (hq : K.pipeline.Extends q)
  (hst : y.stretch = x.stretch) {ss : List Stretch} (hlinked : Stretch.Linked (.given initial) ss)
  (hmem : x.stretch ∈ ss) (hlinks : ∀ o ∈ ss.flatMap Stretch.objects,
    ∃ k, G.pipeline.Holds o.link k ∧ K.pipeline.Holds o.link k)

include hx hy hkind hG hK hp hq hst hlinked hmem hlinks

/-- **What a file holds is determined by its stretch**, and by the hashes that links were resolved
to, in whatever directory it stands. -/
lemma Publication.Valid.file_eq : y.file = x.file := by
  have hsame : ∀ {o k k'}, o ∈ ss.flatMap Stretch.objects → p.Holds o.link k → q.Holds o.link k' →
      k' = k := by
    intro o k k' ho hk hk'
    obtain ⟨k₀, hk₀, hk₀'⟩ := hlinks o ho
    exact (hk'.unique (hk₀'.mono hq)).trans ((hk₀.mono hp).unique hk)
  have hstart : y.file.start = x.file.start := by
    have hsx := hx.starts hG
    have hsy := hy.starts hK
    rw [hst] at hsy
    rcases hlinked.before_cases hmem with h | ⟨o, ho, h⟩
    · rw [h] at hsx hsy
      exact hsy.trans hsx.symm
    · rw [h] at hsx hsy
      exact hsame ho hsx hsy
  have hfinish : y.file.finish = x.file.finish := by
    have hlast := List.getLast?_eq_some_getLast hx.nonempty
    exact hsame (List.mem_flatMap.mpr ⟨_, hmem, List.getLast_mem hx.nonempty⟩) (hx.ends hG _ hlast)
      (hy.ends hK _ (by rw [hst]; exact hlast))
  rw [hy.file, hx.file, hst, hstart, hfinish, hkind]

lemma Publication.Valid.content_eq : y.content = x.content := by
  have himage := hy.image
  rw [hx.file_eq hy hkind hG hK hp hq hst hlinked hmem hlinks, hx.image] at himage
  exact (Except.ok.inj himage).symm

end

lemma Publication.Valid.path_eq {G : Setting σ ω} {K : Setting τ υ} {x y : Publication}
    {p q : Pipeline} {m n : ℕ} (hx : x.Valid G p m) (hy : y.Valid K q n)
    (hconfig : K.config = G.config) (hst : y.stretch = x.stretch) : y.path = x.path := by
  have hname := hy.name
  rw [hst, hconfig, hx.name] at hname
  exact (Except.ok.inj hname).symm

/-! ### One course -/

/-- What the calls among steps ask for, cancellations that are taken back left out. -/
def Step.feed (steps : List Step) : List Operation :=
  (Step.calls steps).filter (· ≠ .resetCancellation)

lemma Step.reset_not_mem_feed (steps : List Step) : .resetCancellation ∉ Step.feed steps := by
  simp [Step.feed]

lemma Step.mem_feed {o : StreamObject} (h : .call (.add o) ∈ steps) : .add o ∈ Step.feed steps := by
  refine List.mem_filter.mpr ⟨List.mem_filterMap.mpr ⟨_, h, rfl⟩, by simp⟩

/-- A stream is fed to a writer: one running hash is set before the first object, and the times of
objects increase. -/
structure Operation.Feed (initial : Hash) (ops : List Operation) : Prop where
  starts : Operation.startsFrom initial ops = true
  increasing : (Operation.objects ops).Pairwise fun o o' => o.timestamp < o'.timestamp

lemma Outset.Serves.course_feed (h : b.Serves config) (steps : List Step) :
    h.course (Step.calls steps) = h.course (Step.feed steps) :=
  (Course.run_filter _ _ _).symm

lemma Outset.Serves.mem_objects (h : b.Serves config) {o : StreamObject}
    (ho : o ∈ (h.course ops).objects) : .add o ∈ ops := by
  obtain ⟨xs, hxs, hobjects⟩ :=
    Course.objects_run (Course.start config.completeWindow) h.plain.clock ops
  rw [Outset.Serves.course, hobjects] at ho
  obtain ⟨op, hop, heq⟩ := List.mem_filterMap.mp (hxs.subset ho)
  cases op with
  | add o' =>
    cases heq
    exact hop
  | _ => cases heq

lemma Operation.Feed.distinct (hfeed : Operation.Feed initial ops) (h : b.Serves config) :
    ((h.course ops).stretches.map Stretch.time).Nodup := by
  obtain ⟨xs, hxs, hobjects⟩ :=
    Course.objects_run (Course.start config.completeWindow) h.plain.clock ops
  have htimes := (h.grounded ops).times_sublist
  rw [Outset.Serves.course, hobjects] at htimes
  have hnodup : ((Operation.objects ops).map StreamObject.timestamp).Nodup :=
    List.pairwise_map.mpr (hfeed.increasing.imp Timestamp.ne_of_lt)
  exact hnodup.sublist (htimes.trans (hxs.map _))

/-! ### Two accounts -/

lemma Setting.fresh_eq {G : Setting σ ω} {K : Setting τ υ} (hconfig : K.config = G.config)
    (hfiles : ∀ path, G.config.Names path → G.files path = K.files path) (st : Stretch) :
    K.fresh st = G.fresh st := by
  unfold fresh
  rw [hconfig]
  cases hname : Naming.recordPath G.config.exportDir st.time G.config.kind with
  | error e => rfl
  | ok path => simp only [hfiles path ⟨_, hname⟩]

/-- Two settings of one configuration, in which the links of a course's objects hold the same
hashes, and a course that goes on from one running hash. -/
structure Setting.Alike (G : Setting σ ω) (K : Setting τ υ) (d : Course) : Prop where
  config : K.config = G.config
  known : G.known ∧ K.known
  linked : ∃ initial, Stretch.Linked (.given initial) d.stretches
  links {o : StreamObject} : o ∈ d.objects →
    ∃ k, G.pipeline.Holds o.link k ∧ K.pipeline.Holds o.link k

section

variable {G : Setting σ ω} {K : Setting τ υ} {xs ys : List Publication} {d : Course} {w : Writer ω}
  {v : Writer υ} {s : Surroundings σ} {r : Surroundings τ}

lemma Setting.Alike.file_eq (hGK : G.Alike K d) (h : Account G xs d w s) (h' : Account K ys d v r)
    {x y : Publication} (hx : x ∈ xs) (hy : y ∈ ys) (hst : y.stretch = x.stretch) :
    y.file = x.file := by
  obtain ⟨initial, hlinked⟩ := hGK.linked
  obtain ⟨m, hxvalid⟩ := h.records.published.valid hx
  obtain ⟨n, hyvalid⟩ := h'.records.published.valid hy
  exact hxvalid.file_eq hyvalid (congrArg Config.kind hGK.config) hGK.known.1 hGK.known.2
    h.records.grown h'.records.grown hst hlinked (h.stretch_mem hx) fun o ho => hGK.links ho

lemma Setting.Alike.agree (hGK : G.Alike K d) (h : Account G xs d w s) (h' : Account K ys d v r)
    {x y : Publication} (hx : x ∈ xs) (hy : y ∈ ys) (hst : y.stretch = x.stretch) :
    y.path = x.path ∧ y.content = x.content := by
  obtain ⟨initial, hlinked⟩ := hGK.linked
  obtain ⟨m, hxvalid⟩ := h.records.published.valid hx
  obtain ⟨n, hyvalid⟩ := h'.records.published.valid hy
  exact ⟨hxvalid.path_eq hyvalid hGK.config hst, hxvalid.content_eq hyvalid
    (congrArg Config.kind hGK.config) hGK.known.1 hGK.known.2 h.records.grown h'.records.grown hst
    hlinked (h.stretch_mem hx) fun o ho => hGK.links ho⟩

lemma Setting.Alike.within (hGK : G.Alike K d) (h : Account G xs d w s) (h' : Account K ys d v r)
    (hfiles : ∀ path, G.config.Names path → G.files path = K.files path)
    (hall : ys.map Publication.stretch = d.past.filter K.fresh) {path : Path}
    (hpath : path ∈ s.placed) :
    path ∈ r.placed ∧ ∃ image, G.view.file s.storage path = some image ∧
      K.view.file r.storage path = some image := by
  rw [h.records.placed] at hpath
  obtain ⟨x, hx, rfl⟩ := List.mem_map.mp hpath
  have hin : x.stretch ∈ ys.map Publication.stretch := by
    have hfresh := h.records.sublist.subset (List.mem_map_of_mem (f := Publication.stretch) hx)
    rw [List.mem_filter, ← Setting.fresh_eq hGK.config hfiles] at hfresh
    rw [hall]
    exact List.mem_filter.mpr hfresh
  obtain ⟨y, hy, hst⟩ := List.mem_map.mp hin
  obtain ⟨hpath, hcontent⟩ := hGK.agree h h' hx hy hst
  refine ⟨?_, x.content, h.records.content hx, ?_⟩
  · rw [h'.records.placed, ← hpath]
    exact List.mem_map_of_mem hy
  · rw [← hpath, ← hcontent]
    exact h'.records.content hy

/-- **One name, one file**, as no two windows of a course have one time. -/
lemma Setting.Alike.same (hGK : G.Alike K d) (h : Account G xs d w s) (h' : Account K ys d v r)
    (hdistinct : (d.stretches.map Stretch.time).Nodup) {path : Path} (hpath : path ∈ s.placed)
    (hpath' : path ∈ r.placed) :
    ∃ image, G.view.file s.storage path = some image ∧ K.view.file r.storage path = some image := by
  rw [h.records.placed] at hpath
  rw [h'.records.placed] at hpath'
  obtain ⟨x, hx, rfl⟩ := List.mem_map.mp hpath
  obtain ⟨y, hy, hyx⟩ := List.mem_map.mp hpath'
  obtain ⟨m, hxvalid⟩ := h.records.published.valid hx
  obtain ⟨n, hyvalid⟩ := h'.records.published.valid hy
  have htime : y.stretch.time = x.stretch.time := by
    have hname := hyvalid.name
    rw [hGK.config] at hname
    have hroles : Naming.Role.record.path G.config.kind y.path =
        Naming.Role.record.path G.config.kind x.path := hyx
    exact (Naming.path_inj G.plain hname hxvalid.name hroles).2
  have hst := List.inj_on_of_nodup_map hdistinct (h'.stretch_mem hy) (h.stretch_mem hx) htime
  obtain ⟨-, hcontent⟩ := hGK.agree h h' hx hy hst
  refine ⟨x.content, h.records.content hx, ?_⟩
  rw [← hyx, ← hcontent]
  exact h'.records.content hy

end

/-! ### Two runs -/

/-- Nothing has failed: the token has not been cancelled. -/
def Stage.Unbroken (t : Stage σ ω) : Prop := t.world.pipeline.isCancelled t.writer.token = false

def Outset.SameAt (b : Outset σ ω) (c : Outset τ υ) (t : Stage σ ω) (u : Stage τ υ) (path : Path) :
    Prop :=
  ∃ image, b.view.file t.world.storage path = some image ∧
    c.view.file u.world.storage path = some image

/-- **Failures only ever remove whole files.** A run goes through whatever failures of its storage
and signer, whatever others do to links and tokens, and with cancellations taken back at will. Then
the same calls over a storage and a signer that do not fail come to an end, and put in place every
file that the run has put in place, byte for byte, unless that run too has met with a failure, which
only a payload that is too long can bring about. And no other run of the same calls, with whatever
failures of its own, puts another file in place under one name. -/
theorem Outset.placed_agree {t : Stage σ ω} (hb : b.Serves config) (hc : c.Serves config)
    (hfeed : Operation.Feed initial (Step.feed steps))
    (hnamed : ∀ o, .add o ∈ Step.feed steps → ∃ text, o.timestamp.toIso = .ok text)
    (hlinks : ∀ o, .add o ∈ Step.feed steps →
      ∃ k, b.pipeline.Holds o.link k ∧ c.pipeline.Holds o.link k)
    (ht : b.reached config steps = some t) :
    (c.Smooth config →
      (∀ path, config.Names path → b.view.file b.storage path = c.view.file c.storage path) →
      ∃ u, c.reached config ((Step.feed steps).map .call) = some u ∧
        ((∀ o, .add o ∈ Step.feed steps → o.item.Fits) → u.Unbroken) ∧
        (u.Unbroken →
          ∀ path ∈ t.world.placed, path ∈ u.world.placed ∧ b.SameAt c t u path)) ∧
    ∀ others u, Step.feed others = Step.feed steps → c.reached config others = some u →
      ∀ path ∈ t.world.placed, path ∈ u.world.placed → b.SameAt c t u path := by
  have hlinked : Stretch.Linked (.given initial) (hb.course (Step.feed steps)).stretches :=
    (Course.follows_of_startsFrom rfl hfeed.starts).linked
  have hknown : ∀ {o}, o ∈ (hb.course (Step.feed steps)).objects →
      ∃ k, b.pipeline.Holds o.link k ∧ c.pipeline.Holds o.link k :=
    fun ho => hlinks _ (hb.mem_objects ho)
  obtain ⟨pubs, account, -⟩ := Outset.account_exposed hb True
    (fun _ o ho => (hlinks o (Step.mem_feed ho)).choose_spec.1.1) ht
  rw [hb.course_feed] at account
  refine ⟨fun hs hfiles => ?_, fun others u hothers hu path hpath hpath' => ?_⟩
  · have hprovides : c.Provides (Step.feed steps) :=
      ⟨fun {o} ho => (hlinks o ho).imp fun _ hk => hk.2, fun {o} ho => hnamed o ho⟩
    obtain ⟨u, pubs', hu, account'⟩ := Outset.account_sheltered hc hs hprovides hfeed.starts
      (Step.reset_not_mem_feed steps) (hfeed.distinct hc)
      (fun hfits : ∀ o, .add o ∈ Step.feed steps → o.item.Fits => hfits)
    have halike : ∀ fitting, (hb.exposed True).Alike (hc.sheltered hs fitting)
        (hc.course (Step.feed steps)) :=
      fun _ => ⟨rfl, ⟨trivial, trivial⟩, ⟨_, hlinked⟩, hknown⟩
    refine ⟨u, hu, fun hfits => ?_, fun hunbroken path hpath => ?_⟩
    · exact (account'.steady trivial).elim (fun hst => hst.token) fun hl => (hl.unfit hfits).elim
    · rcases account'.steady trivial with hst | hl
      · exact (halike _).within account account' hfiles hst.all hpath
      · cases hunbroken.symm.trans hl.cancelled
  · obtain ⟨pubs', account', -⟩ := Outset.account_exposed hc True
      (fun _ o ho => (hlinks o (hothers ▸ Step.mem_feed ho)).choose_spec.2.1) hu
    rw [hc.course_feed, hothers] at account'
    have halike : (hb.exposed True).Alike (hc.exposed True) (hc.course (Step.feed steps)) :=
      ⟨rfl, ⟨trivial, trivial⟩, ⟨_, hlinked⟩, hknown⟩
    exact halike.same account account' (hfeed.distinct hb) hpath hpath'

/-- On a disk that fails to close one of the files, against one that does not. -/
theorem Outset.placed_agree_unclosed : ∃ t u,
    (sample.withFaults { Faults.none with close := some ⟨.other, "01Z.rcd.part", 0⟩ }).reached
        .standard shaken = some t ∧
      sample.reached .standard ((Step.feed shaken).map .call) = some u ∧ u.Unbroken ∧
      ∀ path ∈ t.world.placed, path ∈ u.world.placed ∧
        (sample.withFaults { Faults.none with close := some ⟨.other, "01Z.rcd.part", 0⟩ }).SameAt
          sample t u path := by
  have h : (sample.withFaults
      { Faults.none with close := some ⟨.other, "01Z.rcd.part", 0⟩ }).Serves .standard :=
    serves_sample.withFaults nofun
  have hadds : ∀ {o}, .add o ∈ Step.feed shaken → o ∈ few := by
    intro o ho
    simpa [Step.feed, Step.calls, shaken, few] using ho
  obtain ⟨t, ht⟩ := exists_shaken h fun _ => holds_sample
  have hfeed : Operation.Feed .zero (Step.feed shaken) := ⟨by decide, by decide⟩
  obtain ⟨u, hu, hunbroken, hplaced⟩ := (placed_agree h serves_sample hfeed
    (fun _ ho => named_few (hadds ho))
    (fun _ ho => (holds_sample (hadds ho)).imp fun _ hk => ⟨hk, hk⟩) ht).1 smooth_sample
    fun _ _ => rfl
  have hfits : ∀ o ∈ few, o.item.Fits := by decide
  have hu' := hunbroken fun o ho => hfits o (hadds ho)
  exact ⟨t, u, ht, hu, hu', hplaced hu'⟩

end SealedStream
