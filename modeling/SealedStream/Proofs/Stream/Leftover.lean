import Mathlib.Data.List.TakeWhile
import SealedStream.Proofs.Stream.Agreement

/-!
How far a run gets, and what a later run finds of it.

A run that nobody interferes with publishes the first of the stretches that it is to write, and no
more once it has failed. The stretches that are left are just those for which a later run finds no
file.
-/

namespace SealedStream

open Naming (Role)

variable {σ ω τ υ : Type} [Storage σ ω] [Storage τ υ] {G : Setting σ ω} {K : Setting τ υ}
  {p : Pipeline} {pubs : List Publication} {past ss : List Stretch} {last : Option WrittenFile}
  {c : Course} {w : Writer ω} {s : Surroundings σ} {b : Publication} {path : Path} {st : Stretch}

/-! ### How far a run gets -/

lemma Publication.Valid.fits {call : ℕ} (h : b.Valid G p call) : b.stretch.Fits := by
  intro o ho
  have himage := h.image
  rw [RecordFile.encode_eq] at himage
  refine Section.fits_of_image himage ?_
  rw [h.file]
  have hitem : o.item ∈ b.stretch.items := List.mem_map_of_mem ho
  simp [RecordFile.sections, StreamKind.file, hitem]

lemma Published.fits (h : Published G p pubs) : ∀ st ∈ pubs.map Publication.stretch, st.Fits := by
  intro st hst
  obtain ⟨b, hb, rfl⟩ := List.mem_map.mp hst
  obtain ⟨call, hvalid⟩ := h.valid hb
  exact hvalid.fits

/-- **The first stretches are published**, whatever fails, if nobody interferes. -/
lemma Account.first (h : Account G pubs c w s) (hO : G.orderly) :
    pubs.map Publication.stretch <+: c.past.filter G.fresh := by
  rcases h.state hO with hst | hh
  · simp only [hst.all, List.prefix_rfl]
  · exact hh.first

lemma takeWhile_upto_first {α : Type} {p : α → Bool} {xs zs : List α} {y : α}
    (h : xs ++ [y] <+: zs) (hxs : ∀ x ∈ xs, p x = true) (hy : p y = false) :
    zs.takeWhile p = xs := by
  obtain ⟨rest, rfl⟩ := h
  rw [List.append_assoc, List.takeWhile_append_of_pos hxs]
  simp [hy]

def upToFirst {α : Type} (p : α → Bool) : List α → List α
  | [] => []
  | x :: xs => if p x then [x] else x :: upToFirst p xs

section

variable {α β : Type} {p q : α → Bool} {xs zs : List α} {y : α}

lemma upToFirst_eq_self (h : ∀ x ∈ xs, p x = false) : upToFirst p xs = xs := by
  induction xs with
  | nil => rfl
  | cons x xs ih =>
    rw [upToFirst, h x List.mem_cons_self, ih fun z hz => h z (List.mem_cons_of_mem _ hz)]
    rfl

lemma upToFirst_of_concat (h : xs ++ [y] <+: zs) (hxs : ∀ x ∈ xs, p x = false) (hy : p y = true) :
    upToFirst p zs = xs ++ [y] := by
  obtain ⟨rest, rfl⟩ := h
  induction xs with
  | nil => simp [upToFirst, hy]
  | cons x xs ih =>
    simp only [List.cons_append]
    rw [upToFirst, hxs x List.mem_cons_self, ih fun z hz => hxs z (List.mem_cons_of_mem _ hz)]
    rfl

lemma prefix_upToFirst (p : α → Bool) (xs : List α) : upToFirst p xs <+: xs := by
  induction xs with
  | nil => exact List.prefix_rfl
  | cons x xs ih =>
    rw [upToFirst]
    split
    · exact ⟨xs, rfl⟩
    · exact List.prefix_cons_inj x |>.mpr ih

lemma upToFirst_map (p : β → Bool) (f : α → β) (xs : List α) :
    upToFirst p (xs.map f) = (upToFirst (p ∘ f) xs).map f := by
  induction xs with
  | nil => rfl
  | cons x xs ih =>
    rw [List.map_cons, upToFirst, upToFirst, ih]
    show _ = List.map f (if p (f x) = true then _ else _)
    split <;> rfl

lemma upToFirst_congr (h : ∀ x ∈ xs, p x = q x) : upToFirst p xs = upToFirst q xs := by
  induction xs with
  | nil => rfl
  | cons x xs ih =>
    rw [upToFirst, upToFirst, h x List.mem_cons_self,
      ih fun z hz => h z (List.mem_cons_of_mem _ hz)]

lemma exists_mem_upToFirst (h : y ∈ xs) (hy : p y = true) :
    ∃ x ∈ upToFirst p xs, p x = true := by
  induction xs with
  | nil => cases h
  | cons x xs ih =>
    rw [upToFirst]
    split
    · exact ⟨x, List.mem_singleton.mpr rfl, ‹_›⟩
    · rcases List.mem_cons.mp h with rfl | h
      · exact absurd hy ‹_›
      · obtain ⟨z, hz, hpz⟩ := ih h
        exact ⟨z, List.mem_cons_of_mem _ hz, hpz⟩

end

/-- A signature file was left unfinished beside a record file's path. -/
def Setting.blocked (G : Setting σ ω) (path : Path) : Bool :=
  (G.files (Role.signaturePart.path G.config.kind path)).isSome

def Setting.obstructed (G : Setting σ ω) (st : Stretch) : Bool :=
  match Naming.recordPath G.config.exportDir st.time G.config.kind with
  | .ok path => G.blocked path
  | .error _ => false

lemma Publication.Valid.obstructed_eq {call : ℕ} (h : b.Valid G p call) :
    G.obstructed b.stretch = G.blocked b.path := by
  rw [Setting.obstructed, h.name]

lemma Publication.Valid.unobstructed {call : ℕ} (h : b.Valid G p call)
    (hsigned : b.signature.isSome) : G.obstructed b.stretch = false := by
  rw [h.obstructed_eq, Setting.blocked, h.clear hsigned]
  rfl

lemma Published.unobstructed (h : Published G p pubs) {before : List Publication}
    (hbefore : ∀ b ∈ before, b ∈ pubs) (hsigned : ∀ b ∈ before, b.signature.isSome) :
    ∀ st ∈ before.map Publication.stretch, G.obstructed st = false := by
  intro st hst
  obtain ⟨b, hb, rfl⟩ := List.mem_map.mp hst
  obtain ⟨call, hvalid⟩ := h.valid (hbefore b hb)
  exact hvalid.unobstructed (hsigned b hb)

/-- **Where nothing fails, stretches are published up to one that cannot be written**, or up to the
first that is obstructed. -/
theorem Account.gets (h : Account G pubs c w s) (hS : G.sure) (hl : G.lasting)
    (hcurrent : c.current = none) : pubs.map Publication.stretch =
      upToFirst G.obstructed ((c.past.filter G.fresh).takeWhile (·.Fits)) := by
  have hpublished := h.records.published
  have hfits : ∀ st ∈ pubs.map Publication.stretch, decide st.Fits = true := fun st hst =>
    decide_eq_true (hpublished.fits st hst)
  rcases h.state (G.ordered hS) with hst | hh
  · rw [← hst.all, List.takeWhile_eq_self_iff.mpr hfits,
      upToFirst_eq_self (hpublished.unobstructed (fun _ => id) fun _ => hst.signed)]
  · have hdue := hh.due hS hl
    rw [Course.stretches, hcurrent, Option.toList_none, List.append_nil] at hdue
    rcases hdue with ⟨hsigned, hunfit, hnext⟩ | ⟨rfl, hsigned, hthere⟩
    · rw [takeWhile_upto_first hnext hfits (decide_eq_false hunfit),
        upToFirst_eq_self (hpublished.unobstructed (fun _ => id) hsigned)]
    · rename_i before b
      obtain ⟨call, hvalid⟩ := hpublished.valid (b := b) (by simp)
      have hprefix : (before ++ [b]).map Publication.stretch <+:
          (c.past.filter G.fresh).takeWhile (·.Fits) := by
        obtain ⟨rest, hrest⟩ := hh.first
        rw [← hrest, List.takeWhile_append_of_pos hfits]
        exact List.prefix_append _ _
      rw [List.map_append, List.map_singleton] at hprefix ⊢
      refine (upToFirst_of_concat hprefix (hpublished.unobstructed
        (fun x hx => List.mem_append_left _ hx) hsigned) ?_).symm
      rw [hvalid.obstructed_eq]
      exact Option.isSome_iff_ne_none.mpr hthere

lemma Setting.unobstructed_of_fresh (hR : G.reliable) (hfresh : G.fresh st = true) :
    G.obstructed st = false := by
  obtain ⟨-, path, hname, hfree⟩ := G.fresh_iff.mp hfresh
  rw [obstructed, hname]
  exact congrArg Option.isSome (G.clear hR ⟨_, hname⟩ hfree)

/-- **Where nothing is in the way** either, stretches are published up to one that cannot be
written. -/
theorem Account.upto (h : Account G pubs c w s) (hR : G.reliable) (hl : G.lasting)
    (hcurrent : c.current = none) :
    pubs.map Publication.stretch = (c.past.filter G.fresh).takeWhile (·.Fits) := by
  rw [h.gets (G.assured hR) hl hcurrent]
  refine upToFirst_eq_self fun st hst => G.unobstructed_of_fresh hR ?_
  exact (List.mem_filter.mp ((List.takeWhile_sublist _).subset hst)).2

lemma Account.steady_of_fits (h : Account G pubs c w s) (hR : G.reliable) (hl : G.lasting)
    (hfits : ∀ st ∈ c.stretches, st.Fits) : Steady G pubs c w s := by
  refine (h.state (G.ordered (G.assured hR))).resolve_right fun hh => ?_
  rcases hh.due (G.assured hR) hl with ⟨-, hunfit, hnext⟩ | ⟨rfl, -, hthere⟩
  · rename_i st
    have hmem : st ∈ c.stretches.filter G.fresh :=
      hnext.subset (List.mem_append_right _ (List.mem_singleton.mpr rfl))
    exact hunfit (hfits st (List.mem_filter.mp hmem).1)
  · rename_i before b
    obtain ⟨call, hvalid⟩ := h.records.published.valid (b := b) (by simp)
    obtain ⟨-, path, hname, hfree⟩ := G.fresh_iff.mp hvalid.fresh
    cases hvalid.name.symm.trans hname
    exact hthere (G.clear hR hvalid.names hfree)

/-! ### Where files stand -/

def Config.recordPath? (c : Config) (st : Stretch) : Option Path :=
  (Naming.recordPath c.exportDir st.time c.kind).toOption

lemma Published.recordPath? (h : Published G p pubs) (hb : b ∈ pubs) :
    G.config.recordPath? b.stretch = some b.path := by
  obtain ⟨call, hvalid⟩ := h.valid hb
  rw [Config.recordPath?, hvalid.name]
  rfl

/-- **The paths of publications** are those of their stretches. -/
lemma Publication.paths_eq {config : Config}
    (h : ∀ b ∈ pubs, config.recordPath? b.stretch = some b.path) :
    pubs.map Publication.path = (pubs.map Publication.stretch).filterMap config.recordPath? := by
  rw [List.filterMap_map, ← List.filterMap_eq_map]
  exact List.filterMap_congr fun b hb => (h b hb).symm

lemma Published.paths (h : Published G p pubs) :
    pubs.map Publication.path = (pubs.map Publication.stretch).filterMap G.config.recordPath? :=
  Publication.paths_eq fun _ hb => h.recordPath? hb

/-- A path of a window for its signatures, or for a file that is not finished. -/
def Config.Beside (c : Config) (path : Path) : Prop :=
  ∃ q r, c.Names q ∧ r ≠ Role.record ∧ path = r.path c.kind q

lemma Config.Plain.not_beside {c : Config} (hc : c.Plain) (hn : c.Names path) :
    ¬c.Beside path := by
  rintro ⟨q, r, hq, hr, hpath⟩
  exact hr (hc.path_inj (r := .record) hn hq hpath).1.symm

lemma Records.untouched_beside (h : Records G pubs past last s) (hbeside : ¬G.config.Beside path)
    (hnot : path ∉ pubs.map Publication.path) : G.view.file s.storage path = G.files path := by
  have hprogress : ¬G.InProgress path := by
    rintro ⟨q, hq, hpath | hpath⟩
    · exact hbeside ⟨q, .part, hq, by decide, hpath⟩
    · exact hbeside ⟨q, .signaturePart, hq, by decide, hpath⟩
  rw [h.files hprogress]
  refine putAll_of_not_mem fun hmem => ?_
  obtain ⟨file, hfile, rfl⟩ := List.mem_map.mp hmem
  obtain ⟨b, hb, hin⟩ := List.mem_flatMap.mp hfile
  obtain ⟨call, hvalid⟩ := h.published.valid hb
  obtain ⟨r, hr, hrole⟩ := hvalid.mem_files (List.mem_map_of_mem (f := Prod.fst) hin)
  rcases hrole with rfl | rfl
  · exact hnot (hr ▸ List.mem_map_of_mem hb)
  · exact hbeside ⟨_, .signature, hvalid.names, by decide, hr⟩

/-! ### What a later run finds -/

lemma Records.fresh_left (h : Records G pubs past last s) (hconfig : K.config = G.config)
    (hfiles : ∀ path, G.config.Names path → K.files path = G.view.file s.storage path)
    (st : Stretch) :
    K.fresh st = (decide (st.time ∉ pubs.map fun b => b.stretch.time) && G.fresh st) := by
  rw [Bool.eq_iff_iff, Bool.and_eq_true, decide_eq_true_iff, K.fresh_iff, G.fresh_iff, hconfig]
  constructor
  · rintro ⟨hkept, path, hname, hfree⟩
    rw [hfiles path ⟨_, hname⟩] at hfree
    have hnot : path ∉ pubs.map Publication.path := by
      intro hpath
      obtain ⟨b, hb, rfl⟩ := List.mem_map.mp hpath
      exact nomatch hfree.symm.trans (h.content hb)
    have hfirst : G.files path = none := by rw [← h.untouched ⟨_, hname⟩ hnot, hfree]
    refine ⟨fun htime => hnot ?_, hkept, path, hname, hfirst⟩
    obtain ⟨b, hb, htime⟩ := List.mem_map.mp htime
    obtain ⟨call, hvalid⟩ := h.published.valid hb
    have hpath := hvalid.name
    rw [htime, hname] at hpath
    cases hpath
    exact List.mem_map_of_mem hb
  · rintro ⟨hnot, hkept, path, hname, hfree⟩
    refine ⟨hkept, path, hname, ?_⟩
    rw [hfiles path ⟨_, hname⟩, h.untouched ⟨_, hname⟩ fun hpath => hnot ?_, hfree]
    obtain ⟨b, hb, rfl⟩ := List.mem_map.mp hpath
    obtain ⟨call, hvalid⟩ := h.published.valid hb
    have htime := (Naming.path_inj (r := .record) G.plain hvalid.name hname rfl).2
    exact htime ▸ List.mem_map_of_mem hb

/-- **What has been published and what is left** make up what was to be written. -/
theorem Records.filter_left (h : Records G pubs past last s) {done left : List Stretch}
    (hsplit : ss.filter G.fresh = done ++ left)
    (hdone : done.map Stretch.time = pubs.map fun b => b.stretch.time)
    (hdistinct : (ss.map Stretch.time).Nodup) (hconfig : K.config = G.config)
    (hfiles : ∀ path, G.config.Names path → K.files path = G.view.file s.storage path) :
    ss.filter K.fresh = left := by
  have hleft : ss.filter K.fresh =
      (ss.filter G.fresh).filter (·.time ∉ pubs.map fun b => b.stretch.time) := by
    rw [List.filter_filter]
    exact List.filter_congr fun st _ => h.fresh_left hconfig hfiles st
  have hnodup : ((ss.filter G.fresh).map Stretch.time).Nodup :=
    hdistinct.sublist (List.filter_sublist.map _)
  rw [hsplit, List.map_append, List.nodup_append] at hnodup
  rw [hleft, hsplit, List.filter_append, ← hdone, List.filter_eq_nil_iff.mpr, List.nil_append,
    List.filter_eq_self.mpr]
  · intro st hst
    exact decide_eq_true fun htime => hnodup.2.2 _ htime _ (List.mem_map_of_mem hst) rfl
  · intro st hst
    simpa using ⟨st, hst, rfl⟩

end SealedStream
