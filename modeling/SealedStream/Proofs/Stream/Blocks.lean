import SealedStream.Proofs.Stream.Coverage
import SealedStream.Proofs.Stream.Delivery

/-!
Blocks and record files: a block goes on in the file of the object before, if it is the block that
the file was opened for, or within the period of this. Else the block is split.
-/

namespace SealedStream

/-! ### Places in groups -/

lemma exists_append_of_lt {α β : Type} {f : α → List β} {xs : List α} {n : ℕ}
    (h : n < (xs.flatMap f).length) : ∃ before x after, xs = before ++ x :: after ∧
      (before.flatMap f).length ≤ n ∧ n < (before.flatMap f).length + (f x).length := by
  induction xs generalizing n with
  | nil => simp at h
  | cons x xs ih =>
    rw [List.flatMap_cons, List.length_append] at h
    by_cases hn : n < (f x).length
    · exact ⟨[], x, xs, rfl, Nat.zero_le _, by simpa using hn⟩
    · obtain ⟨before, y, after, rfl, hle, hlt⟩ := ih (n := n - (f x).length) (by omega)
      refine ⟨x :: before, y, after, rfl, ?_, ?_⟩ <;>
        rw [List.flatMap_cons, List.length_append] <;> omega

lemma getElem?_succ_cases {α : Type} {before g after : List α} {x y : α} {n : ℕ}
    (hn : before.length ≤ n) (hn' : n ≤ before.length + g.length)
    (h : (before ++ (x :: g ++ after))[n + 1]? = some y) :
    n + 1 ≤ before.length + g.length ∧ y ∈ g ∨
      n = before.length + g.length ∧ after.head? = some y := by
  rw [List.getElem?_append_right (by omega)] at h
  by_cases hlast : n = before.length + g.length
  · refine .inr ⟨hlast, ?_⟩
    rw [List.getElem?_append_right (by rw [List.length_cons]; omega)] at h
    rw [List.head?_eq_getElem?, ← h, List.length_cons]
    congr 1
    omega
  · refine .inl ⟨by omega, ?_⟩
    rw [List.getElem?_append_left (by rw [List.length_cons]; omega),
      show n + 1 - before.length = n - before.length + 1 by omega, List.getElem?_cons_succ] at h
    exact List.mem_of_getElem? h

/-- **The next object** is in the same group just if it belongs to the window of its first. -/
lemma groups_succ_iff {millis : UInt64} {os g : List StreamObject} {o y : StreamObject}
    {before after : List (List StreamObject)} {n : ℕ}
    (h : groups millis os = before ++ (o :: g) :: after) (hn : before.flatten.length ≤ n)
    (hn' : n ≤ before.flatten.length + g.length) (hy : os[n + 1]? = some y) :
    n + 1 ≤ before.flatten.length + g.length ↔ (o.window millis).takes millis y = true := by
  obtain ⟨hin, hout⟩ := groups_split h
  rw [← flatten_groups millis os, h, List.flatten_append, List.flatten_cons] at hy
  rcases getElem?_succ_cases hn hn' hy with ⟨hle, hmem⟩ | ⟨rfl, hhead⟩
  · exact ⟨fun _ => hin y hmem, fun _ => hle⟩
  · refine ⟨fun hle => by omega, fun htakes => ?_⟩
    rw [hout y hhead] at htakes
    cases htakes

/-! ### Blocks -/

lemma Alignment.eq_of_sameBlock {a a' : Alignment} (h : a.sameBlock a' = true) : a = a' := by
  cases a <;> cases a' <;> simp_all [sameBlock]

/-- **Each object is in a file**, which holds the group that the object is in. -/
lemma Records.exists_coverage {σ ω : Type} [Storage σ ω] {G : Setting σ ω} {millis : UInt64}
    {os : List StreamObject} {initial : Hash} {pubs : List Publication} {past : List Stretch}
    {last : Option WrittenFile} {s : Surroundings σ} {n : ℕ} (h : Records G pubs past last s)
    (hk : G.known) (hgroups : Stretch.Groups millis os (.given initial)
      (pubs.map Publication.stretch)) (hn : n < os.length) :
    ∃ (c : Coverage) (before after : List (List StreamObject)) (o : StreamObject)
        (g : List StreamObject),
      c.path ∈ s.placed ∧ G.view.Stores s.storage c.path c.file ∧ c.Exact initial s.pipeline os ∧
      groups millis os = before ++ (o :: g) :: after ∧ c.first = before.flatten.length ∧
      c.last = c.first + g.length ∧ c.first ≤ n ∧ n ≤ c.last := by
  rw [← hgroups.flatMap_objects] at hn
  obtain ⟨before, st, after, hsplit, hle, hlt⟩ := exists_append_of_lt hn
  have hst : st ∈ pubs.map Publication.stretch := by simp [hsplit]
  obtain ⟨o, g, hg, -, -⟩ := (hgroups.opened st hst).head
  obtain ⟨p, hp, rfl⟩ := List.mem_map.mp hst
  obtain ⟨call, hvalid⟩ := h.published.valid hp
  have hexact := hvalid.exact hk hgroups.linked hsplit
  rw [hgroups.flatMap_objects] at hexact
  rw [hg, List.length_cons] at hlt
  have hlast : (p.coverage (before.flatMap Stretch.objects).length).last =
      (before.flatMap Stretch.objects).length + g.length := by
    simp [Publication.coverage, hg]
  refine ⟨p.coverage (before.flatMap Stretch.objects).length, before.map Stretch.objects,
    after.map Stretch.objects, o, g, ?_, h.stores hp, hexact, ?_, ?_, hlast, hle, ?_⟩
  · rw [h.placed]
    exact List.mem_map_of_mem hp
  · rw [← hgroups.objects, hsplit, List.map_append, List.map_cons, hg]
  · rw [← List.flatMap_def]
    rfl
  · rw [hlast]
    omega

namespace Outset

variable {σ ω : Type} [Storage σ ω] {b : Outset σ ω} {config : Config} {os : List StreamObject}
  {initial : Hash}

/-- **Where blocks are kept together.** Objects whose times do not go back, all of which can be
named and written, are handed to a new writer and the writer is closed, while nothing fails. Then
any two objects of one block that follow one another are in one record file just if the first object
of the file is of this block too, or of the period of the second. -/
theorem block_kept_iff (h : b.Serves config) (hs : b.Smooth config)
    (hwindow : config.completeWindow = false)
    (hfree : ∀ path, config.Names path → b.view.file b.storage path = none)
    (hsorted : os.Pairwise fun x y : StreamObject => x.timestamp ≤ y.timestamp)
    (hnamed : ∀ x ∈ os, ∃ text, x.timestamp.toIso = .ok text) (hfits : ∀ x ∈ os, x.item.Fits)
    (hresolved : ∀ x ∈ os, ∃ k, b.pipeline.Holds x.link k) :
    ∃ t, b.reached config ((Operation.batch initial os).map .call) = some t ∧
      ∀ n x y, os[n]? = some x → os[n + 1]? = some y →
        x.alignment.sameBlock y.alignment = true →
        ∃ (c : Coverage) (before after : List (List StreamObject)) (o : StreamObject)
            (g : List StreamObject),
          c.path ∈ t.world.placed ∧ b.view.Stores t.world.storage c.path c.file ∧
          c.Exact initial t.world.pipeline os ∧
          groups config.periodMillis os = before ++ (o :: g) :: after ∧
          c.first = before.flatten.length ∧ c.last = c.first + g.length ∧
          c.first ≤ n ∧ n ≤ c.last ∧
          (n + 1 ≤ c.last ↔ o.alignment.sameBlock x.alignment = true ∨
            o.timestamp.periodIn config.periodMillis =
              y.timestamp.periodIn config.periodMillis) := by
  obtain ⟨t, pubs, ht, account, -, hgroups⟩ := publish_groups h hs initial hfree hsorted hnamed
    hfits hresolved hwindow
  refine ⟨t, ht, fun n x y hx hy hblock => ?_⟩
  obtain ⟨c, before, after, o, g, hpath, hstores, hexact, hgroup, hfirst, hlast, hle, hle'⟩ :=
    account.records.exists_coverage trivial hgroups (List.getElem?_eq_some_iff.mp hx).1
  refine ⟨c, before, after, o, g, hpath, hstores, hexact, hgroup, hfirst, hlast, hle, hle', ?_⟩
  rw [hlast, hfirst] at hle' ⊢
  rw [groups_succ_iff hgroup (hfirst ▸ hle) hle' hy, Alignment.eq_of_sameBlock hblock,
    Window.takes, Window.contains, Bool.or_eq_true, decide_eq_true_iff]
  rfl

/-- A block that begins behind another object is split at the end of the period. -/
theorem block_split_spanning : ∃ (t : Stage Disk DiskOutput) (c : Coverage),
    (chained spanning).reached .standard ((Operation.batch .zero spanning).map .call) = some t ∧
      c.path ∈ t.world.placed ∧ c.Exact .zero t.world.pipeline spanning ∧ c.first = 0 ∧
      c.last = 1 ∧ spanning[1].alignment.sameBlock spanning[2].alignment = true := by
  obtain ⟨t, ht, hblocks⟩ := block_kept_iff (serves_chained spanning) (smooth_chained spanning) rfl
    (fun path _ => free_chained _ path) sorted_spanning named_spanning fits_spanning holds_spanning
  obtain ⟨c, before, after, o, g, hpath, -, hexact, hgroups, hfirst, hlast, hle, -⟩ :=
    hblocks 1 spanning[1] spanning[2] rfl rfl (by decide)
  refine ⟨t, c, ht, hpath, hexact, ?_⟩
  rw [groups_spanning] at hgroups
  cases before with
  | nil =>
    obtain ⟨hgroup, -⟩ := List.cons.inj hgroups
    obtain ⟨-, rfl⟩ := List.cons.inj hgroup
    exact ⟨hfirst, by rw [hlast, hfirst]; rfl, by decide⟩
  | cons front before =>
    obtain ⟨rfl, -⟩ := List.cons.inj hgroups
    rw [hfirst, List.flatten_cons, List.length_append] at hle
    simp [spanning] at hle
    omega

end Outset

end SealedStream
