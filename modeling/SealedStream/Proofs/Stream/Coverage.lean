import SealedStream.Proofs.Stream.Integrity

/-!
The files of a run cover stretches of the stream that are disjoint, in order and without gaps, and
each starts and ends with the running hashes before and after its stretch.
-/

namespace SealedStream

variable {initial : Hash} {p : Pipeline} {xs before after : List StreamObject} {k : Hash}

/-- The running hash after the first `n` objects of a stream, as far as links say. -/
def runningHash? (initial : Hash) (p : Pipeline) (objects : List StreamObject) : ℕ → Option Hash
  | 0 => some initial
  | n + 1 => objects[n]?.bind fun o => p.hash? o.link

lemma Pipeline.Holds.hash? {l : Link} (h : p.Holds l k) : p.hash? l = some k := by
  rw [Pipeline.hash?, h.2]

lemma Origin.At.runningHash? (h : ((Origin.given initial).past before).At p k) :
    runningHash? initial p (before ++ after) before.length = some k := by
  rcases List.eq_nil_or_concat before with rfl | ⟨zs, o, rfl⟩
  · cases h
    rfl
  · rw [List.concat_eq_append] at h ⊢
    rw [past_concat] at h
    rw [List.length_append, List.length_singleton, SealedStream.runningHash?, List.append_assoc,
      List.getElem?_append_right (Nat.le_refl _), Nat.sub_self]
    exact Pipeline.Holds.hash? h

/-! ### Coverage -/

/-- A record file, and the first and the last of the objects that it covers, by their places in the
stream. -/
structure Coverage where
  path : Path
  file : RecordFile
  first : ℕ
  last : ℕ

/-- The file is that of the objects from the first to the last. -/
structure Coverage.Exact (initial : Hash) (p : Pipeline) (objects : List StreamObject)
    (c : Coverage) : Prop where
  ordered : c.first ≤ c.last
  inside : c.last < objects.length
  items : c.file.items =
    ((objects.drop c.first).take (c.last + 1 - c.first)).map StreamObject.item
  start : runningHash? initial p objects c.first = some c.file.start
  finish : runningHash? initial p objects (c.last + 1) = some c.file.finish

namespace Coverage

variable {objects : List StreamObject} {c d : Coverage}

/-- **A file that directly follows another** starts where that one ends. -/
lemma Exact.meets (hc : c.Exact initial p objects) (hd : d.Exact initial p objects)
    (h : d.first = c.last + 1) : d.file.start = c.file.finish := by
  have hstart := hd.start
  rw [h, hc.finish] at hstart
  exact (Option.some.inj hstart).symm

/-- **The chain of a file holds** where links hold the hashes of the chain. -/
lemma Exact.verifyChain (hc : c.Exact initial p objects)
    (hchain : ∀ n k, runningHash? initial p objects n = some k →
      k = RunningHash.after initial ((objects.take n).map StreamObject.item)) :
    c.file.verifyChain = .ok () := by
  have hstart := hchain _ _ hc.start
  have hfinish := hchain _ _ hc.finish
  have hordered := hc.ordered
  have hsplit : objects.take (c.last + 1) =
      objects.take c.first ++ (objects.drop c.first).take (c.last + 1 - c.first) := by
    rw [← List.take_add]
    congr 1
    omega
  rw [hsplit, List.map_append, RunningHash.after_append, ← hstart, ← hc.items] at hfinish
  rw [RecordFile.verifyChain, RunningHash.verify, if_pos hfinish.symm]

end Coverage

/-! ### Places of publications -/

def Publication.coverage (b : Publication) (n : ℕ) : Coverage :=
  ⟨b.path, b.file, n, n + b.stretch.objects.length - 1⟩

lemma exists_places {pubs : List Publication} {ss : List Stretch}
    (h : (pubs.map Publication.stretch).Sublist ss) (n : ℕ) :
    ∃ places : List (Publication × ℕ), places.map Prod.fst = pubs ∧
      places.Pairwise (fun x y => x.2 + x.1.stretch.objects.length ≤ y.2) ∧
      ∀ x ∈ places, ∃ before after, ss = before ++ x.1.stretch :: after ∧
        x.2 = n + (before.flatMap Stretch.objects).length := by
  induction ss generalizing pubs n with
  | nil =>
    rw [List.sublist_nil, List.map_eq_nil_iff] at h
    exact ⟨[], h.symm, .nil, nofun⟩
  | cons st ss ih =>
    have hshift : ∀ places : List (Publication × ℕ), (∀ x ∈ places, ∃ before after,
          ss = before ++ x.1.stretch :: after ∧
            x.2 = n + st.objects.length + (before.flatMap Stretch.objects).length) →
        ∀ x ∈ places, ∃ before after, st :: ss = before ++ x.1.stretch :: after ∧
          x.2 = n + (before.flatMap Stretch.objects).length := by
      intro places hplaces x hx
      obtain ⟨before, after, rfl, hn⟩ := hplaces x hx
      refine ⟨st :: before, after, rfl, ?_⟩
      rw [hn, List.flatMap_cons, List.length_append, Nat.add_assoc]
    rcases List.sublist_cons_iff.mp h with h | ⟨rest, hrest, h⟩
    · obtain ⟨places, hmap, hpairs, hplaces⟩ := ih h (n + st.objects.length)
      exact ⟨places, hmap, hpairs, hshift places hplaces⟩
    · obtain ⟨b, pubs, rfl, rfl, rfl⟩ := List.map_eq_cons_iff.mp hrest
      obtain ⟨places, hmap, hpairs, hplaces⟩ := ih h (n + b.stretch.objects.length)
      refine ⟨(b, n) :: places, by rw [List.map_cons, hmap],
        List.pairwise_cons.mpr ⟨?_, hpairs⟩, ?_⟩
      · intro x hx
        obtain ⟨before, after, -, hn⟩ := hplaces x hx
        rw [hn]
        exact Nat.le_add_right _ _
      · intro x hx
        rcases List.mem_cons.mp hx with rfl | hx
        · exact ⟨[], ss, rfl, rfl⟩
        · exact hshift places hplaces x hx

variable {σ ω : Type} [Storage σ ω] {G : Setting σ ω}

lemma Coverage.exact_of_append {path : Path} {file : RecordFile} (hne : xs ≠ [])
    (hitems : file.items = xs.map StreamObject.item)
    (hstart : runningHash? initial p (before ++ (xs ++ after)) before.length = some file.start)
    (hfinish : runningHash? initial p (before ++ (xs ++ after)) (before ++ xs).length =
      some file.finish) :
    Coverage.Exact initial p (before ++ (xs ++ after))
      ⟨path, file, before.length, before.length + xs.length - 1⟩ := by
  have hlen := List.length_pos_iff.mpr hne
  have hnext : before.length + xs.length - 1 + 1 = (before ++ xs).length := by
    rw [List.length_append]
    omega
  have hcount : (before ++ xs).length - before.length = xs.length := by
    rw [List.length_append]
    omega
  constructor
  · simp only
    omega
  · simp only [List.length_append]
    omega
  · simp only [hnext, hcount, hitems, List.drop_left, List.take_left]
  · exact hstart
  · simpa only [hnext] using hfinish

/-- **A publication covers its stretch** of a course that goes on from one running hash. -/
lemma Publication.Valid.exact {b : Publication} {call : ℕ} (h : b.Valid G p call) (hk : G.known)
    {ss before after : List Stretch} (hlinked : Stretch.Linked (.given initial) ss)
    (hsplit : ss = before ++ b.stretch :: after) :
    (b.coverage (before.flatMap Stretch.objects).length).Exact initial p
      (ss.flatMap Stretch.objects) := by
  have hobjects : ss.flatMap Stretch.objects = before.flatMap Stretch.objects ++
      (b.stretch.objects ++ after.flatMap Stretch.objects) := by
    rw [hsplit, List.flatMap_append, List.flatMap_cons]
  rw [hsplit, Stretch.linked_append] at hlinked
  rw [hobjects]
  refine Coverage.exact_of_append h.nonempty ?_ ?_ ?_
  · rw [h.file]
    rfl
  · have hstarts := h.starts hk
    rw [hlinked.2.1] at hstarts
    exact hstarts.runningHash?
  · rw [← List.append_assoc]
    refine Origin.At.runningHash? ?_
    obtain ⟨ys, o, hys⟩ := (List.eq_nil_or_concat b.stretch.objects).resolve_left h.nonempty
    rw [List.concat_eq_append] at hys
    rw [Origin.past_append, hys, Origin.past_concat]
    exact h.ends hk o (by rw [hys, List.getLast?_concat])

/-! ### Runs -/

/-- **Files cover disjoint, ordered and gap-free stretches of the stream.** Whatever fails, the
files put in place are those of intervals of the objects that were accepted, one behind the other,
and start and end with the running hashes that links hold before and after their intervals. A file
that directly follows another starts where that one ends, and where links hold what the chain gives
from the initial hash on, the chain of every file holds.

That the links of objects were given out before is all that is asked of them. -/
theorem Outset.placed_cover {o : Outset σ ω} {config : Config} {steps : List Step} {t : Stage σ ω}
    (h : o.Serves config) (hstarts : Operation.startsFrom initial (Step.calls steps) = true)
    (hlinks : ∀ object, .call (.add object) ∈ steps → object.link.slot < o.pipeline.links)
    (ht : o.reached config steps = some t) :
    ∃ covers : List Coverage, covers.map Coverage.path = t.world.placed ∧
      covers.Pairwise (fun c d => c.last < d.first) ∧
      (∀ c ∈ covers, o.view.Stores t.world.storage c.path c.file ∧
        c.Exact initial t.world.pipeline t.accepted) ∧
      (∀ c ∈ covers, ∀ d ∈ covers, d.first = c.last + 1 → d.file.start = c.file.finish) ∧
      ((∀ n k, runningHash? initial t.world.pipeline t.accepted n = some k →
          k = RunningHash.after initial ((t.accepted.take n).map StreamObject.item)) →
        ∀ c ∈ covers, c.file.verifyChain = .ok ()) := by
  obtain ⟨pubs, account, haccepted⟩ := Outset.account_exposed h True (fun _ => hlinks) ht
  have hrecords := account.records
  have hlinked : Stretch.Linked (.given initial) (h.course (Step.calls steps)).stretches :=
    (Course.follows_of_startsFrom rfl hstarts).linked
  have hsublist : (pubs.map Publication.stretch).Sublist (h.course (Step.calls steps)).stretches :=
    (hrecords.sublist.trans List.filter_sublist).trans (List.sublist_append_left _ _)
  obtain ⟨places, hmap, hpairs, hplaces⟩ := exists_places hsublist 0
  have hvalid : ∀ x ∈ places,
      x.1 ∈ pubs ∧ ∃ call, x.1.Valid (h.exposed True) t.world.pipeline call := by
    intro x hx
    have hmem : x.1 ∈ pubs := hmap ▸ List.mem_map_of_mem hx
    exact ⟨hmem, hrecords.published.valid hmem⟩
  have hexact : ∀ x ∈ places,
      (x.1.coverage x.2).Exact initial t.world.pipeline t.accepted := by
    intro x hx
    obtain ⟨before, after, hsplit, hn⟩ := hplaces x hx
    obtain ⟨-, call, hx⟩ := hvalid x hx
    rw [hn, Nat.zero_add, haccepted]
    exact hx.exact trivial hlinked hsplit
  refine ⟨places.map fun x => x.1.coverage x.2, ?_, ?_, ?_, ?_, ?_⟩
  · rw [hrecords.placed, ← hmap, List.map_map, List.map_map]
    rfl
  · rw [List.pairwise_map]
    refine hpairs.imp_of_mem fun {x y} hx _ hle => ?_
    have hlen := List.length_pos_iff.mpr ((hvalid x hx).2.choose_spec).nonempty
    show x.2 + x.1.stretch.objects.length - 1 < y.2
    omega
  · intro c hc
    obtain ⟨x, hx, rfl⟩ := List.mem_map.mp hc
    exact ⟨hrecords.stores (hvalid x hx).1, hexact x hx⟩
  · intro c hc d hd
    obtain ⟨x, hx, rfl⟩ := List.mem_map.mp hc
    obtain ⟨y, hy, rfl⟩ := List.mem_map.mp hd
    exact (hexact x hx).meets (hexact y hy)
  · intro hchain c hc
    obtain ⟨x, hx, rfl⟩ := List.mem_map.mp hc
    exact (hexact x hx).verifyChain hchain

/-- On a disk that does not let one of the files be moved into place. -/
theorem Outset.placed_cover_unmoved : ∃ t : Stage (Faulty Disk) (FaultyOutput DiskOutput),
    (sample.withFaults
        { Faults.none with rename := some ⟨.permissionDenied, "01Z.rcd", 0⟩ }).reached
        .standard shaken = some t ∧
      ∃ covers : List Coverage, covers.map Coverage.path = t.world.placed ∧
        covers.Pairwise (fun c d => c.last < d.first) ∧
        ∀ c ∈ covers,
          (Faulty.view (Disk.view ["record-streams"])).Stores t.world.storage c.path c.file ∧
          c.Exact .zero t.world.pipeline t.accepted := by
  have h : (sample.withFaults
      { Faults.none with rename := some ⟨.permissionDenied, "01Z.rcd", 0⟩ }).Serves .standard :=
    serves_sample.withFaults nofun
  obtain ⟨t, ht⟩ := exists_shaken h fun _ => holds_sample
  obtain ⟨covers, hpaths, hpairs, hcovers, -⟩ := placed_cover h starts_shaken
    (fun _ ho => (holds_sample (mem_shaken ho)).choose_spec.1) ht
  exact ⟨t, ht, covers, hpaths, hpairs, hcovers⟩

end SealedStream
