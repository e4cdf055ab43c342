import Mathlib.Data.List.Forall2
import SealedStream.Proofs.Audit
import SealedStream.Proofs.Stream.Coverage
import SealedStream.Proofs.Stream.Recovery

/-!
Stop and replay: a writer is closed after some objects of a stream, and a new one is fed all of them
over the files that are left.

A file of that name is all that the second writer looks for, so it passes over whatever belongs to
the window that was open at the stop. Objects of this window that come behind the stop are in no
file. Between windows a stop does no harm.
-/

namespace SealedStream

variable {millis : UInt64} {xs ys : List StreamObject}

/-! ### Cuts through a window -/

/-- The window that is open behind objects. -/
def lastWindow? (millis : UInt64) (xs : List StreamObject) : Option Window :=
  ((groups millis xs).getLast?.bind List.head?).map (·.window millis)

/-- The objects behind a cut that belong to the window before it. -/
def cutOff (millis : UInt64) (xs ys : List StreamObject) : List StreamObject :=
  match lastWindow? millis xs with
  | some w => ys.takeWhile (w.takes millis)
  | none => []

/-- The objects behind a cut that come after those. -/
def beyond (millis : UInt64) (xs ys : List StreamObject) : List StreamObject :=
  match lastWindow? millis xs with
  | some w => ys.dropWhile (w.takes millis)
  | none => ys

lemma cutOff_append_beyond (millis : UInt64) (xs ys : List StreamObject) :
    cutOff millis xs ys ++ beyond millis xs ys = ys := by
  unfold cutOff beyond
  cases lastWindow? millis xs with
  | none => rfl
  | some w => exact List.takeWhile_append_dropWhile

lemma exists_last_group (millis : UInt64) (h : xs ≠ []) :
    ∃ before o g, groups millis xs = before ++ [o :: g] := by
  induction xs using groups.induct millis with
  | case1 => exact (h rfl).elim
  | case2 o os ih =>
    rw [groups_cons]
    cases hd : os.dropWhile ((o.window millis).takes millis) with
    | nil => exact ⟨[], o, _, by rw [groups_nil, List.nil_append]⟩
    | cons r rs =>
      rw [hd] at ih
      obtain ⟨before, o', g, hgroups⟩ := ih (List.cons_ne_nil _ _)
      exact ⟨_ :: before, o', g, by rw [hgroups, List.cons_append]⟩

lemma lastWindow?_eq {before : List (List StreamObject)} {o : StreamObject} {g : List StreamObject}
    (h : groups millis xs = before ++ [o :: g]) :
    lastWindow? millis xs = some (o.window millis) := by
  rw [lastWindow?, h, List.getLast?_concat]
  rfl

/-- **Behind a cut**, the open group takes what is cut off, and the rest are groups of their own. -/
lemma groups_cut (millis : UInt64) (xs ys : List StreamObject) :
    ∃ done, groups millis (xs ++ ys) = done ++ groups millis (beyond millis xs ys) ∧
      done.map List.head? = (groups millis xs).map List.head? := by
  rcases eq_or_ne xs [] with rfl | hne
  · refine ⟨[], ?_, by rw [groups_nil]⟩
    rw [List.nil_append, List.nil_append, beyond, lastWindow?, groups_nil]
    rfl
  · obtain ⟨before, o, g, hgroups⟩ := exists_last_group millis hne
    refine ⟨before ++ [o :: g ++ cutOff millis xs ys], ?_, ?_⟩
    · rw [groups_append hgroups, cutOff, beyond, lastWindow?_eq hgroups, List.append_assoc,
        List.singleton_append]
    · rw [hgroups, List.map_append, List.map_append]
      rfl

lemma Stretch.times_eq {ss ss' : List Stretch} (hopened : ∀ st ∈ ss, st.Opened millis)
    (hopened' : ∀ st ∈ ss', st.Opened millis)
    (h : (ss.map Stretch.objects).map List.head? = (ss'.map Stretch.objects).map List.head?) :
    ss.map Stretch.time = ss'.map Stretch.time := by
  have hheads {ts : List Stretch} (hts : ∀ st ∈ ts, st.Opened millis) :
      (ts.map Stretch.time).map some =
        ((ts.map Stretch.objects).map List.head?).map (Option.map StreamObject.timestamp) := by
    rw [List.map_map, List.map_map, List.map_map]
    refine List.map_congr_left fun st hst => ?_
    obtain ⟨o, os, hobjects, -, htime⟩ := (hts st hst).head
    simp [hobjects, htime]
  refine List.map_injective_iff.mpr (fun _ _ => Option.some.inj) ?_
  rw [hheads hopened, hheads hopened', h]

/-! ### Links that a chain has resolved -/

/-- Links hold the running hashes of objects. -/
def Pipeline.Chains (p : Pipeline) (initial : Hash) (os : List StreamObject) : Prop :=
  ∀ n x, os[n]? = some x →
    p.Holds x.link (RunningHash.after initial ((os.take (n + 1)).map StreamObject.item))

namespace Pipeline.Chains

variable {p q : Pipeline} {initial k : Hash} {os : List StreamObject} {x : StreamObject} {n : ℕ}

lemma mono (h : p.Chains initial os) (hpq : p.Extends q) : q.Chains initial os :=
  fun n x hx => (h n x hx).mono hpq

lemma of_append (h : p.Chains initial (xs ++ ys)) : p.Chains initial xs := by
  intro n x hx
  obtain ⟨hlt, -⟩ := List.getElem?_eq_some_iff.mp hx
  have hholds := h n x (by rw [List.getElem?_append_left hlt, hx])
  rwa [List.take_append_of_le_length hlt] at hholds

lemma resolved (h : p.Chains initial os) (hx : x ∈ os) : ∃ k, p.Holds x.link k := by
  obtain ⟨n, hn⟩ := List.mem_iff_getElem?.mp hx
  exact ⟨_, h n x hn⟩

lemma eq_after (h : p.Chains initial os) (hk : runningHash? initial p os n = some k) :
    k = RunningHash.after initial ((os.take n).map StreamObject.item) := by
  cases n with
  | zero =>
    cases hk
    rfl
  | succ n =>
    obtain ⟨x, hx, hk⟩ := Option.bind_eq_some_iff.mp hk
    rw [(h n x hx).hash?] at hk
    exact (Option.some.inj hk).symm

end Pipeline.Chains

/-! ### What is written, and where it leads -/

section

variable {σ ω τ υ : Type} [Storage σ ω] [Storage τ υ] {G : Setting σ ω} {K : Setting τ υ}
  {p : Pipeline} {initial : Hash} {os : List StreamObject} {pubs : List Publication}
  {past ss : List Stretch} {last : Option WrittenFile} {s : Surroundings σ}

/-- **The files of stretches that follow one another** lead from one running hash to another. -/
lemma Publication.leads (done : List Stretch) (hvalid : ∀ b ∈ pubs, ∃ call, b.Valid G p call)
    (hk : G.known) (hchain : p.Chains initial os) (hlinked : Stretch.Linked (.given initial) ss)
    (hss : ss = done ++ pubs.map Publication.stretch) (hos : ss.flatMap Stretch.objects = os) :
    Audit.Leads
      (RunningHash.after initial ((done.flatMap Stretch.objects).map StreamObject.item))
      (pubs.map Publication.file) (RunningHash.after initial (os.map StreamObject.item)) := by
  induction pubs generalizing done with
  | nil =>
    rw [List.map_nil, List.append_nil] at hss
    rw [← hss, hos]
    rfl
  | cons b pubs ih =>
    rw [List.map_cons] at hss
    obtain ⟨call, hb⟩ := hvalid b List.mem_cons_self
    have hexact := hb.exact hk hlinked hss
    have hrest := ih (done ++ [b.stretch]) (fun b hb => hvalid b (List.mem_cons_of_mem _ hb))
      (by rw [hss, List.append_assoc, List.singleton_append])
    have hsplit : os = done.flatMap Stretch.objects ++ (b.stretch.objects ++
        (pubs.map Publication.stretch).flatMap Stretch.objects) := by
      rw [← hos, hss, List.flatMap_append, List.flatMap_cons]
    have hcount : (b.coverage (done.flatMap Stretch.objects).length).last + 1 =
        (done.flatMap Stretch.objects ++ b.stretch.objects).length := by
      have hpos := List.length_pos_iff.mpr hb.nonempty
      rw [List.length_append]
      show _ + _ - 1 + 1 = _
      omega
    rw [hos] at hexact
    have hstart := hchain.eq_after hexact.start
    have hfinish := hchain.eq_after hexact.finish
    rw [hcount] at hfinish
    rw [List.flatMap_append, List.flatMap_singleton] at hrest
    refine ⟨?_, hexact.verifyChain fun n k => hchain.eq_after, ?_⟩
    · rw [show b.file.start = _ from hstart]
      show RunningHash.after initial ((os.take (done.flatMap Stretch.objects).length).map _) = _
      rw [hsplit, List.take_left]
    · rw [show b.file.finish = _ from hfinish]
      rw [hsplit, ← List.append_assoc, List.take_left, List.append_assoc, ← hsplit]
      exact hrest

/-- Over what a run has left of objects, a later run with more of them finds no files for the groups
behind the open window, and no others. -/
lemma Records.filter_beyond (h : Records G pubs past last s)
    (hpubs : Stretch.Groups millis xs (.given initial) (pubs.map Publication.stretch))
    (hss : Stretch.Groups millis (xs ++ ys) (.given initial) ss)
    (hfresh : ∀ st ∈ ss, G.fresh st = true) (hdistinct : (ss.map Stretch.time).Nodup)
    (hconfig : K.config = G.config)
    (hfiles : ∀ path, G.config.Names path → K.files path = G.view.file s.storage path) :
    ∃ done, ss = done ++ ss.filter K.fresh ∧
      done.flatMap Stretch.objects = xs ++ cutOff millis xs ys ∧
      (ss.filter K.fresh).flatMap Stretch.objects = beyond millis xs ys := by
  obtain ⟨gs, hgroups, hheads⟩ := groups_cut millis xs ys
  obtain ⟨done, left, rfl, hdone, hleft⟩ := List.map_eq_append_iff.mp (hss.objects.trans hgroups)
  have htimes : done.map Stretch.time = (pubs.map Publication.stretch).map Stretch.time := by
    refine Stretch.times_eq (fun st hst => hss.opened st (List.mem_append_left _ hst))
      hpubs.opened ?_
    rw [hdone, hheads, hpubs.objects]
  rw [List.map_map] at htimes
  have hbeyond : left.flatMap Stretch.objects = beyond millis xs ys := by
    rw [List.flatMap_def, hleft, flatten_groups]
  rw [h.filter_left (List.filter_eq_self.mpr hfresh) htimes hdistinct hconfig hfiles]
  refine ⟨done, rfl, ?_, hbeyond⟩
  refine (List.append_left_inj (beyond millis xs ys)).mp ?_
  rw [List.append_assoc, cutOff_append_beyond, ← hss.flatMap_objects, List.flatMap_append, hbeyond]

lemma Published.flatMap_eq_nil_iff (h : Published G p pubs) :
    (pubs.map Publication.stretch).flatMap Stretch.objects = [] ↔ pubs = [] := by
  rw [List.flatMap_eq_nil_iff]
  refine ⟨fun hnil => List.eq_nil_iff_forall_not_mem.mpr fun b hb => ?_, ?_⟩
  · obtain ⟨call, hvalid⟩ := h.valid hb
    exact hvalid.nonempty (hnil _ (List.mem_map_of_mem hb))
  · rintro rfl
    exact fun _ => nofun

lemma Publication.map_items (hvalid : ∀ b ∈ pubs, ∃ call, b.Valid G p call) :
    (pubs.map Publication.file).map RecordFile.items =
      (pubs.map Publication.stretch).map Stretch.items := by
  rw [List.map_map, List.map_map]
  refine List.map_congr_left fun b hb => ?_
  obtain ⟨call, hb⟩ := hvalid b hb
  show b.file.items = b.stretch.items
  rw [hb.file]
  rfl

lemma Publication.items_eq (hvalid : ∀ b ∈ pubs, ∃ call, b.Valid G p call) :
    (pubs.map Publication.file).flatMap RecordFile.items =
      ((pubs.map Publication.stretch).flatMap Stretch.objects).map StreamObject.item := by
  rw [List.flatMap_def, map_items hvalid, List.map_flatMap, List.flatMap_def]
  rfl

end

/-! ### Two runs, one after the other -/

section

variable {σ ω τ υ : Type} [Storage σ ω] [Storage τ υ] {G : Setting σ ω} {K : Setting τ υ}
  {xs ys : List Publication} {past past' : List Stretch} {last last' : Option WrittenFile}
  {s : Surroundings σ} {r : Surroundings τ} {b : Publication} {path : Path}

lemma Records.stores_left (h : Records G xs past last s) (h' : Records K ys past' last' r)
    (hconfig : K.config = G.config)
    (hfiles : ∀ path, G.config.Names path → K.files path = G.view.file s.storage path)
    (hb : b ∈ xs) : K.view.Stores r.storage b.path b.file := by
  obtain ⟨call, hvalid⟩ := h.published.valid hb
  have hfound : K.files b.path = some b.content := (hfiles _ hvalid.names).trans (h.content hb)
  have hnot : b.path ∉ ys.map Publication.path := by
    intro hmem
    obtain ⟨y, hy, hpath⟩ := List.mem_map.mp hmem
    obtain ⟨call', hyvalid⟩ := h'.published.valid hy
    obtain ⟨-, path, hname, hfree⟩ := K.fresh_iff.mp hyvalid.fresh
    cases hyvalid.name.symm.trans hname
    rw [hpath, hfound] at hfree
    cases hfree
  have hstands := (h'.untouched (hconfig ▸ hvalid.names) hnot).trans hfound
  exact ⟨b.content, hstands, RecordFile.decode_of_encode hvalid.image, hvalid.image⟩

/-- **The files of both runs** stand in the end. -/
lemma Records.stores_both (h : Records G xs past last s) (h' : Records K ys past' last' r)
    (hconfig : K.config = G.config)
    (hfiles : ∀ path, G.config.Names path → K.files path = G.view.file s.storage path) :
    List.Forall₂ (K.view.Stores r.storage) (s.placed ++ r.placed)
      ((xs ++ ys).map Publication.file) := by
  rw [h.placed, h'.placed, ← List.map_append, List.forall₂_map_left_iff,
    List.forall₂_map_right_iff, List.forall₂_same]
  intro b hb
  rcases List.mem_append.mp hb with hb | hb
  · exact h.stores_left h' hconfig hfiles hb
  · exact h'.stores hb

lemma Records.untouched_both (h : Records G xs past last s) (h' : Records K ys past' last' r)
    (hconfig : K.config = G.config)
    (hfiles : ∀ path, G.config.Names path → K.files path = G.view.file s.storage path)
    (hn : G.config.Names path) (hnot : path ∉ s.placed ++ r.placed) :
    K.view.file r.storage path = G.files path := by
  rw [h.placed, h'.placed, List.mem_append, not_or] at hnot
  rw [h'.untouched (hconfig ▸ hn) hnot.2, hfiles path hn, h.untouched hn hnot.1]

end

/-! ### Stops -/

namespace Outset

variable {σ ω τ υ : Type} [Storage σ ω] [Storage τ υ] {b : Outset σ ω} {config : Config}
  {front rest : List StreamObject} {initial : Hash}

/-- **Stop and replay.** Objects whose times do not go back, which can be named and written, and
whose links hold what the chain gives, are handed to a writer up to some point, and it is closed.
Then all of them are handed to a new writer over the files that are left, and it is closed, while
nothing fails. After that the record files hold the objects, each of them once and in order, but for
those behind the stop that belong to the window before it; and an audit passes them just if nothing
comes behind these, or they do not move the running hash, as when there are none. -/
theorem stop_replay (hb : b.Serves config) (hs : b.Smooth config)
    (hoff : config.completeWindow = false)
    (hfree : ∀ path, config.Names path → b.view.file b.storage path = none)
    (hsorted : (front ++ rest).Pairwise fun x y : StreamObject => x.timestamp ≤ y.timestamp)
    (hnamed : ∀ x ∈ front ++ rest, ∃ text, x.timestamp.toIso = .ok text)
    (hfits : ∀ x ∈ front ++ rest, x.item.Fits)
    (hchain : b.pipeline.Chains initial (front ++ rest)) :
    ∃ t, b.reached config ((Operation.batch initial front).map .call) = some t ∧
      b.view.Sound t.world.storage ∧
      ∀ c : Outset τ υ, c.Serves config → c.Reliable →
        c.Finds config (b.view.file t.world.storage) →
        c.pipeline.Chains initial (front ++ rest) →
        ∃ u files,
          c.reached config ((Operation.batch initial (front ++ rest)).map .call) = some u ∧
          List.Forall₂ (c.view.Stores u.world.storage) (t.world.placed ++ u.world.placed) files ∧
          (∀ path, config.Names path → path ∉ t.world.placed ++ u.world.placed →
            c.view.file u.world.storage path = none) ∧
          files.flatMap RecordFile.items =
            (front ++ beyond config.periodMillis front rest).map StreamObject.item ∧
          (Audit.verifyRecords files = .ok () ↔ beyond config.periodMillis front rest = [] ∨
            RunningHash.after initial (front.map StreamObject.item) =
              RunningHash.after initial
                ((front ++ cutOff config.periodMillis front rest).map StreamObject.item)) := by
  have hresolved : ∀ x ∈ front ++ rest, ∃ k, b.pipeline.Holds x.link k := fun _ => hchain.resolved
  have hfront : ∀ {x}, x ∈ front → x ∈ front ++ rest := List.mem_append_left rest
  obtain ⟨t, xs, ht, account, -, hxs⟩ := publish_groups hb hs initial hfree
    (List.pairwise_append.mp hsorted).1 (fun x hx => hnamed x (hfront hx))
    (fun x hx => hfits x (hfront hx)) (fun x hx => hresolved x (hfront hx)) hoff
  refine ⟨t, ht, account.records.sound, fun c hc hreliable hfinds hchain' => ?_⟩
  have hdependable : c.Dependable config :=
    Finds.dependable account.records (fun path hn => (hs.tidy hn).2) hfinds hreliable
  obtain ⟨u, ys, hu, account'⟩ := account_batch hc (fun _ : True => hdependable) hreliable.calm
    initial hsorted hnamed fun _ => hchain'.resolved
  have hsteady := hc.steady_batch account' hfits
  have hfound : ∀ path, config.Names path →
      c.view.file c.storage path = b.view.file t.world.storage path := fun path hn =>
    hfinds.record hb.plain hn
  -- all groups of the stream, and those for which the second run finds no file
  obtain ⟨-, hgroups, hopened⟩ := course_batch hc hoff initial (front ++ rest)
  have hfresh : ∀ st ∈ (hc.course (Operation.batch initial (front ++ rest))).past,
      (hb.straight True fun _ => hs.dependable).fresh st = true := by
    intro st hst
    rw [hc.fresh_eq_kept (G := hb.straight True fun _ => hs.dependable) rfl hfree hnamed hst]
    exact (hopened st hst).kept
  obtain ⟨done, hdone, hcut, hbeyond⟩ := account.records.filter_beyond hxs
    ⟨hgroups, hopened, hc.linked_batch⟩ hfresh (hc.nodup_batch hsorted)
    (K := hc.straight True fun _ => hdependable) rfl hfound
  rw [← hsteady.all] at hdone hbeyond
  have hxvalid : ∀ x ∈ xs, _ := fun x hx => account.records.published.valid hx
  have hyvalid : ∀ y ∈ ys, _ := fun y hy => account'.records.published.valid hy
  refine ⟨u, (xs ++ ys).map Publication.file, hu, ?_, fun path hn hnot => ?_, ?_, ?_⟩
  · exact account.records.stores_both account'.records rfl hfound
  · exact (account.records.untouched_both account'.records rfl hfound hn hnot).trans (hfree path hn)
  · rw [List.map_append, List.flatMap_append, Publication.items_eq hxvalid,
      Publication.items_eq hyvalid, hxs.flatMap_objects, hbeyond, List.map_append]
  · have hxs_leads := Publication.leads [] hxvalid trivial
      (hchain.of_append.mono account.records.grown) hxs.linked rfl hxs.flatMap_objects
    have hys_leads := Publication.leads done hyvalid trivial (hchain'.mono account'.records.grown)
      hc.linked_batch hdone (hc.objects_batch initial (front ++ rest))
    rw [hcut] at hys_leads
    have hxnil : xs.map Publication.file = [] ↔ front = [] := by
      rw [← hxs.flatMap_objects, List.map_eq_nil_iff, account.records.published.flatMap_eq_nil_iff]
    have hynil : ys.map Publication.file = [] ↔ beyond config.periodMillis front rest = [] := by
      rw [← hbeyond, List.map_eq_nil_iff, account'.records.published.flatMap_eq_nil_iff]
    rw [List.map_append, Audit.verifyRecords_append_iff hxs_leads hys_leads, hxnil, hynil]
    refine or_iff_right_of_imp ?_
    rintro rfl
    exact .inr (by simp [cutOff, lastWindow?])

def linked (os : List StreamObject) : Pipeline :=
  ⟨fun i => .resolved (RunningHash.after .zero ((os.take (i + 1)).map StreamObject.item)),
    fun _ => false, os.length, 0⟩

lemma chains_linked {os : List StreamObject}
    (hlinks : ∀ n < os.length, ∀ x ∈ os[n]?, x.link = ⟨n⟩) : (linked os).Chains .zero os := by
  intro n x hx
  have hlt := (List.getElem?_eq_some_iff.mp hx).1
  rw [hlinks n hlt x hx]
  exact ⟨hlt, rfl⟩

lemma chains_spanning : (chained spanning).pipeline.Chains .zero spanning :=
  chains_linked (by decide)

/-- A stop within the first window: the object that comes next is lost. -/
theorem stop_replay_spanning : ∃ (t u : Stage Disk DiskOutput) (files : List RecordFile),
    (chained spanning).reached .standard
        ((Operation.batch .zero (spanning.take 1)).map .call) = some t ∧
      { chained spanning with storage := t.world.storage }.reached .standard
        ((Operation.batch .zero (spanning.take 1 ++ spanning.drop 1)).map .call) = some u ∧
      List.Forall₂ ((Disk.view ["record-streams"]).Stores u.world.storage)
        (t.world.placed ++ u.world.placed) files ∧
      files.flatMap RecordFile.items = (spanning.eraseIdx 1).map StreamObject.item := by
  have hsorted : (spanning.take 1 ++ spanning.drop 1).Pairwise fun x y =>
      x.timestamp ≤ y.timestamp := sorted_spanning
  obtain ⟨t, ht, hsound, hreplay⟩ := stop_replay (τ := Disk) (υ := DiskOutput)
    (serves_chained spanning) (smooth_chained spanning) rfl (fun path _ => free_chained _ path)
    hsorted named_spanning fits_spanning chains_spanning
  obtain ⟨u, files, hu, hfiles, -, hitems, -⟩ := hreplay
    { chained spanning with storage := t.world.storage }
    ⟨(serves_chained spanning).plain, hsound, (serves_chained spanning).reaches⟩
    ⟨(smooth_chained spanning).storage, (smooth_chained spanning).signs, rfl⟩ (fun _ _ => rfl)
    chains_spanning
  have hlast : lastWindow? Config.standard.periodMillis (spanning.take 1) =
      some (spanning[0].window Config.standard.periodMillis) :=
    lastWindow?_eq (show groups Config.standard.periodMillis [spanning[0]] =
      [] ++ [[spanning[0]]] by simp [groups_cons])
  rw [beyond, hlast] at hitems
  exact ⟨t, u, files, ht, hu, hfiles, hitems.trans (by decide)⟩

end Outset

end SealedStream
