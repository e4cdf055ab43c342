import Mathlib.Data.List.Flatten
import SealedStream.Proofs.Stream.Firsts
import SealedStream.Proofs.Stream.Restart

/-!
Flushes: the window that is open is left, and the next object opens one of its own, even where it
comes at the time of the first object in the window before. The file of that time stands already
then, so the new window is passed over as if it had been written.
-/

namespace SealedStream

/-! ### Pieces -/

/-- Calls that set a running hash, add objects and flush, and then end. -/
def Operation.flushing (initial : Hash) (calls : List Operation) : List Operation :=
  .setRunningHash initial :: (calls ++ [.close])

/-- The objects that are added between flushes, cut into groups. -/
def pieces (millis : UInt64) (calls : List Operation) : List (List StreamObject) :=
  (calls.splitOnP (· = .closeAndSign)).flatMap fun part => groups millis (Operation.objects part)

def Operation.Batched (calls : List Operation) : Prop :=
  ∀ op ∈ calls, op = .closeAndSign ∨ ∃ o, op = .add o

section

variable {millis : UInt64} {calls part rest : List Operation} {o : StreamObject}

lemma Operation.Batched.eq_adds (h : Operation.Batched calls) (hno : .closeAndSign ∉ calls) :
    calls = (Operation.objects calls).map .add := by
  induction calls with
  | nil => rfl
  | cons op calls ih =>
    rw [List.mem_cons, not_or] at hno
    obtain ⟨o, rfl⟩ := (h op List.mem_cons_self).resolve_left (Ne.symm hno.1)
    exact congrArg (.add o :: ·) (ih (fun op hop => h op (List.mem_cons_of_mem _ hop)) hno.2)

lemma pieces_of_no_flush (hno : .closeAndSign ∉ calls) :
    pieces millis calls = groups millis (Operation.objects calls) := by
  rw [pieces, List.splitOnP_eq_singleton, List.flatMap_singleton]
  intro op hop
  exact decide_eq_false fun heq => hno (heq ▸ hop)

lemma pieces_flush (hno : .closeAndSign ∉ part) :
    pieces millis (part ++ .closeAndSign :: rest) =
      groups millis (Operation.objects part) ++ pieces millis rest := by
  rw [pieces, List.splitOnP_append_cons_of_forall_mem, List.flatMap_cons]
  · rfl
  · intro op hop
    exact decide_eq_false fun heq => hno (heq ▸ hop)
  · exact decide_eq_true rfl

lemma flatten_pieces (millis : UInt64) (calls : List Operation) :
    (pieces millis calls).flatten = Operation.objects calls := by
  induction hlen : calls.length using Nat.strong_induction_on generalizing calls with
  | _ n ih =>
    by_cases hmem : .closeAndSign ∈ calls
    · obtain ⟨part, rest, rfl, hno⟩ := List.eq_append_cons_of_mem hmem
      have hless : rest.length < n := by
        rw [← hlen, List.length_append, List.length_cons]
        omega
      rw [pieces_flush hno, List.flatten_append, flatten_groups, ih _ hless _ rfl]
      simp [Operation.objects]
    · rw [pieces_of_no_flush hmem, flatten_groups]

end

namespace Course

variable {clock : PeriodClock} {c : Course} {calls : List Operation} {os : List StreamObject}

/-- The writer goes on and does not wait for a complete window. -/
structure Running (c : Course) : Prop where
  stopped : c.stopped = false
  completeWindow : c.completeWindow = false

lemma Running.adds (h : c.Running) (clock : PeriodClock) (os : List StreamObject) :
    (c.run clock (os.map .add)).Running := by
  induction os generalizing c with
  | nil => exact h
  | cons o os ih =>
    exact ih (c := c.add clock o)
      ⟨(stopped_add clock c o).trans h.stopped, completeWindow_add h.completeWindow⟩

/-- **Between flushes a course makes groups of the objects.** -/
lemma run_pieces (hcalls : Operation.Batched calls) (h : c.Running) (hc : c.current = none)
    (hopened : ∀ st ∈ c.past, st.Opened clock.millis) :
    (c.run clock calls).stretches.map Stretch.objects =
        c.past.map Stretch.objects ++ pieces clock.millis calls ∧
      ∀ st ∈ (c.run clock calls).stretches, st.Opened clock.millis := by
  induction hlen : calls.length using Nat.strong_induction_on generalizing calls c with
  | _ n ih =>
    by_cases hmem : .closeAndSign ∈ calls
    · obtain ⟨part, rest, rfl, hno⟩ := List.eq_append_cons_of_mem hmem
      have hpart := Operation.Batched.eq_adds
        (fun op hop => hcalls op (List.mem_append_left _ hop)) hno
      obtain ⟨hobjects, hall⟩ := run_adds_idle (Operation.objects part) h.stopped h.completeWindow
        hc hopened
      have hrunning := h.adds clock (Operation.objects part)
      rw [← hpart] at hobjects hall hrunning
      have hless : rest.length < n := by
        rw [← hlen, List.length_append, List.length_cons]
        omega
      -- the flush puts the open window into the past
      have hrun : c.run clock (part ++ .closeAndSign :: rest) =
          (c.run clock part).leave.run clock rest := by
        rw [run, List.foldl_append, List.foldl_cons]
        rfl
      obtain ⟨hrest, hopened'⟩ := ih _ hless (c := (c.run clock part).leave)
        (fun op hop => hcalls op (List.mem_append_right _ (List.mem_cons_of_mem _ hop)))
        ⟨hrunning.stopped, hrunning.completeWindow⟩ rfl hall rfl
      rw [hrun]
      refine ⟨?_, hopened'⟩
      rw [hrest, pieces_flush hno, ← List.append_assoc, ← hobjects]
      rfl
    · rw [pieces_of_no_flush hmem, hcalls.eq_adds hmem]
      have hobjects : Operation.objects ((Operation.objects calls).map .add) =
          Operation.objects calls := by
        rw [← hcalls.eq_adds hmem]
      rw [hobjects]
      exact run_adds_idle _ h.stopped h.completeWindow hc hopened

/-- **The course of flushes** is that of the pieces. -/
theorem run_flushing (clock : PeriodClock) (initial : Hash) (hcalls : Operation.Batched calls) :
    ((start false).run clock (Operation.flushing initial calls)).current = none ∧
      ((start false).run clock (Operation.flushing initial calls)).past.map Stretch.objects =
        pieces clock.millis calls ∧
      ∀ st ∈ ((start false).run clock (Operation.flushing initial calls)).past,
        st.Opened clock.millis := by
  have hrun : (start false).run clock (Operation.flushing initial calls) =
      (({ start false with origin := .given initial }).run clock calls).step clock .close := by
    rw [Operation.flushing, run, List.foldl_cons, List.foldl_append]
    rfl
  rw [hrun]
  exact ⟨rfl, run_pieces hcalls ⟨rfl, rfl⟩ rfl (List.forall_mem_nil _)⟩

end Course

/-- The time by which the file of a piece is called. -/
def opening? (piece : List StreamObject) : Option Timestamp :=
  piece.head?.map StreamObject.timestamp

lemma Stretch.Opened.opening? {millis : UInt64} {st : Stretch} (h : st.Opened millis) :
    opening? st.objects = some st.time := by
  obtain ⟨o, os, hobjects, -, htime⟩ := h.head
  rw [SealedStream.opening?, hobjects, htime]
  rfl

lemma eq_of_length_flatten {α : Type} {xs ys : List (List α)} (h : xs.Sublist ys)
    (hne : ∀ y ∈ ys, y ≠ []) (hlen : xs.flatten.length = ys.flatten.length) : xs = ys := by
  induction h with
  | slnil => rfl
  | @cons xs ys y h _ =>
    have hle := h.flatten.length_le
    have hpos := List.length_pos_iff.mpr (hne y List.mem_cons_self)
    rw [List.flatten_cons, List.length_append] at hlen
    omega
  | cons_cons y _ ih =>
    rw [List.flatten_cons, List.flatten_cons, List.length_append, List.length_append] at hlen
    rw [ih (fun z hz => hne z (List.mem_cons_of_mem _ hz)) (by omega)]

lemma Published.fits_items {σ ω : Type} [Storage σ ω] {G : Setting σ ω} {p : Pipeline}
    {pubs : List Publication} {os : List StreamObject} (h : Published G p pubs)
    (hitems : (pubs.map Publication.file).flatMap RecordFile.items = os.map StreamObject.item) :
    ∀ x ∈ os, x.item.Fits := by
  intro x hx
  have hmem : x.item ∈ os.map StreamObject.item := List.mem_map_of_mem hx
  rw [← hitems, Publication.items_eq fun b hb => h.valid hb] at hmem
  obtain ⟨o, ho, hitem⟩ := List.mem_map.mp hmem
  obtain ⟨st, hst, ho⟩ := List.mem_flatMap.mp ho
  rw [← hitem]
  exact h.fits st hst o ho

/-! ### Runs with flushes -/

namespace Outset

variable {σ ω : Type} [Storage σ ω] {b : Outset σ ω} {config : Config} {calls : List Operation}
  {initial : Hash}

lemma startsFrom_flushing (hcalls : Operation.Batched calls) :
    Operation.startsFrom initial (Operation.flushing initial calls) = true := by
  have hkeeps : calls.all Operation.keeps = true := by
    refine List.all_eq_true.mpr fun op hop => ?_
    obtain rfl | ⟨o, rfl⟩ := hcalls op hop <;> rfl
  simp [Operation.flushing, Operation.startsFrom, hkeeps, Operation.keeps]

lemma mem_flushing {o : StreamObject} (ho : .add o ∈ Operation.flushing initial calls) :
    o ∈ Operation.objects calls := by
  have hmem : .add o ∈ calls := by simpa [Operation.flushing] using ho
  exact List.mem_filterMap.mpr ⟨_, hmem, rfl⟩

section

variable (h : b.Serves config) (hoff : config.completeWindow = false)
  (hcalls : Operation.Batched calls)

include hoff hcalls

lemma Serves.course_flushing (initial : Hash) :
    (h.course (Operation.flushing initial calls)).current = none ∧
      (h.course (Operation.flushing initial calls)).past.map Stretch.objects =
        pieces config.periodMillis calls ∧
      ∀ st ∈ (h.course (Operation.flushing initial calls)).past,
        st.Opened config.periodMillis := by
  rw [Serves.course, hoff]
  exact Course.run_flushing h.plain.clock initial hcalls

lemma Serves.objects_flushing (initial : Hash) :
    (h.course (Operation.flushing initial calls)).past.flatMap Stretch.objects =
      Operation.objects calls := by
  obtain ⟨-, hpieces, -⟩ := h.course_flushing hoff hcalls initial
  rw [List.flatMap_def, hpieces, flatten_pieces]

lemma Serves.linked_flushing (initial : Hash) :
    Stretch.Linked (.given initial) (h.course (Operation.flushing initial calls)).past := by
  obtain ⟨hcurrent, -⟩ := h.course_flushing hoff hcalls initial
  have hfollows : (h.course (Operation.flushing initial calls)).Follows (.given initial) :=
    Course.follows_of_startsFrom rfl (startsFrom_flushing hcalls)
  have hlinked := hfollows.linked
  rwa [Course.stretches, hcurrent, Option.toList_none, List.append_nil] at hlinked

lemma Serves.fresh_flushing (hfree : ∀ path, config.Names path → b.view.file b.storage path = none)
    (hnamed : ∀ x ∈ Operation.objects calls, ∃ text, x.timestamp.toIso = .ok text)
    (initial : Hash) : ∀ st ∈ (h.course (Operation.flushing initial calls)).past,
      (h.exposed True).fresh st = true := by
  intro st hst
  obtain ⟨-, -, hopened⟩ := h.course_flushing hoff hcalls initial
  obtain ⟨o, os, hobjects, -, htime⟩ := (hopened st hst).head
  have ho : o ∈ Operation.objects calls := by
    rw [← h.objects_flushing hoff hcalls initial]
    exact List.mem_flatMap.mpr ⟨st, hst, by rw [hobjects]; exact List.mem_cons_self⟩
  obtain ⟨text, htext⟩ := hnamed o ho
  obtain ⟨path, hpath⟩ := Naming.recordPath_of_toIso htext config.exportDir config.kind
  exact (Setting.fresh_iff _).mpr
    ⟨(hopened st hst).kept, path, by rw [htime]; exact hpath, hfree path ⟨_, hpath⟩⟩

lemma Serves.firsts_pieces (initial : Hash) :
    firstsBy opening? (pieces config.periodMillis calls) =
      (firstsBy Stretch.time (h.course (Operation.flushing initial calls)).past).map
        Stretch.objects := by
  obtain ⟨-, hpieces, hopened⟩ := h.course_flushing hoff hcalls initial
  rw [← hpieces]
  refine firstsBy_map fun st hst st' hst' => ?_
  rw [(hopened st hst).opening?, (hopened st' hst').opening?, Option.some_inj]

lemma Serves.firsts_past (hnodup : ((pieces config.periodMillis calls).map opening?).Nodup)
    (initial : Hash) :
    firstsBy Stretch.time (h.course (Operation.flushing initial calls)).past =
      (h.course (Operation.flushing initial calls)).past := by
  obtain ⟨-, hpieces, -⟩ := h.course_flushing hoff hcalls initial
  have hfirsts := h.firsts_pieces hoff hcalls initial
  rw [firstsBy_eq_self_iff.mpr hnodup, ← hpieces] at hfirsts
  refine (firstsBy_sublist _ _).eq_of_length ?_
  simpa using congrArg List.length hfirsts.symm

include h in
lemma Serves.nodup_pieces
    (hlen : (firstsBy opening? (pieces config.periodMillis calls)).flatten.length =
      (Operation.objects calls).length) :
    ((pieces config.periodMillis calls).map opening?).Nodup := by
  obtain ⟨-, hpieces, hopened⟩ := h.course_flushing hoff hcalls .zero
  refine firstsBy_eq_self_iff.mp
    (eq_of_length_flatten (firstsBy_sublist _ _) (fun g hg => ?_) (by rw [hlen, flatten_pieces]))
  rw [← hpieces] at hg
  obtain ⟨st, hst, rfl⟩ := List.mem_map.mp hg
  obtain ⟨o, os, hobjects, -⟩ := (hopened st hst).head
  rw [hobjects]
  exact List.cons_ne_nil _ _

/-- **A run with flushes has an account**, and the first windows of their times get their files. -/
lemma account_flushing (hs : b.Smooth config)
    (hfree : ∀ path, config.Names path → b.view.file b.storage path = none)
    (hnamed : ∀ x ∈ Operation.objects calls, ∃ text, x.timestamp.toIso = .ok text)
    (hresolved : ∀ x ∈ Operation.objects calls, ∃ k, b.pipeline.Holds x.link k) (initial : Hash) :
    ∃ t pubs, b.reached config ((Operation.flushing initial calls).map .call) = some t ∧
      t.accepted = Operation.objects calls ∧
      Account (h.exposed True) pubs (h.course (Operation.flushing initial calls)) t.writer t.world ∧
      ((∀ x ∈ Operation.objects calls, x.item.Fits) → pubs.map Publication.stretch =
        firstsBy Stretch.time (h.course (Operation.flushing initial calls)).past) := by
  have hops : b.Provides (Operation.flushing initial calls) :=
    ⟨fun ho => hresolved _ (mem_flushing ho), fun ho => hnamed _ (mem_flushing ho)⟩
  have hstarts : Operation.startsFrom initial
      (Step.calls ((Operation.flushing initial calls).map .call)) = true := by
    rw [Step.calls_map]
    exact startsFrom_flushing hcalls
  obtain ⟨t, ht⟩ := exists_exposed h (fun o ho => hops.resolved (by simpa using ho)) hstarts
  obtain ⟨pubs, account, haccepted⟩ := account_exposed h True
    (fun _ o ho => (hops.resolved (by simpa using ho)).choose_spec.1) ht
  rw [Step.calls_map] at account haccepted
  obtain ⟨hcurrent, -⟩ := h.course_flushing hoff hcalls initial
  have hobjects : t.accepted = Operation.objects calls := by
    rw [haccepted, Course.objects, Course.stretches, hcurrent, Option.toList_none, List.append_nil,
      h.objects_flushing hoff hcalls]
  have hreset : .resetCancellation ∉ Operation.flushing initial calls := by
    intro hmem
    have hmem : .resetCancellation ∈ calls := by simpa [Operation.flushing] using hmem
    obtain h | ⟨o, h⟩ := hcalls _ hmem <;> cases h
  have hclear : .clear ∉ Operation.flushing initial calls := by
    intro hmem
    have hmem : .clear ∈ calls := by simpa [Operation.flushing] using hmem
    obtain h | ⟨o, h⟩ := hcalls _ hmem <;> cases h
  rcases h.publishes_firsts hs hops hreset hclear (Step.seeded_of_startsFrom hstarts) ht with
    ⟨pubs', account', -, hpubs⟩ | ⟨-, o, ho, hunfit⟩
  · rw [List.filter_eq_self.mpr (h.fresh_flushing hoff hcalls hfree hnamed initial)] at hpubs
    exact ⟨t, pubs', ht, hobjects, account', fun _ => hpubs⟩
  · exact ⟨t, pubs, ht, hobjects, account, fun hfits => (hunfit (hfits o (mem_flushing ho))).elim⟩

end

/-- **What flushes leave.** Objects whose times have names and whose links hold what the chain gives
are handed to a writer over free paths, with flushes among them at any points, and it is closed,
while nothing fails. If all payloads can be written, the record files that are put in place hold the
pieces between flushes and the ends of windows, in order, but of pieces that begin at one time only
the first. So the files hold every object once, and pass an audit with the running hash after all
objects for their tip, just if all payloads can be written and no two pieces begin at one time. -/
theorem flushed_pieces (h : b.Serves config) (hs : b.Smooth config)
    (hoff : config.completeWindow = false)
    (hfree : ∀ path, config.Names path → b.view.file b.storage path = none)
    (hcalls : Operation.Batched calls)
    (hnamed : ∀ x ∈ Operation.objects calls, ∃ text, x.timestamp.toIso = .ok text)
    (hchain : b.pipeline.Chains initial (Operation.objects calls)) :
    ∃ t files, b.reached config ((Operation.flushing initial calls).map .call) = some t ∧
      t.accepted = Operation.objects calls ∧
      List.Forall₂ (b.view.Stores t.world.storage) t.world.placed files ∧
      (∀ path, config.Names path → path ∉ t.world.placed →
        b.view.file t.world.storage path = none) ∧
      ((∀ x ∈ Operation.objects calls, x.item.Fits) →
        files.map RecordFile.items = (firstsBy opening? (pieces config.periodMillis calls)).map
          (List.map StreamObject.item)) ∧
      (files.flatMap RecordFile.items = (Operation.objects calls).map StreamObject.item ∧
          Audit.verifyRecords files = .ok () ∧
          (Audit.tip files).getD initial =
            RunningHash.after initial ((Operation.objects calls).map StreamObject.item) ↔
        (∀ x ∈ Operation.objects calls, x.item.Fits) ∧
          ((pieces config.periodMillis calls).map opening?).Nodup) := by
  obtain ⟨t, pubs, ht, haccepted, account, hpubs⟩ := account_flushing h hoff hcalls hs hfree hnamed
    (fun _ => hchain.resolved) initial
  have hrecords := account.records
  have hvalid : ∀ b ∈ pubs, _ := fun b hb => hrecords.published.valid hb
  have hitems : (∀ x ∈ Operation.objects calls, x.item.Fits) →
      (pubs.map Publication.file).map RecordFile.items =
        (firstsBy opening? (pieces config.periodMillis calls)).map
          (List.map StreamObject.item) := by
    intro hfits
    rw [Publication.map_items hvalid, hpubs hfits, h.firsts_pieces hoff hcalls initial,
      List.map_map]
    rfl
  refine ⟨t, pubs.map Publication.file, ht, haccepted, ?_, fun path hn hnot => ?_, hitems,
    fun ⟨hall, _⟩ => ?_, fun ⟨hfits, hnodup⟩ => ?_⟩
  · rw [hrecords.placed, List.forall₂_map_left_iff, List.forall₂_map_right_iff, List.forall₂_same]
    exact fun b hb => hrecords.stores hb
  · rw [hrecords.placed] at hnot
    exact (hrecords.untouched hn hnot).trans (hfree path hn)
  · have hfits := hrecords.published.fits_items hall
    refine ⟨hfits, h.nodup_pieces hoff hcalls ?_⟩
    rw [List.flatMap_def, hitems hfits, ← List.map_flatten] at hall
    have hlen := congrArg List.length hall
    rwa [List.length_map, List.length_map] at hlen
  · have hobjects := h.objects_flushing hoff hcalls initial
    have hall : pubs.map Publication.stretch =
        (h.course (Operation.flushing initial calls)).past :=
      (hpubs hfits).trans (h.firsts_past hoff hcalls hnodup initial)
    have hleads := Publication.leads [] hvalid trivial (hchain.mono hrecords.grown)
      (h.linked_flushing hoff hcalls initial) (by rw [hall, List.nil_append]) hobjects
    refine ⟨by rw [Publication.items_eq hvalid, hall, hobjects],
      Audit.verifyRecords_ok_iff.mpr ⟨_, _, hleads⟩, ?_⟩
    cases pubs with
    | nil => exact hleads
    | cons b pubs => rw [hleads.tip_eq (List.cons_ne_nil _ _), Option.getD_some]

def level : List StreamObject :=
  [⟨.of [1] [2], ⟨1, 0⟩, ⟨0⟩, .unaligned⟩, ⟨.of [3] [], ⟨1, 0⟩, ⟨1⟩, .unaligned⟩,
    ⟨.of [] [4], ⟨5, 0⟩, ⟨2⟩, .unaligned⟩]

def parted : List Operation :=
  [.add level[0], .closeAndSign, .add level[1], .add level[2]]

lemma pieces_parted :
    pieces Config.standard.periodMillis parted = [[level[0]], [level[1]], [level[2]]] := by
  have hout : (level[1].window Config.standard.periodMillis).takes Config.standard.periodMillis
      level[2] = false := by decide
  have hfront : .closeAndSign ∉ [Operation.add level[0]] := by decide
  have hrest : .closeAndSign ∉ [Operation.add level[1], .add level[2]] := by decide
  have hflush : pieces Config.standard.periodMillis parted =
      groups Config.standard.periodMillis [level[0]] ++
        pieces Config.standard.periodMillis [.add level[1], .add level[2]] := pieces_flush hfront
  rw [hflush, pieces_of_no_flush hrest]
  show groups _ [level[0]] ++ groups _ [level[1], level[2]] = _
  simp [groups_cons, hout]

/-- The object that comes at the time of the one before the flush is lost. -/
theorem flushed_pieces_parted : ∃ (t : Stage Disk DiskOutput) (files : List RecordFile),
    (chained level).reached .standard ((Operation.flushing .zero parted).map .call) = some t ∧
      List.Forall₂ ((Disk.view ["record-streams"]).Stores t.world.storage) t.world.placed files ∧
      t.accepted = level ∧
      files.map RecordFile.items = [[level[0].item], [level[2].item]] := by
  have hslot : ∀ n < level.length, ∀ x ∈ level[n]?, x.link = ⟨n⟩ := by decide
  have hbatched : Operation.Batched parted := by simp [Operation.Batched, parted]
  obtain ⟨t, files, ht, haccepted, hfiles, -, hitems, -⟩ := flushed_pieces
    (serves_chained level) (smooth_chained level) rfl (fun path _ => free_chained _ path)
    hbatched (fun _ hx => named_of_isOk (by decide) hx) (chains_linked hslot)
  refine ⟨t, files, ht, hfiles, haccepted, (hitems (by decide)).trans ?_⟩
  rw [pieces_parted]
  decide

end Outset

end SealedStream
