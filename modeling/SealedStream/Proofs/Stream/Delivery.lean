import SealedStream.Proofs.Stream.Batch
import SealedStream.Proofs.Stream.Leftover
import SealedStream.Proofs.Stream.Waiting

/-!
Batches and their accounts, whether the writer waits for a complete window or not.

Where nobody interferes there is an account of every batch. Where besides nothing fails, each window
that is to be written becomes a file.
-/

namespace SealedStream

/-! ### Stretches that are groups -/

lemma Stretch.Opened.ext {millis : UInt64} {st st' : Stretch} (h : st.Opened millis)
    (h' : st'.Opened millis) (hobjects : st.objects = st'.objects)
    (hbefore : st.before = st'.before) : st = st' := by
  obtain ⟨o, os, hhead, hwindow, htime⟩ := h.head
  obtain ⟨o', os', hhead', hwindow', htime'⟩ := h'.head
  obtain rfl : o = o' := (List.cons.inj (hhead.symm.trans (hobjects.trans hhead'))).1
  have hkept := h.kept.trans h'.kept.symm
  have hsame := hwindow.trans hwindow'.symm
  have hwhen := htime.trans htime'.symm
  cases st
  cases st'
  rw [Stretch.mk.injEq]
  exact ⟨hsame, hbefore, hwhen, hobjects, hkept⟩

lemma Stretch.eq_of_linked {millis : UInt64} {origin : Origin} {ss ss' : List Stretch}
    (h : ss.map Stretch.objects = ss'.map Stretch.objects)
    (hopened : ∀ st ∈ ss, st.Opened millis) (hopened' : ∀ st ∈ ss', st.Opened millis)
    (hlinked : Stretch.Linked origin ss) (hlinked' : Stretch.Linked origin ss') : ss = ss' := by
  induction ss generalizing ss' origin with
  | nil =>
    rw [List.map_nil] at h
    exact (List.map_eq_nil_iff.mp h.symm).symm
  | cons st ss ih =>
    obtain ⟨st', ss', rfl, hobjects, hrest⟩ := List.map_eq_cons_iff.mp h.symm
    have hst : st = st' := (hopened st List.mem_cons_self).ext (hopened' st' List.mem_cons_self)
      hobjects.symm (hlinked.1.trans hlinked'.1.symm)
    subst hst
    rw [ih hrest.symm (fun st hst => hopened st (List.mem_cons_of_mem _ hst))
      (fun st hst => hopened' st (List.mem_cons_of_mem _ hst)) hlinked.2 hlinked'.2]

/-- Stretches that are the groups of objects, one behind the other. -/
structure Stretch.Groups (millis : UInt64) (os : List StreamObject) (origin : Origin)
    (ss : List Stretch) : Prop where
  objects : ss.map Stretch.objects = groups millis os
  opened : ∀ st ∈ ss, st.Opened millis
  linked : Stretch.Linked origin ss

namespace Stretch.Groups

variable {millis : UInt64} {xs ys : List StreamObject} {origin : Origin} {ss ss' : List Stretch}

lemma flatMap_objects (h : Groups millis xs origin ss) : ss.flatMap Stretch.objects = xs := by
  rw [List.flatMap_def, h.objects, flatten_groups]

lemma split (h : Groups millis (xs ++ ys) origin ss) (hcut : Cuts millis xs ys) :
    ∃ front rest, ss = front ++ rest ∧ Groups millis xs origin front ∧
      Groups millis ys (origin.past xs) rest := by
  obtain ⟨front, rest, rfl, hfront, hrest⟩ := List.map_eq_append_iff.mp (h.objects.trans hcut)
  have hflat : front.flatMap Stretch.objects = xs := by
    rw [List.flatMap_def, hfront, flatten_groups]
  have hlinked := (Stretch.linked_append _ _ _).mp h.linked
  rw [hflat] at hlinked
  exact ⟨front, rest, rfl,
    ⟨hfront, fun st hst => h.opened st (List.mem_append_left _ hst), hlinked.1⟩,
    ⟨hrest, fun st hst => h.opened st (List.mem_append_right _ hst), hlinked.2⟩⟩

/-- **Groups are determined** by their objects and by where they start. -/
lemma unique (h : Groups millis xs origin ss) (h' : Groups millis xs origin ss') : ss = ss' :=
  eq_of_linked (h.objects.trans h'.objects.symm) h.opened h'.opened h.linked h'.linked

end Stretch.Groups

namespace Outset

variable {σ ω : Type} [Storage σ ω] {b : Outset σ ω} {config : Config} {os : List StreamObject}
  {initial : Hash} {st : Stretch}

/-! ### Courses of batches -/

namespace Serves

variable (h : b.Serves config)

lemma stretches_batch (initial : Hash) (os : List StreamObject) :
    (h.course (Operation.batch initial os)).stretches =
      (h.course (Operation.batch initial os)).past := by
  rw [Course.stretches, Serves.course, Course.current_batch, Option.toList_none, List.append_nil]

lemma nodup_batch
    (hsorted : os.Pairwise fun x y : StreamObject => x.timestamp ≤ y.timestamp) :
    ((h.course (Operation.batch initial os)).past.map Stretch.time).Nodup := by
  rw [← h.stretches_batch]
  exact Course.nodup_batch h.plain.clock config.completeWindow initial hsorted

lemma linked_batch :
    Stretch.Linked (.given initial) (h.course (Operation.batch initial os)).past := by
  rw [← h.stretches_batch]
  exact (Course.follows_of_startsFrom rfl (startsFrom_batch initial os)).linked

lemma objects_batch (initial : Hash) (os : List StreamObject) :
    (h.course (Operation.batch initial os)).past.flatMap Stretch.objects = os :=
  Course.objects_batch h.plain.clock config.completeWindow initial os

lemma mem_batch_of_past (hst : st ∈ (h.course (Operation.batch initial os)).past) :
    ∀ x ∈ st.objects, x ∈ os := by
  intro x hx
  rw [← h.objects_batch initial os]
  exact List.mem_flatMap.mpr ⟨st, hst, hx⟩

lemma fresh_eq_kept {τ υ : Type} [Storage τ υ] {G : Setting τ υ} (hconfig : G.config = config)
    (hfree : ∀ path, config.Names path → G.files path = none)
    (hnamed : ∀ x ∈ os, ∃ text, x.timestamp.toIso = .ok text)
    (hst : st ∈ (h.course (Operation.batch initial os)).past) : G.fresh st = st.kept := by
  have hmem : st ∈ (h.course (Operation.batch initial os)).stretches :=
    (h.stretches_batch initial os).symm ▸ hst
  obtain ⟨o, ho, htime⟩ := (h.grounded (Operation.batch initial os)).head hmem
  obtain ⟨text, htext⟩ := hnamed o (h.mem_batch_of_past hst o (List.mem_of_head? ho))
  obtain ⟨path, hpath⟩ := Naming.recordPath_of_toIso htext config.exportDir config.kind
  rw [htime] at hpath
  rw [Bool.eq_iff_iff, G.fresh_iff, hconfig]
  exact ⟨And.left, fun hkept => ⟨hkept, path, hpath, hfree path ⟨_, hpath⟩⟩⟩

lemma alike_batch {τ υ ρ χ : Type} [Storage τ υ] [Storage ρ χ] {G : Setting τ υ} {K : Setting ρ χ}
    (hconfig : K.config = G.config) (hknown : G.known ∧ K.known) (initial : Hash)
    (hlinks : ∀ x ∈ os, ∃ k, G.pipeline.Holds x.link k ∧ K.pipeline.Holds x.link k) :
    G.Alike K (h.course (Operation.batch initial os)) where
  config := hconfig
  known := hknown
  linked := ⟨initial, by rw [h.stretches_batch]; exact h.linked_batch⟩
  links hx := by
    rw [Course.objects, h.stretches_batch, h.objects_batch] at hx
    exact hlinks _ hx

end Serves

/-! ### Accounts of batches -/

/-- **A batch has an account** where nobody interferes. -/
theorem account_batch {reliable : Prop} (h : b.Serves config)
    (hd : reliable → b.Dependable config) (hcalm : b.meanwhile = []) (initial : Hash)
    (hsorted : os.Pairwise fun x y : StreamObject => x.timestamp ≤ y.timestamp)
    (hnamed : ∀ x ∈ os, ∃ text, x.timestamp.toIso = .ok text)
    (hresolved : ∀ x ∈ os, ∃ k, b.pipeline.Holds x.link k) :
    ∃ t pubs, b.reached config ((Operation.batch initial os).map .call) = some t ∧
      Account (h.straight reliable hd) pubs (h.course (Operation.batch initial os))
        t.writer t.world :=
  account_straight h hd hcalm (provides_batch hnamed hresolved) (startsFrom_batch initial os)
    (by simp [Operation.batch]) (by simp [Operation.batch])
    (Course.nodup_batch h.plain.clock config.completeWindow initial hsorted)

lemma Serves.steady_batch (h : b.Serves config) {hd : True → b.Dependable config}
    {pubs : List Publication} {w : Writer ω} {s : Surroundings σ}
    (account : Account (h.straight True hd) pubs (h.course (Operation.batch initial os)) w s)
    (hfits : ∀ x ∈ os, x.item.Fits) :
    Steady (h.straight True hd) pubs (h.course (Operation.batch initial os)) w s := by
  refine account.steady_of_fits trivial trivial fun st hst x hx => hfits x ?_
  rw [h.stretches_batch] at hst
  exact h.mem_batch_of_past hst x hx

/-! ### Batches that nothing fails -/

section

variable (h : b.Serves config) (hs : b.Smooth config) (initial : Hash)
  (hfree : ∀ path, config.Names path → b.view.file b.storage path = none)
  (hsorted : os.Pairwise fun x y : StreamObject => x.timestamp ≤ y.timestamp)
  (hnamed : ∀ x ∈ os, ∃ text, x.timestamp.toIso = .ok text) (hfits : ∀ x ∈ os, x.item.Fits)
  (hresolved : ∀ x ∈ os, ∃ k, b.pipeline.Holds x.link k)

include hfree hsorted hnamed hfits hresolved

/-- **All windows of a batch are published** over free paths, but those passed over. -/
theorem publish_batch :
    ∃ t pubs, b.reached config ((Operation.batch initial os).map .call) = some t ∧
      Account (h.straight True fun _ => hs.dependable) pubs
        (h.course (Operation.batch initial os)) t.writer t.world ∧ t.Unbroken ∧
      pubs.map Publication.stretch =
        (h.course (Operation.batch initial os)).past.filter Stretch.kept := by
  obtain ⟨t, pubs, ht, account⟩ := account_batch h (fun _ : True => hs.dependable) hs.calm initial
    hsorted hnamed hresolved
  have hsteady := h.steady_batch account hfits
  refine ⟨t, pubs, ht, account, hsteady.token, ?_⟩
  rw [hsteady.all]
  exact List.filter_congr fun st hst => h.fresh_eq_kept rfl hfree hnamed hst

/-- **All groups are published** by a writer that does not wait. -/
theorem publish_groups (hwindow : config.completeWindow = false) :
    ∃ t pubs, b.reached config ((Operation.batch initial os).map .call) = some t ∧
      Account (h.straight True fun _ => hs.dependable) pubs
        (h.course (Operation.batch initial os)) t.writer t.world ∧ t.Unbroken ∧
      Stretch.Groups config.periodMillis os (.given initial) (pubs.map Publication.stretch) := by
  obtain ⟨t, pubs, ht, account, hunbroken, hpubs⟩ := publish_batch h hs initial hfree hsorted hnamed
    hfits hresolved
  obtain ⟨-, hgroups, hopened⟩ := course_batch h hwindow initial os
  rw [List.filter_eq_self.mpr fun st hst => (hopened st hst).kept] at hpubs
  exact ⟨t, pubs, ht, account, hunbroken, hpubs ▸ ⟨hgroups, hopened, h.linked_batch⟩⟩

/-- **All groups behind the first boundary are published** by a writer that waits. -/
theorem publish_later (hwindow : config.completeWindow = true) :
    ∃ t pubs, b.reached config ((Operation.batch initial os).map .call) = some t ∧
      Account (h.straight True fun _ => hs.dependable) pubs
        (h.course (Operation.batch initial os)) t.writer t.world ∧ t.Unbroken ∧
      Stretch.Groups config.periodMillis (laterPeriods config.periodMillis os)
        ((Origin.given initial).past (firstPeriod config.periodMillis os))
        (pubs.map Publication.stretch) := by
  obtain ⟨t, pubs, ht, account, hunbroken, hpubs⟩ := publish_batch h hs initial hfree hsorted hnamed
    hfits hresolved
  refine ⟨t, pubs, ht, account, hunbroken, ?_⟩
  have hlinked : Stretch.Linked (.given initial) (h.course (Operation.batch initial os)).past :=
    h.linked_batch
  rw [hpubs]
  rw [Serves.course, hwindow] at hlinked ⊢
  cases os with
  | nil => exact ⟨by rw [laterPeriods, groups_nil]; rfl, by rintro _ ⟨⟩, trivial⟩
  | cons x os =>
    obtain ⟨-, rest, hpast, hgroups, hopened⟩ :=
      Course.run_batch_waiting h.plain.clock initial x os
    rw [hpast] at hlinked ⊢
    rw [List.filter_cons_of_neg (by simp),
      List.filter_eq_self.mpr fun st hst => (hopened st hst).kept]
    exact ⟨hgroups, hopened, hlinked.2⟩

end

/-- **The files in place** are named for the first objects of groups. -/
lemma mem_placed_iff {G : Setting σ ω} {millis : UInt64} {origin : Origin}
    {pubs : List Publication} {past : List Stretch} {last : Option WrittenFile}
    {s : Surroundings σ} {path : Path} (h : Records G pubs past last s)
    (hgroups : Stretch.Groups millis os origin (pubs.map Publication.stretch)) :
    path ∈ s.placed ↔ ∃ g ∈ groups millis os, ∃ o, g.head? = some o ∧
      Naming.recordPath G.config.exportDir o.timestamp G.config.kind = .ok path := by
  have hhead : ∀ p ∈ pubs, ∃ o, p.stretch.objects.head? = some o ∧
      Naming.recordPath G.config.exportDir o.timestamp G.config.kind = .ok p.path := by
    intro p hp
    obtain ⟨o, os, hobjects, -, htime⟩ := (hgroups.opened _ (List.mem_map_of_mem hp)).head
    obtain ⟨call, hvalid⟩ := h.published.valid hp
    exact ⟨o, by rw [hobjects]; rfl, htime ▸ hvalid.name⟩
  rw [h.placed, ← hgroups.objects]
  constructor
  · intro hpath
    obtain ⟨p, hp, rfl⟩ := List.mem_map.mp hpath
    exact ⟨_, List.mem_map_of_mem (List.mem_map_of_mem hp), hhead p hp⟩
  · rintro ⟨g, hg, o, ho, hname⟩
    obtain ⟨st, hst, rfl⟩ := List.mem_map.mp hg
    obtain ⟨p, hp, rfl⟩ := List.mem_map.mp hst
    obtain ⟨o', ho', hname'⟩ := hhead p hp
    cases ho.symm.trans ho'
    cases hname.symm.trans hname'
    exact List.mem_map_of_mem hp

/-! ### Streams on a disk -/

/-- A run on a disk with nothing but an empty directory in it, over links that hold the running
hashes of objects. -/
def chained (os : List StreamObject) : Outset Disk DiskOutput :=
  onDisk "record-streams"
    ⟨fun i => .resolved (RunningHash.after .zero ((os.take (i + 1)).map StreamObject.item)),
      fun _ => false, os.length, 0⟩
    ⟨.ed25519, fun _ _ => .ok [0]⟩

lemma serves_chained (os : List StreamObject) : (chained os).Serves .standard := serves_standard _ _

lemma smooth_chained (os : List StreamObject) : (chained os).Smooth .standard :=
  smooth_standard _ fun _ _ => ⟨[0], rfl, by decide⟩

lemma free_chained (os : List StreamObject) (path : Path) :
    (chained os).view.file (chained os).storage path = none :=
  file_onDisk ..

/-- An object of no block and three of one block, of which the first is in the period of the object
before and the others in later ones. -/
def spanning : List StreamObject :=
  [⟨.of [1] [2], ⟨1, 0⟩, ⟨0⟩, .unaligned⟩, ⟨.of [3] [], ⟨1, 500000000⟩, ⟨1⟩, .block 7⟩,
    ⟨.of [] [4], ⟨3, 0⟩, ⟨2⟩, .block 7⟩, ⟨.of [5] [6], ⟨5, 0⟩, ⟨3⟩, .block 7⟩]

lemma sorted_spanning : spanning.Pairwise fun x y => x.timestamp ≤ y.timestamp := by decide

lemma fits_spanning : ∀ x ∈ spanning, x.item.Fits := by decide

lemma named_spanning : ∀ x ∈ spanning, ∃ text, x.timestamp.toIso = .ok text :=
  fun _ hx => named_of_isOk (by decide) hx

lemma holds_spanning : ∀ x ∈ spanning, ∃ k, (chained spanning).pipeline.Holds x.link k := by
  have hslot : ∀ x ∈ spanning, x.link.slot < spanning.length := by decide
  exact fun x hx => ⟨_, hslot x hx, rfl⟩

lemma groups_front : groups Config.standard.periodMillis (spanning.take 2) = [spanning.take 2] := by
  have htakes : (spanning[0].window Config.standard.periodMillis).takes
      Config.standard.periodMillis spanning[1] = true := by decide
  show groups _ [spanning[0], spanning[1]] = [[spanning[0], spanning[1]]]
  simp [groups_cons, htakes]

lemma groups_rest : groups Config.standard.periodMillis (spanning.drop 2) = [spanning.drop 2] := by
  have htakes : (spanning[2].window Config.standard.periodMillis).takes
      Config.standard.periodMillis spanning[3] = true := by decide
  show groups _ [spanning[2], spanning[3]] = [[spanning[2], spanning[3]]]
  simp [groups_cons, htakes]

lemma cuts_spanning : Cuts Config.standard.periodMillis (spanning.take 2) (spanning.drop 2) := by
  have hfront : groups Config.standard.periodMillis (spanning.take 2) =
      [] ++ [spanning[0] :: [spanning[1]]] := groups_front
  exact (cuts_cons_iff hfront).mpr (by decide)

lemma groups_spanning :
    groups Config.standard.periodMillis spanning = [spanning.take 2, spanning.drop 2] := by
  have h := cuts_spanning
  rw [Cuts, groups_front, groups_rest, List.take_append_drop] at h
  exact h

end Outset

end SealedStream
