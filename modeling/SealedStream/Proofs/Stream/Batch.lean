import SealedStream.Proofs.Stream.Export
import SealedStream.Proofs.Stream.Grouping

/-!
What a writer leaves of a batch of objects, where nothing fails: the files of its groups, and
nothing else.
-/

namespace SealedStream

/-! ### The files of groups -/

/-- A group's record file and signature file, if the running hash is `start` before its first object
and `finish` after its last, and the signer has been asked `call` times. -/
inductive GroupFiles (config : Config) (p : Pipeline) (signer : Signer) (call : ℕ)
    (start : Hash) (group : List StreamObject) : List (Path × Bytes) → (finish : Hash) → Prop where
  | mk {first last : StreamObject} {path : Path} {finish : Hash} {file : RecordFile}
    {content image x y : Bytes}
    (head : group.head? = some first)
    (foot : group.getLast? = some last)
    (name : Naming.recordPath config.exportDir first.timestamp config.kind = .ok path)
    (hash : p.hash? last.link = some finish)
    (form : file =
      config.kind.file start (group.map StreamObject.item) finish first.alignment.number)
    (encode : file.encode = .ok content)
    (sign : signer.sign call (Hash.digest content).bytes = .ok x)
    (sign' : signer.sign (call + 1) file.metadataHash.bytes = .ok y)
    (signatures : (config.kind.signatures signer.scheme (Hash.digest content) file.metadataHash
      x y).encode = .ok image) :
    GroupFiles config p signer call start group
      [(path, content), (Naming.signaturePath path config.kind.signatureExtension, image)] finish

/-- The files of groups, one after the other from a running hash on. -/
inductive BatchFiles (config : Config) (p : Pipeline) (signer : Signer) (initial : Hash) :
    List (List StreamObject) → List (Path × Bytes) → (finish : Hash) → Prop where
  | nil : BatchFiles config p signer initial [] [] initial
  | snoc {groups : List (List StreamObject)} {files more : List (Path × Bytes)}
    {start finish : Hash} {group : List StreamObject}
    (before : BatchFiles config p signer initial groups files start)
    (next : GroupFiles config p signer (2 * groups.length) start group more finish) :
    BatchFiles config p signer initial (groups ++ [group]) (files ++ more) finish

variable {σ ω : Type} [Storage σ ω] {G : Setting σ ω} {p : Pipeline} {pubs : List Publication}
  {b : Publication} {initial : Hash}

lemma Origin.At.unique {origin : Origin} {h k : Hash} (hset : origin ≠ .unset) (hh : origin.At p h)
    (hk : origin.At p k) : h = k := by
  cases origin with
  | unset => exact (hset rfl).elim
  | given g => exact Eq.trans hh (Eq.symm hk)
  | after o => exact Pipeline.Holds.unique hh hk

/-- **A publication with its signatures** is the files of the group that its stretch is. -/
lemma Publication.Valid.groupFiles {call : ℕ} (h : b.Valid G p call) (hG : G.known)
    (hopened : b.stretch.Opened G.config.periodMillis) (hsigned : b.signature.isSome)
    (hp : G.pipeline.Extends p)
    (hresolved : ∀ o ∈ b.stretch.objects, ∃ k, G.pipeline.Holds o.link k) :
    GroupFiles G.config G.pipeline G.signer call b.file.start b.stretch.objects b.files
        b.file.finish ∧
      b.messages.length = 2 := by
  obtain ⟨o, os, hobjects, hwindow, htime⟩ := hopened.head
  have hlast := List.getLast?_eq_some_getLast h.nonempty
  obtain ⟨k, hk⟩ := hresolved _ (List.getLast_mem h.nonempty)
  have hfinish : k = b.file.finish := (hk.mono hp).unique (h.ends hG _ hlast)
  obtain ⟨⟨q, image⟩, hsig⟩ := Option.isSome_iff_exists.mp hsigned
  obtain ⟨rfl, hmessages, x, y, hx, hy, henc⟩ := h.signed.signature hsig
  have hform := h.file
  have hname := h.name
  rw [hwindow] at hform
  rw [htime] at hname
  have hfiles : b.files = [(b.path, b.content),
      (Naming.signaturePath b.path G.config.kind.signatureExtension, image)] := by
    rw [Publication.files, hsig]
    rfl
  refine ⟨?_, by rw [hmessages]; rfl⟩
  rw [hfiles]
  refine .mk (by rw [hobjects]; rfl) hlast hname ?_ hform h.image hx hy henc
  rw [Pipeline.hash?, hk.2, hfinish]

/-- **Publications are the files of their groups.** -/
lemma Published.batchFiles (h : Published G p pubs) (hG : G.known) (hp : G.pipeline.Extends p)
    (hlinked : Stretch.Linked (.given initial) (pubs.map Publication.stretch))
    (hopened : ∀ b ∈ pubs, b.stretch.Opened G.config.periodMillis)
    (hsigned : ∀ b ∈ pubs, b.signature.isSome)
    (hresolved : ∀ b ∈ pubs, ∀ o ∈ b.stretch.objects, ∃ k, G.pipeline.Holds o.link k) :
    ∃ finish, BatchFiles G.config G.pipeline G.signer initial
        (pubs.map fun b => b.stretch.objects) (pubs.flatMap Publication.files) finish ∧
      ((Origin.given initial).past (pubs.flatMap fun b => b.stretch.objects)).At G.pipeline finish ∧
      G.asked pubs = 2 * pubs.length := by
  induction h with
  | nil => exact ⟨initial, .nil, rfl, rfl⟩
  | @snoc pubs b before valid ih =>
    rw [List.map_append, Stretch.linked_append] at hlinked
    have hmem : b ∈ pubs ++ [b] := List.mem_append_right _ (List.mem_singleton.mpr rfl)
    have hleft : ∀ x ∈ pubs, x ∈ pubs ++ [b] := fun x hx => List.mem_append_left _ hx
    obtain ⟨start, hfiles, hat, hasked⟩ := ih hlinked.1 (fun x hx => hopened x (hleft x hx))
      (fun x hx => hsigned x (hleft x hx)) fun x hx => hresolved x (hleft x hx)
    have hbefore : b.stretch.before =
        (Origin.given initial).past (pubs.flatMap fun b => b.stretch.objects) := by
      rw [hlinked.2.1, List.flatMap_map]
    have hset : b.stretch.before ≠ .unset := by
      rw [hbefore]
      exact Origin.past_given_ne_unset _ _
    have hstart : start = b.file.start := by
      rw [← hbefore] at hat
      exact (hat.mono hp).unique hset (valid.starts hG)
    obtain ⟨hgroup, hmessages⟩ := valid.groupFiles hG (hopened b hmem) (hsigned b hmem) hp
      (hresolved b hmem)
    rw [hasked, ← List.length_map, ← hstart] at hgroup
    refine ⟨b.file.finish, ?_, ?_, ?_⟩
    · rw [List.map_append, List.flatMap_append, List.flatMap_singleton]
      exact .snoc hfiles hgroup
    · obtain ⟨ys, o, hys⟩ := (List.eq_nil_or_concat b.stretch.objects).resolve_left valid.nonempty
      rw [List.concat_eq_append] at hys
      have hlast : b.stretch.objects.getLast? = some o := by rw [hys, List.getLast?_concat]
      obtain ⟨k, hk⟩ := hresolved b hmem o (List.mem_of_getLast? hlast)
      rw [List.flatMap_append, List.flatMap_singleton, Origin.past_append, hys, Origin.past_concat]
      show G.pipeline.Holds o.link b.file.finish
      rwa [← (hk.mono hp).unique (valid.ends hG o hlast)]
    · rw [Setting.asked, List.flatMap_append, List.length_append, List.flatMap_singleton, hmessages,
        List.length_append, List.length_singleton]
      rw [Setting.asked] at hasked
      omega

/-! ### What is left -/

variable {c : Course} {w : Writer ω} {s : Surroundings σ}

lemma Records.file_of_mem {past : List Stretch} {last : Option WrittenFile}
    (h : Records G pubs past last s) {path : Path} {image : Bytes}
    (hmem : (path, image) ∈ pubs.flatMap Publication.files) :
    G.view.file s.storage path = some image := by
  obtain ⟨b, hb, hin⟩ := List.mem_flatMap.mp hmem
  obtain ⟨call, hvalid⟩ := h.published.valid hb
  obtain ⟨r, rfl, hr⟩ := hvalid.mem_files (List.mem_map_of_mem (f := Prod.fst) hin)
  rw [h.files (G.not_inProgress hvalid.names hr)]
  exact putAll_of_mem (h.published.nodup_files h.nodup) hmem

lemma Account.file_of_not_mem (h : Account G pubs c w s) (hR : G.reliable)
    (hst : Steady G pubs c w s) (hcurrent : c.current = none)
    (htidy : ∀ {path}, G.InProgress path → G.files path = none) {path : Path}
    (hnot : path ∉ (pubs.flatMap Publication.files).map Prod.fst) :
    G.view.file s.storage path = G.files path := by
  by_cases hp : G.InProgress path
  · have hidle := h.follows.idle_iff.mpr hcurrent
    have htidied := hst.tidy hR hp fun file hw => nomatch hidle.symm.trans hw
    exact htidied.elim (fun hnone => hnone.trans (htidy hp).symm) id
  · rw [h.records.files hp]
    exact putAll_of_not_mem hnot

/-! ### Batches -/

namespace Outset

variable {o : Outset σ ω} {config : Config} {os : List StreamObject}

lemma startsFrom_batch (initial : Hash) (os : List StreamObject) :
    Operation.startsFrom initial (Operation.batch initial os) = true := by
  simp [Operation.batch, Operation.startsFrom, Operation.keeps]

lemma mem_batch {x : StreamObject} (h : .add x ∈ Operation.batch initial os) : x ∈ os := by
  simpa [Operation.batch] using h

lemma provides_batch (hnamed : ∀ x ∈ os, ∃ text, x.timestamp.toIso = .ok text)
    (hresolved : ∀ x ∈ os, ∃ k, o.pipeline.Holds x.link k) :
    o.Provides (Operation.batch initial os) :=
  ⟨fun hx => hresolved _ (mem_batch hx), fun hx => hnamed _ (mem_batch hx)⟩

lemma course_batch (h : o.Serves config) (hwindow : config.completeWindow = false) (initial : Hash)
    (os : List StreamObject) :
    (h.course (Operation.batch initial os)).current = none ∧
      (h.course (Operation.batch initial os)).past.map Stretch.objects =
        groups config.periodMillis os ∧
      ∀ st ∈ (h.course (Operation.batch initial os)).past, st.Opened config.periodMillis := by
  rw [Serves.course, hwindow]
  exact Course.run_batch h.plain.clock initial os

lemma distinct_batch (h : o.Serves config) (hwindow : config.completeWindow = false)
    (hsorted : os.Pairwise fun x y : StreamObject => x.timestamp ≤ y.timestamp) :
    ((h.course (Operation.batch initial os)).stretches.map Stretch.time).Nodup := by
  obtain ⟨hcurrent, hgroups, hopened⟩ := course_batch h hwindow initial os
  rw [Course.stretches, hcurrent, Option.toList_none, List.append_nil]
  exact Stretch.nodup_times hgroups hopened hsorted

lemma fresh_batch (h : o.Serves config) (hs : o.Smooth config) {fitting : Prop}
    (hwindow : config.completeWindow = false)
    (hfree : ∀ path, config.Names path → o.view.file o.storage path = none)
    (hnamed : ∀ x ∈ os, ∃ text, x.timestamp.toIso = .ok text) {st : Stretch}
    (hst : st ∈ (h.course (Operation.batch initial os)).past) :
    (h.sheltered hs fitting).fresh st = true := by
  obtain ⟨-, hgroups, hopened⟩ := course_batch h hwindow initial os
  obtain ⟨x, hx, htime⟩ := (hopened st hst).time_mem (hgroups ▸ List.mem_map_of_mem hst)
  obtain ⟨text, htext⟩ := hnamed x hx
  obtain ⟨path, hpath⟩ := Naming.recordPath_of_toIso htext config.exportDir config.kind
  refine (Setting.fresh_iff _).mpr ⟨(hopened st hst).kept, path, ?_, hfree path ⟨_, hpath⟩⟩
  rw [htime]
  exact hpath

/-- **What a batch leaves.** Objects whose times do not go back, all of which can be named and
written, are handed to a new writer and the writer is closed, while nothing fails. Then it leaves
the files of the greedy groups of the objects, which all have names of their own, and nothing else
has changed. -/
theorem batch_files (h : o.Serves config) (hs : o.Smooth config)
    (hwindow : config.completeWindow = false)
    (hfree : ∀ path, config.Names path → o.view.file o.storage path = none)
    (hsorted : os.Pairwise fun x y : StreamObject => x.timestamp ≤ y.timestamp)
    (hnamed : ∀ x ∈ os, ∃ text, x.timestamp.toIso = .ok text) (hfits : ∀ x ∈ os, x.item.Fits)
    (hresolved : ∀ x ∈ os, ∃ k, o.pipeline.Holds x.link k) :
    ∃ t files finish, o.reached config ((Operation.batch initial os).map .call) = some t ∧
      BatchFiles config o.pipeline o.signer initial (groups config.periodMillis os) files finish ∧
      (files.map Prod.fst).Nodup ∧
      (∀ file ∈ files, o.view.file t.world.storage file.1 = some file.2) ∧
      ∀ path, path ∉ files.map Prod.fst →
        o.view.file t.world.storage path = o.view.file o.storage path := by
  obtain ⟨hcurrent, hgroups, hopened⟩ := course_batch h hwindow initial os
  obtain ⟨t, pubs, ht, account⟩ := account_sheltered h hs (provides_batch hnamed hresolved)
    (startsFrom_batch initial os) (by simp [Operation.batch]) (distinct_batch h hwindow hsorted)
    (fun _ : True => fun x hx => hfits x (mem_batch hx))
  have hsteady := (account.steady trivial).resolve_right fun hl => hl.unfit trivial
  -- every stretch has been published
  have hall : pubs.map Publication.stretch = (h.course (Operation.batch initial os)).past := by
    rw [hsteady.all, List.filter_eq_self]
    exact fun st hst => fresh_batch h hs hwindow hfree hnamed hst
  have hstretch : ∀ b ∈ pubs, b.stretch ∈ (h.course (Operation.batch initial os)).past :=
    fun b hb => hall ▸ List.mem_map_of_mem hb
  have hlinked : Stretch.Linked (.given initial) (pubs.map Publication.stretch) := by
    have hfollows : (h.course (Operation.batch initial os)).Follows (.given initial) :=
      Course.follows_of_startsFrom rfl (startsFrom_batch initial os)
    rw [hall]
    exact ((Stretch.linked_append _ _ _).mp hfollows.linked).1
  have hobjects : (pubs.map fun b => b.stretch.objects) = groups config.periodMillis os := by
    rw [← hgroups, ← hall, List.map_map]
    rfl
  have hmem : ∀ b ∈ pubs, ∀ x ∈ b.stretch.objects, x ∈ os := by
    intro b hb x hx
    rw [← flatten_groups config.periodMillis os, ← hobjects]
    exact List.mem_flatten.mpr ⟨_, List.mem_map_of_mem hb, hx⟩
  obtain ⟨finish, hfiles, -, -⟩ := account.records.published.batchFiles trivial
    account.records.grown hlinked (fun b hb => hopened _ (hstretch b hb))
    (fun b hb => hsteady.signed hb) fun b hb x hx => hresolved x (hmem b hb x hx)
  rw [hobjects] at hfiles
  exact ⟨t, pubs.flatMap Publication.files, finish, ht, hfiles,
    account.records.published.nodup_files account.records.nodup,
    fun file hfile => account.records.file_of_mem hfile,
    fun path hpath => account.file_of_not_mem trivial hsteady hcurrent (h.tidied hs) hpath⟩

lemma groups_few : groups Config.standard.periodMillis few = few.map fun x => [x] := by
  have hout : (few[0].window Config.standard.periodMillis).takes Config.standard.periodMillis
      few[1] = false := by decide
  show groups _ [few[0], few[1]] = [[few[0]], [few[1]]]
  simp [groups_cons, hout]

/-- On a disk with an empty directory, for two objects that do not belong together. -/
theorem batch_files_few :
    ∃ (t : Stage Disk DiskOutput) (files : List (Path × Bytes)) (finish : Hash),
    sample.reached .standard ((Operation.batch .zero few).map .call) = some t ∧
      BatchFiles .standard sample.pipeline sample.signer .zero (few.map fun x => [x]) files finish ∧
      (files.map Prod.fst).Nodup ∧ (∀ file ∈ files, t.world.storage.file file.1 = some file.2) ∧
      ∀ path, path ∉ files.map Prod.fst → t.world.storage.file path = none := by
  obtain ⟨t, files, finish, ht, hfiles, hnames, hplaced, hrest⟩ := batch_files serves_sample
    smooth_sample rfl (fun _ _ => file_onDisk ..) (show few.Pairwise _ by decide)
    (fun _ hx => named_few hx) (by decide) (fun _ hx => holds_sample hx)
  rw [groups_few] at hfiles
  exact ⟨t, files, finish, ht, hfiles, hnames, hplaced, fun path hpath =>
    (hrest path hpath).trans (file_onDisk ..)⟩

end Outset

end SealedStream
