import SealedStream.Proofs.Stream.Fate
import SealedStream.Proofs.Stream.Inquiries
import SealedStream.Proofs.Stream.Recovery
import SealedStream.Proofs.Writer.Sparing

/-!
Nothing on the disk is damaged.

What is spared by every operation is spared by a run, and what holds of every run that crashes after
some operations of the storage holds at every moment of a run.
-/

namespace SealedStream.Outset

variable {σ ω : Type} [Storage σ ω] {b : Outset σ ω} {config : Config}
  {steps before after : List Step} {t₀ t t' : Stage σ ω} {x : Step} {path : Path}

/-- A call of the run has opened the window whose record file has this path. -/
def Named (b : Outset σ ω) (config : Config) (steps : List Step) (path : Path) : Prop :=
  ∃ op t₀ t₁, b.Calls config steps op t₀ t₁ ∧ t₀.writer.Enters t₀.world op path

lemma Named.append (h : b.Named config steps path) (more : List Step) :
    b.Named config (steps ++ more) path := by
  obtain ⟨op, t₀, t₁, hcalls, henters⟩ := h
  exact ⟨op, t₀, t₁, hcalls.append more, henters⟩

/-- **One step** spares all files but those beside windows that the run has named. -/
lemma Serves.spares_step (h : b.Serves config) (ht : b.reached config steps = some t)
    (hstep : t.step x = some t')
    (hnamed : ∀ file, t.writer.phase = .writing file → b.Named config steps file.path) :
    Spares (h.exposed False) (b.Named config (steps ++ [x])) t.writer.phase t.world.storage
      t'.writer.phase t'.world.storage := by
  have hnamed' : ∀ file, t.writer.phase = .writing file →
      b.Named config (steps ++ [x]) file.path := fun file hw => (hnamed file hw).append _
  cases x with
  | outside i =>
    cases hstep
    exact .refl hnamed'
  | call op =>
    obtain ⟨pubs, account, -⟩ := account_exposed h False False.elim ht
    obtain ⟨⟨⟨reply, w⟩, s⟩, happly, rfl⟩ := Option.map_eq_some_iff.mp hstep
    refine account.spares_apply (fun _ => (h.grounded _).current_nonempty) False.elim hnamed'
      (fun path henters => ?_) _ _ happly
    exact ⟨op, t, _, ⟨steps, [], rfl, ht, hstep⟩, henters⟩

lemma Serves.spares_after (h : b.Serves config) (before : List Step)
    (ht₀ : b.reached config before = some t₀)
    (hnamed : ∀ file, t₀.writer.phase = .writing file → b.Named config before file.path)
    (ht : b.reached config (before ++ after) = some t) :
    Spares (h.exposed False) (b.Named config (before ++ after)) t₀.writer.phase t₀.world.storage
      t.writer.phase t.world.storage := by
  induction after using List.reverseRecOn generalizing t with
  | nil =>
    rw [List.append_nil] at ht ⊢
    cases ht₀.symm.trans ht
    exact .refl hnamed
  | append_singleton after x ih =>
    rw [← List.append_assoc] at ht ⊢
    obtain ⟨t₁, ht₁, hstep⟩ := reached_concat_iff.mp ht
    have hearlier := ih ht₁
    exact (hearlier.mono fun _ hq => hq.append [x]).trans
      (h.spares_step ht₁ hstep fun _ => hearlier.opened)

lemma Serves.spares_begun (h : b.Serves config) (ht : b.reached config steps = some t) :
    Spares (h.exposed False) (b.Named config steps) .idle b.storage t.writer.phase
      t.world.storage := by
  obtain ⟨t₀, ht₀, hidle, hstorage, -⟩ := h.begins
  rw [← hidle, ← hstorage]
  exact h.spares_after [] ht₀ (by simp [hidle]) ht

/-- **From one stage of a run to a later one** files are spared. -/
lemma Serves.spares_run (h : b.Serves config) (ht₀ : b.reached config before = some t₀)
    (ht : b.reached config (before ++ after) = some t) :
    Spares (h.exposed False) (b.Named config (before ++ after)) t₀.writer.phase t₀.world.storage
      t.writer.phase t.world.storage := by
  refine h.spares_after before ht₀ (fun file hw => ?_) ht
  exact (h.spares_begun ht₀).opened hw

/-- So far no file has been damaged. -/
structure Undamaged (b : Outset σ ω) (config : Config) (steps : List Step) (t : Stage σ ω) :
    Prop where
  /-- What was there at the start stays, unless it is beside the record file of a window that the
  run has named: an unfinished file of that window, or its signature file. -/
  kept {p : Path} {bs : Bytes} : b.view.file b.storage p = some bs →
    (∀ q, b.Named config steps q → ¬config.kind.Beside q p) →
    b.view.file t.world.storage p = some bs
  /-- No record file that was there is overwritten or removed. -/
  record {q : Path} {bs : Bytes} : config.Names q → b.view.file b.storage q = some bs →
    b.view.file t.world.storage q = some bs
  /-- Nor is one that has been put in place by then, at any later time. -/
  placed {before after : List Step} {t₀ : Stage σ ω} {q : Path} : steps = before ++ after →
    b.reached config before = some t₀ → q ∈ t₀.world.placed →
    ∃ bs, b.view.file t₀.world.storage q = some bs ∧ b.view.file t.world.storage q = some bs

lemma Named.names (h : b.Serves config) (hn : b.Named config steps path) : config.Names path := by
  obtain ⟨op, t₀, t₁, ⟨before, after, -, ht₀, -⟩, o, w₁, s₁, -, -, -, -, -, hname⟩ := hn
  obtain ⟨pubs, account, -⟩ := account_exposed h False False.elim ht₀
  rw [show t₀.writer.config = config from account.follows.config] at hname
  exact ⟨_, hname⟩

lemma Named.not_beside (h : b.Serves config) {q : Path} (hn : b.Named config steps q)
    (hp : config.Names path) : ¬config.kind.Beside q path := by
  rintro ⟨r, hr, heq⟩
  exact h.plain.not_beside hp ⟨q, r, hn.names h, hr, heq⟩

lemma exists_placed (h : b.Serves config) (ht : b.reached config steps = some t)
    (hp : path ∈ t.world.placed) :
    config.Names path ∧ ∃ bs, b.view.file t.world.storage path = some bs := by
  obtain ⟨pubs, account, -⟩ := account_exposed h False False.elim ht
  rw [account.records.placed] at hp
  obtain ⟨x, hx, rfl⟩ := List.mem_map.mp hp
  obtain ⟨call, hvalid⟩ := account.records.published.valid hx
  exact ⟨hvalid.names, _, account.records.content hx⟩

lemma Serves.undamaged (h : b.Serves config) (ht : b.reached config steps = some t) :
    b.Undamaged config steps t := by
  have hbegun := h.spares_begun ht
  refine ⟨hbegun.stands, fun {q bs} hq hbs => ?_, ?_⟩
  · exact hbegun.stands hbs fun _ hn => hn.not_beside h hq
  · rintro before after t₀ q rfl ht₀ hq
    obtain ⟨hname, bs, hbs⟩ := exists_placed h ht₀ hq
    exact ⟨bs, hbs, (h.spares_run ht₀ ht).stands hbs fun _ hn => hn.not_beside h hname⟩

/-- **Nothing on the disk is damaged.** In any run, whatever fails, after every step and after every
single operation of the storage, each file that was there at the start holds its bytes, unless it is
beside the record file of a window that the run has named; so a record file that was there is
neither overwritten nor removed. And a record file that the writer has put in place is neither
changed nor removed by what comes after. -/
theorem files_undamaged (h : b.Serves config) (steps : List Step) :
    (∀ t, b.reached config steps = some t → b.Undamaged config steps t) ∧
    ∀ n t, (b.crashing n).reached config steps = some t →
      (b.crashing n).Undamaged config steps t :=
  ⟨fun _ ht => h.undamaged ht, fun n _ ht => (h.crashing n).undamaged ht⟩

/-! ### A second run over the files of the first -/

/-- The small stream over a disk that an earlier run has left, where a file cannot be read back and
the signer fails. -/
def again (t : Stage Disk DiskOutput) : Outset (Faulty Disk) (FaultyOutput DiskOutput) :=
  { refused with storage := { refused.storage with inner := t.world.storage } }

/-- The first run leaves files, and a disk that a second run can begin with. -/
lemma exists_sample : ∃ (t : Stage Disk DiskOutput) (path : Path),
    sample.reached .standard ((Operation.batch .zero few).map .call) = some t ∧
      (again t).Serves .standard ∧
      Naming.recordPath Config.standard.exportDir few[0].timestamp Config.standard.kind = .ok path ∧
      path ∈ t.world.placed := by
  obtain ⟨t, pubs, ht, account, -, hgroups⟩ := publish_groups serves_sample smooth_sample .zero
    (fun _ _ => file_onDisk ..) (show few.Pairwise _ by decide) (fun _ hx => named_few hx)
    (by decide) (fun _ hx => holds_sample hx) rfl
  obtain ⟨text, htext⟩ := named_few (show few[0] ∈ few by decide)
  obtain ⟨path, hpath⟩ := Naming.recordPath_of_toIso htext Config.standard.exportDir
    Config.standard.kind
  have hserves := serves_refused
  refine ⟨t, path, ht, ⟨hserves.plain, ⟨account.records.sound, hserves.sound.reads⟩,
    hserves.reaches⟩, hpath, ?_⟩
  refine (mem_placed_iff account.records hgroups).mpr ⟨[few[0]], ?_, few[0], rfl, hpath⟩
  rw [groups_few]
  decide

theorem files_undamaged_again :
    ∃ (t : Stage Disk DiskOutput) (u : Stage (Faulty Disk) (FaultyOutput DiskOutput)) (path : Path)
      (bs : Bytes),
      sample.reached .standard ((Operation.batch .zero few).map .call) = some t ∧
      (again t).reached .standard shaken = some u ∧
      path ∈ t.world.placed ∧ t.world.storage.file path = some bs ∧
      u.world.storage.inner.file path = some bs ∧ (again t).Undamaged .standard shaken u := by
  obtain ⟨t, path, ht, hserves, hname, hplaced⟩ := exists_sample
  obtain ⟨hn, bs, hbs⟩ := exists_placed serves_sample ht hplaced
  obtain ⟨u, hu⟩ := exists_shaken hserves fun _ => holds_sample
  have hundamaged := (files_undamaged hserves shaken).1 u hu
  exact ⟨t, u, path, bs, ht, hu, hplaced, hbs, hundamaged.record hn hbs, hundamaged⟩

end SealedStream.Outset
