import SealedStream.Proofs.Stream.Preservation
import SealedStream.Proofs.Writer.Passing

/-!
No stray files: where files can be removed, a writer leaves no unfinished file behind but the open
one, and once it has stopped it does nothing any more.
-/

namespace SealedStream

open Act

variable {σ ω : Type} [Storage σ ω] {w : Writer ω} {s : Surroundings σ} {op : Operation}

/-! ### Writers that have stopped -/

/-- The writer has stopped, and no file is open. -/
structure Writer.Shut (w : Writer ω) : Prop where
  stopped : w.stopped = true
  closed : w.isWriting = false

/-- **A call of a writer that has stopped** comes back, and leaves storage and signer alone. -/
lemma Writer.Shut.apply (h : w.Shut) (op : Operation) (s : Surroundings σ) :
    ∃ r s', (w.apply op : Act σ _) s = some (r, s') ∧ r.2.Shut ∧ s'.storage = s.storage ∧
      s'.asked = s.asked := by
  have hnone : ∀ path, ¬w.Enters s op path := by
    rintro path ⟨o, w₁, s₁, -, hgoing, -⟩
    exact nomatch h.stopped.symm.trans hgoing
  obtain ⟨r, s', happly, hpasses⟩ :=
    exists_apply op s h.closed fun path henters => (hnone path henters).elim
  exact ⟨r, s', happly, ⟨hpasses.stopped h.stopped, hpasses.closed⟩, hpasses.storage,
    hpasses.asked⟩

/-- **Whatever comes after a writer has stopped**, storage and signer are left alone. -/
lemma Stage.run_shut {t : Stage σ ω} (h : t.writer.Shut) (more : List Step) :
    ∃ u, Stage.run more t = some u ∧ u.world.storage = t.world.storage ∧
      u.world.asked = t.world.asked := by
  induction more generalizing t with
  | nil => exact ⟨t, rfl, rfl, rfl⟩
  | cons x more ih =>
    rw [Stage.run_cons]
    cases x with
    | outside i => exact ih (t := { t with world := t.world.intervene i }) h
    | call op =>
      obtain ⟨⟨reply, w⟩, s, happly, hshut, hstorage, hasked⟩ := h.apply op t.world
      obtain ⟨u, hu, hstorage', hasked'⟩ := ih (t := ⟨w, s, t.accepted ++ op.taken reply⟩) hshut
      refine ⟨u, ?_, hstorage'.trans hstorage, hasked'.trans hasked⟩
      rw [Stage.step_call happly]
      exact hu

/-! ### Unfinished files -/

lemma Account.part_there {G : Setting σ ω} {pubs : List Publication} {c : Course}
    {s : Surroundings σ} {p : Path} (h : Account G pubs c w s) (hp : w.phase.part? = some p) :
    G.IsPart p ∧ (G.view.file s.storage p).isSome := by
  obtain ⟨file, hw, rfl⟩ := Phase.part?_eq_some_iff.mp hp
  obtain ⟨st, -, hwr⟩ := h.opened hw
  obtain ⟨bs, ho, -⟩ := hwr.holds.taken
  exact ⟨hwr.isPart, G.view.open_isSome h.records.sound ho⟩

namespace Outset

variable {b : Outset σ ω} {config : Config} {steps : List Step} {t : Stage σ ω}

/-- Of the unfinished files in the storage the writer has made none but the open one. -/
structure Tidy (b : Outset σ ω) (config : Config) (steps : List Step) (t : Stage σ ω) : Prop where
  /-- An unfinished file was there at the start, or is the open one. -/
  known {p : Path} : config.Unfinished p → (b.view.file t.world.storage p).isSome →
    (b.view.file b.storage p).isSome ∨ t.writer.phase.part? = some p
  /-- Where an open file of the writer was written, none is left unless it is open still. -/
  dropped {before after : List Step} {t₀ : Stage σ ω} {p : Path} : steps = before ++ after →
    b.reached config before = some t₀ → t₀.writer.phase.part? = some p →
    t.writer.phase.part? ≠ some p → b.view.file t.world.storage p = none
  /-- The open file is there while there is one. -/
  writing : t.writer.isWriting = true ↔ ∃ p, t.writer.phase.part? = some p ∧ config.Unfinished p ∧
    (b.view.file t.world.storage p).isSome

lemma Serves.tidy (h : b.Serves config) (hV : b.view.Removes)
    (ht : b.reached config steps = some t) : b.Tidy config steps t := by
  obtain ⟨pubs, account, -⟩ := account_exposed h False False.elim ht
  refine ⟨fun {p} hp hsome => ?_, ?_, ?_⟩
  · by_contra hnot
    rw [not_or, Option.not_isSome_iff_eq_none] at hnot
    have hnone := (h.spares_begun ht).swept hV hp (.inl hnot.1) hnot.2
    exact nomatch hsome.symm.trans (congrArg Option.isSome hnone)
  · rintro before after t₀ p rfl ht₀ hopen hclosed
    obtain ⟨_, account₀, -⟩ := account_exposed h False False.elim ht₀
    have hprogress := (account₀.part_there hopen).1.inProgress
    exact (h.spares_run ht₀ ht).swept hV hprogress (.inr hopen) hclosed
  · rw [Writer.isWriting_iff]
    constructor
    · rintro ⟨file, hw⟩
      have hopen := Phase.part?_eq_some_iff.mpr ⟨file, hw, rfl⟩
      obtain ⟨hpart, hsome⟩ := account.part_there hopen
      exact ⟨file.part, hopen, hpart.inProgress, hsome⟩
    · rintro ⟨p, hp, -⟩
      obtain ⟨file, hw, -⟩ := Phase.part?_eq_some_iff.mp hp
      exact ⟨file, hw⟩

lemma Serves.idle_of_ended (h : b.Serves config) {op : Operation}
    (hop : op = .closeAndSign ∨ op = .clear ∨ op = .close)
    (ht : b.reached config (steps ++ [.call op]) = some t) : t.writer.phase = .idle := by
  obtain ⟨pubs, account, -⟩ := account_exposed h False False.elim ht
  rw [Step.calls_concat, h.course_concat] at account
  rw [account.follows.idle_iff]
  rcases hop with rfl | rfl | rfl <;> rfl

lemma Serves.shut_of_closed (h : b.Serves config)
    (ht : b.reached config (steps ++ [.call .close]) = some t) : t.writer.Shut := by
  obtain ⟨pubs, account, -⟩ := account_exposed h False False.elim ht
  rw [Step.calls_concat, h.course_concat] at account
  have hidle := h.idle_of_ended (.inr (.inr rfl)) ht
  exact ⟨account.follows.stopped, by rw [Writer.isWriting, hidle]⟩

/-- **No stray files.** Where files can be removed, in any run, whatever else fails: after every
step the unfinished files in the storage are some that were there at the start, and that of the open
record file, which is there exactly while the writer is writing. So after closing or clearing there
is none that was not there at the start. And once the writer has been stopped, all further calls
come back, and leave the storage and the signer alone. -/
theorem none_stray (h : b.Serves config) (hV : b.view.Removes) (steps : List Step) :
    (∀ t, b.reached config steps = some t → b.Tidy config steps t) ∧
    (∀ op t, op = .closeAndSign ∨ op = .clear ∨ op = .close →
      b.reached config (steps ++ [.call op]) = some t →
      t.writer.isWriting = false ∧ b.Tidy config (steps ++ [.call op]) t ∧
      ∀ p, config.Unfinished p → (b.view.file t.world.storage p).isSome →
        (b.view.file b.storage p).isSome) ∧
    ∀ t more, b.reached config (steps ++ [.call .close]) = some t →
      ∃ u, b.reached config (steps ++ [.call .close] ++ more) = some u ∧
        u.world.storage = t.world.storage ∧ u.world.asked = t.world.asked := by
  refine ⟨fun t ht => h.tidy hV ht, fun op t hop ht => ?_, fun t more ht => ?_⟩
  · have hidle := h.idle_of_ended hop ht
    have htidy := h.tidy hV ht
    refine ⟨by simp [Writer.isWriting, hidle], htidy, fun p hp hsome => ?_⟩
    exact (htidy.known hp hsome).resolve_right (by simp [hidle, Phase.part?])
  · obtain ⟨u, hu, hsame⟩ := Stage.run_shut (h.shut_of_closed ht) more
    exact ⟨u, reached_append_iff.mpr ⟨t, ht, hu⟩, hsame⟩

/-- The small stream on a disk that is full after some bytes, where files cannot be read back and
the signer fails. -/
def full : Outset (Faulty Disk) (FaultyOutput DiskOutput) where
  view := Faulty.viewThrough (Disk.view ["record-streams"]) { Faults.none with
    write := some ⟨.storageFull, "03Z.rcd.part", 100⟩
    openRead := some ⟨.permissionDenied, "01Z.rcd", 0⟩ }
  storage := ⟨sample.storage, { Faults.none with
    write := some ⟨.storageFull, "03Z.rcd.part", 100⟩
    openRead := some ⟨.permissionDenied, "01Z.rcd", 0⟩ }⟩
  pipeline := sample.pipeline
  signer := refused.signer
  meanwhile := []
  coming := []

lemma serves_full : full.Serves .standard :=
  ⟨serves_sample.plain, ⟨⟨serves_sample.sound, nofun⟩, rfl⟩, fun hn =>
    (serves_sample.reaches hn).of_imp id⟩

theorem none_stray_full : ∃ t : Stage (Faulty Disk) (FaultyOutput DiskOutput),
    full.reached .standard shaken = some t ∧ full.Tidy .standard shaken t ∧
      t.writer.isWriting = false ∧
      (∀ p, Config.standard.Unfinished p → t.world.storage.inner.file p = none) ∧
      ∃ u, full.reached .standard (shaken ++ shaken) = some u ∧
        u.world.storage = t.world.storage ∧ u.world.asked = t.world.asked := by
  obtain ⟨t, ht⟩ := exists_shaken serves_full fun _ => holds_sample
  obtain ⟨-, hended, hstopped⟩ := none_stray serves_full
    (Faulty.removes_viewThrough (Disk.neverFails _).remove rfl) shaken.dropLast
  have hshaken : shaken.dropLast ++ [.call .close] = shaken := rfl
  rw [hshaken] at hstopped
  obtain ⟨hclosed, htidy, hgone⟩ := hended .close t (.inr (.inr rfl)) ht
  refine ⟨t, ht, htidy, hclosed, fun p hp => ?_, hstopped t shaken ht⟩
  rw [← Option.not_isSome_iff_eq_none]
  intro hsome
  have hblank : full.view.file full.storage p = none := Disk.file_blank "record-streams" p
  exact nomatch (hgone p hp hsome).symm.trans (congrArg Option.isSome hblank)

end Outset

end SealedStream
