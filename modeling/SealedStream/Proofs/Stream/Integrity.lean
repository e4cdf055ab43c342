import SealedStream.Proofs.Record.RoundTrip
import SealedStream.Proofs.Stream.Export

/-!
No half-written file: what a run has put in place is whole at any time, whatever has failed, and
the writer's word on the last file is true.
-/

namespace SealedStream

variable {σ ω : Type} [Storage σ ω] {V : FileView σ ω} {G : Setting σ ω} {pubs : List Publication}
  {past : List Stretch} {last : Option WrittenFile} {s : Surroundings σ} {b : Publication}

/-- A record file stands at a path as a whole: its bytes decode to it, and it encodes to them. -/
def FileView.Stores (V : FileView σ ω) (s : σ) (path : Path) (file : RecordFile) : Prop :=
  ∃ image, V.file s path = some image ∧ RecordFile.decode image = .ok file ∧
    file.encode = .ok image

/-- What the writer says of a file that it has put in place. -/
structure WrittenFile.Describes (last : WrittenFile) (file : RecordFile) : Prop where
  start : last.start = file.start
  finish : last.finish = file.finish
  block : last.block = file.block
  items : last.items = file.items.length
  metadata : last.metadata = file.metadataHash

/-! ### Publications -/

lemma Publication.describes (b : Publication) : b.written.Describes b.file :=
  ⟨rfl, rfl, rfl, rfl, rfl⟩

lemma Publication.Valid.header {p : Pipeline} {call : ℕ} (h : b.Valid G p call) :
    b.file.header = G.config.kind.header := by
  rw [h.file, StreamKind.header_file G.plain.kind]

lemma Publication.Valid.items_ne_nil {p : Pipeline} {call : ℕ} (h : b.Valid G p call) :
    b.file.items ≠ [] := by
  rw [h.file]
  simpa [StreamKind.file, Stretch.items] using h.nonempty

lemma Account.stretch_mem {c : Course} {w : Writer ω} (h : Account G pubs c w s) (hb : b ∈ pubs) :
    b.stretch ∈ c.stretches := by
  have hpast := h.records.sublist.subset (List.mem_map_of_mem (f := Publication.stretch) hb)
  exact List.mem_append_left _ (List.mem_filter.mp hpast).1

lemma Records.content (h : Records G pubs past last s) (hb : b ∈ pubs) :
    G.view.file s.storage b.path = some b.content := by
  obtain ⟨call, hvalid⟩ := h.published.valid hb
  have hfile := h.files (G.not_inProgress (r := .record) hvalid.names (Or.inl rfl))
  exact hfile.trans (h.published.shelf_path h.nodup hb)

/-- **Each publication stands in the storage** as a whole. -/
lemma Records.stores (h : Records G pubs past last s) (hb : b ∈ pubs) :
    G.view.Stores s.storage b.path b.file := by
  obtain ⟨call, hvalid⟩ := h.published.valid hb
  exact ⟨b.content, h.content hb, RecordFile.decode_of_encode hvalid.image, hvalid.image⟩

lemma Records.untouched (h : Records G pubs past last s) {path : Path} (hn : G.config.Names path)
    (hnot : path ∉ pubs.map Publication.path) : G.view.file s.storage path = G.files path := by
  obtain ⟨time, htime⟩ := hn
  have hfile := h.files (G.not_inProgress (r := .record) ⟨time, htime⟩ (Or.inl rfl))
  refine hfile.trans (h.published.shelf_of_time htime fun hmem => hnot ?_)
  obtain ⟨b, hb, rfl⟩ := List.mem_map.mp hmem
  obtain ⟨call, hvalid⟩ := h.published.valid hb
  have hpath := hvalid.name.symm.trans htime
  cases hpath
  exact List.mem_map_of_mem hb

/-! ### Runs -/

/-- **A reader never meets a half-written record file.** After every call of any run, whatever has
failed, each file put in place is whole, carries the header of its kind and holds an item; no other
record path has changed; and the last file is as the writer describes it. -/
theorem Outset.placed_whole {o : Outset σ ω} {config : Config} {steps : List Step} {t : Stage σ ω}
    (h : o.Serves config) (ht : o.reached config steps = some t) :
    (∀ path ∈ t.world.placed, ∃ file, o.view.Stores t.world.storage path file ∧
      file.header = config.kind.header ∧ file.items ≠ []) ∧
    (∀ path, config.Names path → path ∉ t.world.placed →
      o.view.file t.world.storage path = o.view.file o.storage path) ∧
    t.world.placed.getLast? = t.writer.lastWritten.map WrittenFile.record ∧
    ∀ last, t.writer.lastWritten = some last → ∃ file,
      o.view.Stores t.world.storage last.record file ∧ last.Describes file := by
  obtain ⟨pubs, account, -⟩ := Outset.account_exposed h False False.elim ht
  have hrecords := account.records
  refine ⟨fun path hpath => ?_, fun path hn hnot => ?_, ?_, fun last hlast => ?_⟩
  · rw [hrecords.placed] at hpath
    obtain ⟨b, hb, rfl⟩ := List.mem_map.mp hpath
    obtain ⟨call, hvalid⟩ := hrecords.published.valid hb
    exact ⟨b.file, hrecords.stores hb, hvalid.header, hvalid.items_ne_nil⟩
  · rw [hrecords.placed] at hnot
    exact hrecords.untouched hn hnot
  · rw [hrecords.placed, hrecords.last, List.getLast?_map, Option.map_map]
    rfl
  · rw [hrecords.last, Option.map_eq_some_iff] at hlast
    obtain ⟨b, hb, rfl⟩ := hlast
    exact ⟨b.file, hrecords.stores (List.mem_of_getLast? hb), b.describes⟩

/-- On a disk that is full after some bytes. -/
theorem Outset.placed_whole_full : ∃ t : Stage (Faulty Disk) (FaultyOutput DiskOutput),
    (sample.withFaults { Faults.none with write := some ⟨.storageFull, ".rcd.part", 100⟩ }).reached
        .standard shaken = some t ∧
      ∀ path ∈ t.world.placed, ∃ file,
        (Faulty.view (Disk.view ["record-streams"])).Stores t.world.storage path file ∧
          file.header = [6, 0, 27, 0] ∧ file.items ≠ [] := by
  have h : (sample.withFaults
      { Faults.none with write := some ⟨.storageFull, ".rcd.part", 100⟩ }).Serves .standard :=
    serves_sample.withFaults nofun
  obtain ⟨t, ht⟩ := exists_shaken h fun _ => holds_sample
  exact ⟨t, ht, (placed_whole h ht).1⟩

end SealedStream
