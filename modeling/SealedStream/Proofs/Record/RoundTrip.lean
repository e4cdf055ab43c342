import Mathlib.Tactic.Common
import SealedStream.Proofs.Wire.Reading

/-!
A record file is read back from its image, and no other byte string is read as that file.
-/

namespace SealedStream.RecordFile

open Reader

lemma reads_entry_item (i : Item) : Reads readEntry (Section.item i).fields (.item i) := by
  refine reads_position fun offset => ?_
  refine (reads_byte Section.itemTag).bind (y := Field.payload i.transaction ++ _) ?_
  rw [if_pos rfl]
  exact (reads_payload i.transaction).bind ((reads_payload i.record).then_pure rfl)

lemma reads_entry_finish : Reads readEntry [Field.raw [Section.endTag]] .finish := by
  refine reads_position fun offset => ?_
  exact (reads_byte Section.endTag).then_pure rfl

lemma readItems_eq : (readItems : Reader (List Item)) = readEntry >>= fun
    | .finish => pure []
    | .item i => readItems >>= fun items => pure (i :: items) := by
  funext c
  rw [readItems]
  show _ = (readEntry c >>= fun p => _)
  split <;> rename_i hentry
  · rw [hentry]
    rfl
  · rw [hentry]
    rfl
  · rename_i i d
    rw [hentry]
    show _ = (readItems d >>= fun p => _)
    cases readItems d <;> rfl

lemma reads_items (items : List Item) :
    Reads readItems
      ((items.map Section.item).flatMap Section.fields ++ [Field.raw [Section.endTag]]) items := by
  induction items with
  | nil =>
    rw [readItems_eq]
    exact reads_entry_finish.then_pure rfl
  | cons i items ih =>
    rw [readItems_eq, List.map_cons, List.flatMap_cons, List.append_assoc]
    exact (reads_entry_item i).bind (ih.then_pure rfl)

lemma join_header (a b c d : Int32) (fields : List Field) :
    Field.join (Field.raw (Section.headerBytes [a, b, c, d]) :: fields) =
      Field.join (Field.int32 a :: Field.int32 b :: Field.int32 c :: Field.int32 d :: fields) := by
  simp only [Field.raw, Field.int32, Field.join, Section.headerBytes, List.flatMap_cons,
    List.flatMap_nil, List.append_nil]
  cases Field.join fields <;> simp [Except.map]

def fields (f : RecordFile) : List Field :=
  Field.int32 f.version :: Field.int32 f.protocol.major :: Field.int32 f.protocol.minor ::
    Field.int32 f.protocol.patch :: (Field.hash f.start ++
      ((f.items.map Section.item).flatMap Section.fields ++ [Field.raw [Section.endTag]] ++
        (Field.hash f.finish ++ [Field.int64 f.block])))

lemma encode_eq_join (f : RecordFile) : f.encode = Field.join f.fields := by
  rw [encode, fields, ← join_header]
  simp [sections, header, Section.fields, List.flatMap_append]

lemma reads_file (f : RecordFile) : Reads reader f.fields f := by
  refine (reads_int32 _).bind (x := [_]) ?_
  refine (reads_int32 _).bind (x := [_]) ?_
  refine (reads_int32 _).bind (x := [_]) ?_
  refine (reads_int32 _).bind (x := [_]) ?_
  refine (reads_hash f.start).bind ?_
  refine (reads_items f.items).bind ?_
  refine (reads_hash f.finish).bind ?_
  exact (reads_int64 f.block).then_pure rfl

/-- **What was encoded decodes** to the file it was encoded from. -/
theorem decode_of_encode {f : RecordFile} {image : Bytes} (h : f.encode = .ok image) :
    decode image = .ok f := by
  rw [encode_eq_join] at h
  exact run_eq_ok (reads_file f) h

/-! ### What decodes -/

def Entry.fields : Entry → List Field
  | .item i => (Section.item i).fields
  | .finish => [Field.raw [Section.endTag]]

variable {c c' : Cursor}

lemma spans_of_entry {e : Entry} (h : readEntry c = .ok (e, c')) : c.Spans c' e.fields := by
  obtain ⟨offset, d₁, hoffset, h⟩ := bind_eq_ok.mp h
  cases hoffset
  obtain ⟨tag, d₂, htag, h⟩ := bind_eq_ok.mp h
  have hspan := spans_of_byte htag
  split at h
  · rename_i hitem
    obtain ⟨transaction, d₃, htransaction, h⟩ := bind_eq_ok.mp h
    obtain ⟨record, d₄, hrecord, h⟩ := bind_eq_ok.mp h
    obtain ⟨rfl, rfl⟩ := pure_eq_ok.mp h
    rw [hitem] at hspan
    exact hspan.trans ((spans_of_payload htransaction).trans (spans_of_payload hrecord))
  · split at h
    · rename_i hend
      obtain ⟨rfl, rfl⟩ := pure_eq_ok.mp h
      rwa [hend] at hspan
    · cases h

lemma readItems_eq_ok {items : List Item} (h : readItems c = .ok (items, c')) :
    (items = [] ∧ readEntry c = .ok (.finish, c')) ∨
      ∃ i rest d, items = i :: rest ∧ readEntry c = .ok (.item i, d) ∧
        readItems d = .ok (rest, c') := by
  rw [readItems_eq] at h
  obtain ⟨e, d, he, h⟩ := bind_eq_ok.mp h
  cases e with
  | finish =>
    obtain ⟨rfl, rfl⟩ := pure_eq_ok.mp h
    exact Or.inl ⟨rfl, he⟩
  | item i =>
    obtain ⟨rest, d', hrest, h⟩ := bind_eq_ok.mp h
    obtain ⟨rfl, rfl⟩ := pure_eq_ok.mp h
    exact Or.inr ⟨i, rest, d, rfl, he, hrest⟩

lemma spans_of_items {items : List Item} (h : readItems c = .ok (items, c')) :
    c.Spans c' ((items.map Section.item).flatMap Section.fields ++
      [Field.raw [Section.endTag]]) := by
  induction items generalizing c with
  | nil =>
    rcases readItems_eq_ok h with ⟨-, hend⟩ | ⟨_, _, _, ⟨⟩, _⟩
    exact spans_of_entry hend
  | cons i items ih =>
    rcases readItems_eq_ok h with ⟨⟨⟩, _⟩ | ⟨_, _, d, ⟨⟩, hitem, hrest⟩
    rw [List.map_cons, List.flatMap_cons, List.append_assoc]
    exact (spans_of_entry hitem).trans (ih hrest)

lemma spans_of_reader {f : RecordFile} (h : reader c = .ok (f, c')) : c.Spans c' f.fields := by
  obtain ⟨version, d₁, hversion, h⟩ := bind_eq_ok.mp h
  obtain ⟨major, d₂, hmajor, h⟩ := bind_eq_ok.mp h
  obtain ⟨minor, d₃, hminor, h⟩ := bind_eq_ok.mp h
  obtain ⟨patch, d₄, hpatch, h⟩ := bind_eq_ok.mp h
  obtain ⟨start, d₅, hstart, h⟩ := bind_eq_ok.mp h
  obtain ⟨items, d₆, hitems, h⟩ := bind_eq_ok.mp h
  obtain ⟨finish, d₇, hfinish, h⟩ := bind_eq_ok.mp h
  obtain ⟨block, d₈, hblock, h⟩ := bind_eq_ok.mp h
  obtain ⟨rfl, rfl⟩ := pure_eq_ok.mp h
  have hback := (spans_of_hash hfinish).trans (spans_of_int64 hblock)
  have hbody := (spans_of_hash hstart).trans ((spans_of_items hitems).trans hback)
  exact (spans_of_int32 hversion).trans ((spans_of_int32 hmajor).trans
    ((spans_of_int32 hminor).trans ((spans_of_int32 hpatch).trans hbody)))

/-- **What decodes was encoded**: the image is that of the file. -/
theorem encode_of_decode {f : RecordFile} {image : Bytes} (h : decode image = .ok f) :
    f.encode = .ok image := by
  rw [encode_eq_join]
  exact join_of_run spans_of_reader h

lemma encode_isOk_iff (f : RecordFile) : f.encode.isOk = true ↔ ∀ i ∈ f.items, i.Fits := by
  rw [encode_eq, Section.image_isOk_iff]
  simp [sections]

/-- **Decoding is the exact inverse of encoding**: a byte string decodes to a file if and only if
the file encodes to it. A file encodes if and only if each of its payloads can be written. -/
theorem decode_eq_ok_iff (image : Bytes) (f : RecordFile) :
    (decode image = .ok f ↔ f.encode = .ok image) ∧
      (f.encode.isOk = true ↔ ∀ i ∈ f.items, i.Fits) :=
  ⟨⟨encode_of_decode, decode_of_encode⟩, f.encode_isOk_iff⟩

end SealedStream.RecordFile
