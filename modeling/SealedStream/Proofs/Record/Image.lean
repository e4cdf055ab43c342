import Mathlib.Tactic.Common
import SealedStream.Config.Basic
import SealedStream.Record.File

/-!
The images of sections: which have one, and how those of neighbours join.
-/

namespace SealedStream

lemma exists_ok_of_isOk {ε α : Type} {x : Except ε α} (h : x.isOk = true) : ∃ a, x = .ok a := by
  cases x with
  | error e => cases h
  | ok a => exact ⟨a, rfl⟩

lemma Field.join_append_ok {xs ys : List Field} {a b : Bytes} (hx : join xs = .ok a)
    (hy : join ys = .ok b) : join (xs ++ ys) = .ok (a ++ b) := by
  rw [join_append, hx, hy]
  rfl

lemma Field.join_append_eq_ok {xs ys : List Field} {bs : Bytes} (h : join (xs ++ ys) = .ok bs) :
    ∃ a b, join xs = .ok a ∧ join ys = .ok b ∧ bs = a ++ b := by
  rw [join_append] at h
  cases hx : join xs with
  | error e => rw [hx] at h; cases h
  | ok a =>
    cases hy : join ys with
    | error e => rw [hx, hy] at h; cases h
    | ok b =>
      rw [hx, hy] at h
      cases h
      exact ⟨a, b, rfl, rfl, rfl⟩

lemma Field.join_isOk_iff {xs : List Field} :
    (join xs).isOk = true ↔ ∀ x ∈ xs, x.isOk = true := by
  induction xs with
  | nil => simp [join, Except.isOk, Except.toBool]
  | cons x xs ih =>
    cases x with
    | error e => simp [join, Except.isOk, Except.toBool]
    | ok bs =>
      rw [List.forall_mem_cons, ← ih, join]
      cases join xs <;> simp [Except.map, Except.isOk, Except.toBool]

lemma Field.length_isOk_iff {bs : Bytes} : (length bs).isOk = true ↔ bs.length ≤ maxPayload := by
  unfold length
  split <;> simp_all [int32, Except.isOk, Except.toBool]

lemma Field.payload_isOk_iff {bs : Bytes} :
    (∀ x ∈ payload bs, x.isOk = true) ↔ bs.length ≤ maxPayload := by
  unfold payload
  split <;> simp_all [int32, raw, Except.isOk, Except.toBool]

/-- A payload whose length can be written. -/
def Item.Fits (i : Item) : Prop :=
  i.transaction.length ≤ Field.maxPayload ∧ i.record.length ≤ Field.maxPayload

instance (i : Item) : Decidable i.Fits := inferInstanceAs (Decidable (_ ∧ _))

/-- An item whose first payload has one byte too many. -/
def Item.oversize : Item := .of (List.replicate (Field.maxPayload + 1) 0) []

lemma Item.not_fits_oversize : ¬Item.oversize.Fits := by
  simp [Item.Fits, Item.oversize]

namespace Section

def image (sections : List Section) : Except Failure Bytes :=
  Field.join (sections.flatMap Section.fields)

lemma image_append {xs ys : List Section} {a b : Bytes} (hx : image xs = .ok a)
    (hy : image ys = .ok b) : image (xs ++ ys) = .ok (a ++ b) := by
  rw [image, List.flatMap_append]
  exact Field.join_append_ok hx hy

lemma fields_isOk_iff {s : Section} :
    (∀ x ∈ s.fields, x.isOk = true) ↔ ∀ i, s = .item i → i.Fits := by
  have hok : ∀ bs : Bytes, (Except.ok bs : Field).isOk = true := fun _ => rfl
  cases s with
  | item i =>
    simp only [fields_item, List.forall_mem_cons, List.forall_mem_append, Field.payload_isOk_iff,
      Field.raw, hok, true_and, Item.Fits, Section.item.injEq, forall_eq']
  | _ => simp [fields, Field.hash, Field.raw, Field.int32, Field.int64, hok]

lemma image_isOk_iff {sections : List Section} :
    (image sections).isOk = true ↔ ∀ i, .item i ∈ sections → i.Fits := by
  rw [image, Field.join_isOk_iff]
  constructor
  · intro h i hi
    exact fields_isOk_iff.mp (fun x hx => h x (List.mem_flatMap.mpr ⟨.item i, hi, hx⟩)) i rfl
  · intro h x hx
    obtain ⟨s, hs, hx⟩ := List.mem_flatMap.mp hx
    refine fields_isOk_iff.mpr ?_ x hx
    rintro i rfl
    exact h i hs

lemma image_item {i : Item} (h : i.Fits) : (image [.item i]).isOk := by
  rw [image_isOk_iff]
  simpa using h

lemma fits_of_image {sections : List Section} {bs : Bytes} (h : image sections = .ok bs) {i : Item}
    (hi : .item i ∈ sections) : i.Fits :=
  image_isOk_iff.mp (by rw [h]; rfl) i hi

end Section

lemma RecordFile.encode_eq (f : RecordFile) : f.encode = Section.image f.sections := rfl

/-! ### The files of one kind of stream -/

namespace StreamKind

def file (k : StreamKind) (start : Hash) (items : List Item) (finish : Hash) (block : Int64) :
    RecordFile :=
  ⟨k.version, k.protocol, start, items, finish, block⟩

variable {k : StreamKind}

lemma header_eq (hk : k.validate = .ok ()) :
    [k.version, k.protocol.major, k.protocol.minor, k.protocol.patch] = k.header := by
  have hlen : k.header.length = 4 := by
    by_contra h
    simp [validate, flaw?, h] at hk
  match hh : k.header, hlen with
  | [a, b, c, d], _ => simp [version, protocol, hh]

lemma header_file (hk : k.validate = .ok ()) (start : Hash) (items : List Item) (finish : Hash)
    (block : Int64) : (k.file start items finish block).header = k.header :=
  header_eq hk

lemma encode_file (hk : k.validate = .ok ()) {start finish : Hash} {items : List Item}
    {block : Int64} {a b : Bytes}
    (ha : Section.image (.header k.header :: .start start :: items.map .item) = .ok a)
    (hb : Section.image [.finish finish, .block block] = .ok b) :
    (k.file start items finish block).encode = .ok (a ++ b) := by
  have h := Section.image_append ha hb
  rw [RecordFile.encode_eq, RecordFile.sections, header_file hk]
  simpa [file] using h

end StreamKind

end SealedStream
