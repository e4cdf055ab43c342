import Mathlib.Tactic.Common
import SealedStream.Proofs.Record.Image
import SealedStream.Proofs.Transfer.Filling
import SealedStream.Transfer.Hashing

/-!
Sections that are written one by one to a sink with little room.

Calls may go on after one that has failed: the sink is full by then, so that nothing can be lost
between two sections that are taken.
-/

namespace SealedStream

/-- Writes sections by a call each, also after a call that has failed. -/
def Section.writeEvery {τ : Type} [Sink τ] :
    List Section → τ → List (Except Failure Unit) × τ
  | [], t => ([], t)
  | s :: rest, t => ((s.write t).1 :: (writeEvery rest (s.write t).2).1,
      (writeEvery rest (s.write t).2).2)

namespace Vessel

variable {τ : Type} [Sink τ] {chunk limit : ℕ} {V : Vessel τ chunk limit} {t : τ}
  {sections : List Section} {images : List Bytes}

/-- Each section has its image. -/
abbrev Imaged (sections : List Section) (images : List Bytes) : Prop :=
  sections.map (fun s => Section.image [s]) = images.map .ok

lemma exists_imaged (hfit : ∀ i, .item i ∈ sections → i.Fits) :
    ∃ images, Imaged sections images := by
  induction sections with
  | nil => exact ⟨[], rfl⟩
  | cons s rest ih =>
    obtain ⟨images, himages⟩ := ih fun i hi => hfit i (List.mem_cons_of_mem _ hi)
    have hok : (Section.image [s]).isOk = true :=
      Section.image_isOk_iff.mpr fun i hi =>
        hfit i (List.mem_cons.mpr (.inl (List.mem_singleton.mp hi)))
    obtain ⟨bs, hs⟩ := exists_ok_of_isOk hok
    exact ⟨bs :: images, by rw [Imaged, List.map_cons, himages, hs, List.map_cons]⟩

lemma image_of_imaged (h : Imaged sections images) :
    Section.image sections = .ok images.flatten := by
  induction sections generalizing images with
  | nil =>
    obtain rfl : images = [] := by simpa [eq_comm] using h
    rfl
  | cons s rest ih =>
    cases images with
    | nil => cases h
    | cons bs images =>
      obtain ⟨hs, hrest⟩ := List.cons_eq_cons.mp h
      exact @Section.image_append [s] _ _ _ hs (ih hrest)

/-- What comes of writing what has these images, a call each: as much as fits is taken, and a call
fails if its image and those before it do not fit. -/
structure PoursEach (V : Vessel τ chunk limit) (t : τ) (images : List Bytes)
    (r : List (Except Failure Unit) × τ) : Prop where
  sound : V.Sound r.2
  taken : V.taken r.2 = V.taken t ++ images.flatten.take (limit - (V.taken t).length)
  length : r.1.length = images.length
  fails : ∀ {n : ℕ} {a bs}, r.1[n]? = some a → images[n]? = some bs →
    (a.isOk = false ↔
      bs ≠ [] ∧ limit < (V.taken t).length + (images.take (n + 1)).flatten.length)

lemma pours_every (h : Imaged sections images) (ht : V.Sound t) :
    V.PoursEach t images (Section.writeEvery sections t) := by
  induction sections generalizing images t with
  | nil =>
    obtain rfl : images = [] := by simpa [eq_comm] using h
    exact ⟨ht, by simp [Section.writeEvery], rfl, by simp⟩
  | cons s rest ih =>
    cases images with
    | nil => cases h
    | cons bs images =>
      obtain ⟨hs, hrest⟩ := List.cons_eq_cons.mp h
      have hfirst : V.Pours t bs (s.write t) :=
        pours_fields (by simpa [Section.image] using hs) ht
      have hthen := ih hrest hfirst.sound
      have hlen : (V.taken (s.write t).2).length =
          (V.taken t).length + min (limit - (V.taken t).length) bs.length := by
        rw [hfirst.taken, List.length_append, List.length_take]
      refine ⟨hthen.sound, ?_, by simp [Section.writeEvery, hthen.length], ?_⟩
      · rw [Section.writeEvery, hthen.taken, hlen, hfirst.taken, List.append_assoc,
          List.flatten_cons, List.take_append]
        congr 3
        omega
      · rintro (_ | n) a x ha hx
        · cases ha
          cases hx
          simpa using hfirst.fails
        · -- where the first section does not fit the sink is full, and any byte is too much
          rw [hthen.fails ha hx, hlen]
          refine and_congr_right fun hne => ?_
          have hmem : x ∈ images.take (n + 1) :=
            List.mem_of_getElem? (by rwa [List.getElem?_take_of_succ])
          have hpos := List.length_pos_iff.mpr hne
          have hle := (List.sublist_flatten_of_mem hmem).length_le
          rw [List.take_succ_cons, List.flatten_cons, List.length_append]
          omega

lemma PoursEach.all_ok {r : List (Except Failure Unit) × τ} (h : V.PoursEach t images r)
    (hfit : (V.taken t).length + images.flatten.length ≤ limit) : ∀ a ∈ r.1, a = .ok () := by
  intro a ha
  obtain ⟨n, hn, hget⟩ := List.mem_iff_getElem.mp ha
  have hbs := List.getElem?_eq_getElem (h.length ▸ hn)
  have hle : (images.take (n + 1)).flatten.length ≤ images.flatten.length := by
    conv_rhs => rw [← List.take_append_drop (n + 1) images, List.flatten_append]
    rw [List.length_append]
    exact Nat.le_add_right _ _
  cases a with
  | ok _ => rfl
  | error e =>
    obtain ⟨-, hlong⟩ := (h.fails (List.getElem?_eq_some_iff.mpr ⟨hn, hget⟩) hbs).mp rfl
    omega

end Vessel

/-! ### The metadata hash beside it -/

namespace Hashing

lemma writeAll_discard {bs : Bytes} (h : bs ≠ []) (t : Hashing Discard) :
    Sink.writeAll bs t = (.ok (), { t with hasher := t.hasher.update bs }) := by
  cases bs with
  | nil => exact (h rfl).elim
  | cons b bs =>
    have haccept : Sink.accept (b :: bs) t = (.ok (bs.length + 1),
        { t with hasher := t.hasher.update ((b :: bs).take (bs.length + 1)) }) := rfl
    show Sink.writeWithin (bs.length + 1) (b :: bs) t = _
    rw [Sink.writeWithin, haccept]
    simp [Sink.writeWithin]

lemma writeEach_discard {pieces : List Bytes} (h : ∀ bs ∈ pieces, bs ≠ []) (t : Hashing Discard) :
    Sink.writeEach pieces t =
      (.ok (), { t with hasher := pieces.foldl Sha2.Hasher.update t.hasher }) := by
  induction pieces generalizing t with
  | nil => rfl
  | cons bs rest ih =>
    rw [List.forall_mem_cons] at h
    rw [Sink.writeEach, writeAll_discard h.1]
    exact ih h.2 _

lemma hash_pieces (pieces : List Bytes) :
    Hash.ofHasher (pieces.foldl Sha2.Hasher.update .new384) = Hash.digest pieces.flatten := by
  apply Hash.ext
  simp [Hash.ofHasher, Hash.digest, Sha2.Hasher.digest384, Sha2.Hasher.new384, Sha2.sha384,
    Sha2.Hasher.finish_foldl_update]

end Hashing

def RecordFile.marks (f : RecordFile) : List Section :=
  [.header f.header, .start f.start, .finish f.finish, .block f.block]

lemma RecordFile.metadata_fed (f : RecordFile) :
    ∃ t, Sink.writeEach (f.marks.map Section.metadata) Hashing.digestOnly = (.ok (), t) ∧
      t.hash = f.metadataHash := by
  have hne : ∀ bs ∈ f.marks.map Section.metadata, bs ≠ [] := by
    have hhash (h : Hash) : h.bytes ≠ [] := List.ne_nil_of_length_pos (by rw [h.size]; decide)
    have hblock : Bytes.ofInt64 f.block ≠ [] := List.ne_nil_of_length_pos (by simp)
    have hheader : Section.headerBytes f.header ≠ [] :=
      List.ne_nil_of_length_pos (by simp [Section.headerBytes, header])
    simp [marks, Section.metadata, hhash, hblock, hheader]
  refine ⟨_, Hashing.writeEach_discard hne _, ?_⟩
  show Hash.ofHasher _ = _
  rw [Hashing.digestOnly, Hashing.new, Hashing.hash_pieces, metadataHash, SealedStream.metadataHash]
  simp [marks, Section.metadata, header]

namespace Section

open Vessel

variable {τ : Type} [Sink τ] {chunk limit : ℕ} {V : Vessel τ chunk limit} {t : τ}
  {sections : List Section}

/-- **Sections are written in full as far as there is room**, each by a call of its own, however
the sink cuts what it is offered. What is taken is the front of all images, and a call fails only
where it and those before it do not fit. With room for all of it, the sections of a file are its
image; beside them the digest becomes its metadata hash. -/
theorem written_to_vessel (ht : V.Sound t) (hfit : ∀ i, .item i ∈ sections → i.Fits) :
    ∃ images, Imaged sections images ∧ V.PoursEach t images (writeEvery sections t) ∧
      ∀ f : RecordFile, sections = f.sections →
        f.encode = .ok images.flatten ∧
        ((V.taken t).length + images.flatten.length ≤ limit →
          V.taken (writeEvery sections t).2 = V.taken t ++ images.flatten ∧
          ∀ a ∈ (writeEvery sections t).1, a = .ok ()) ∧
        ∃ d, Sink.writeEach (f.marks.map Section.metadata) Hashing.digestOnly = (.ok (), d) ∧
          d.hash = f.metadataHash := by
  obtain ⟨images, himages⟩ := exists_imaged hfit
  have h := pours_every himages ht
  refine ⟨images, himages, h, ?_⟩
  rintro f rfl
  refine ⟨image_of_imaged himages, fun hlimit => ⟨?_, h.all_ok hlimit⟩, f.metadata_fed⟩
  rw [h.taken, List.take_of_length_le (by omega)]

def small : RecordFile := ⟨6, ⟨0, 49, 0⟩, Hash.zero, [.of [1] [2, 3]], Hash.zero, 5⟩

/-- A sink that takes byte by byte, and is full within the end hash of the small file. -/
def narrow : Limited := ⟨some 1, some 100, #[]⟩

theorem written_to_vessel_narrow :
    (Limited.vessel (Nat.le_refl 1) 100).Sound narrow ∧ (∀ i, .item i ∈ small.sections → i.Fits) ∧
    ∃ images, Imaged small.sections images ∧
      (Limited.vessel (Nat.le_refl 1) 100).PoursEach narrow images
        (writeEvery small.sections narrow) ∧
      ∀ f : RecordFile, small.sections = f.sections →
        f.encode = .ok images.flatten ∧
        (narrow.taken.length + images.flatten.length ≤ 100 →
          (writeEvery small.sections narrow).2.taken = narrow.taken ++ images.flatten ∧
          ∀ a ∈ (writeEvery small.sections narrow).1, a = .ok ()) ∧
        ∃ d, Sink.writeEach (f.marks.map Section.metadata) Hashing.digestOnly = (.ok (), d) ∧
          d.hash = f.metadataHash := by
  have hnarrow : (Limited.vessel (Nat.le_refl 1) 100).Sound narrow := ⟨rfl, rfl⟩
  have hfit : ∀ i, .item i ∈ small.sections → i.Fits := by
    simp [small, RecordFile.sections, Item.Fits, Field.maxPayload]
  exact ⟨hnarrow, hfit, written_to_vessel hnarrow hfit⟩

end Section

end SealedStream
