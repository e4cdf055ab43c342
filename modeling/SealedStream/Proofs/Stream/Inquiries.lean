import Mathlib.Data.List.Nodup
import SealedStream.Proofs.Stream.Integrity

/-!
What the signer is asked in the course of a run: about the files that have been put in place, one
after the other, and about nothing else.
-/

namespace SealedStream

variable {σ ω : Type} [Storage σ ω] {V : FileView σ ω} {G : Setting σ ω} {p : Pipeline}
  {pubs : List Publication} {b : Publication}

/-- A record file with the bytes that it is stored as. -/
structure Shelved where
  path : Path
  content : Bytes
  file : RecordFile

/-- The bytes stand at the path, and decode to the file. -/
structure Shelved.In (V : FileView σ ω) (s : σ) (x : Shelved) : Prop where
  there : V.file s x.path = some x.content
  decodes : RecordFile.decode x.content = .ok x.file

namespace Signer

variable (signer : Signer)

/-- What there is to ask about a record file, from a call on: to sign the digest of its bytes, and
the metadata hash of what they decode to if that has been signed. -/
def questions (call : ℕ) (x : Shelved) : List Bytes :=
  (Hash.digest x.content).bytes ::
    match signer.sign call (Hash.digest x.content).bytes with
    | .ok _ => [x.file.metadataHash.bytes]
    | .error _ => []

/-- What there is to ask about record files one after the other, of which some could not be read
back. -/
def inquiries (unread : List Path) : (call : ℕ) → List Shelved → List Bytes
  | _, [] => []
  | call, x :: xs =>
    if x.path ∈ unread then inquiries unread call xs
    else
      let asked := signer.questions call x
      asked ++ inquiries unread (call + asked.length) xs

variable {signer} {unread : List Path}

lemma inquiries_append (call : ℕ) (xs ys : List Shelved) :
    signer.inquiries unread call (xs ++ ys) = signer.inquiries unread call xs ++
      signer.inquiries unread (call + (signer.inquiries unread call xs).length) ys := by
  induction xs generalizing call with
  | nil => rfl
  | cons x xs ih =>
    rw [List.cons_append, inquiries, inquiries]
    split
    · exact ih call
    · simp only
      rw [ih, List.append_assoc, List.length_append, Nat.add_assoc]

end Signer

lemma Inquiry.messages_eq {signer : Signer} {call : ℕ} {x : Shelved} {messages : List Bytes}
    (h : Inquiry V signer call (Hash.digest x.content) x.file.metadataHash messages) :
    messages = [] ∨ messages = signer.questions call x := by
  cases h with
  | unread fault => exact .inl rfl
  | refused answer => exact .inr (by rw [Signer.questions, answer])
  | granted answer => exact .inr (by rw [Signer.questions, answer])

namespace Publication

def shelved (b : Publication) : Shelved := ⟨b.path, b.content, b.file⟩

lemma map_path_shelved (pubs : List Publication) :
    (pubs.map shelved).map Shelved.path = pubs.map path := by
  rw [List.map_map]
  rfl

lemma unread_sublist (pubs : List Publication) : (pubs.flatMap unread).Sublist (pubs.map path) := by
  induction pubs with
  | nil => exact .slnil
  | cons b pubs ih =>
    rw [List.flatMap_cons, List.map_cons, unread]
    split
    · exact ih.cons_cons _
    · exact ih.cons _

lemma mem_unread_iff (hn : (pubs.map path).Nodup) (hb : b ∈ pubs) :
    b.path ∈ pubs.flatMap unread ↔ b.messages = [] := by
  rw [List.mem_flatMap]
  constructor
  · rintro ⟨c, hc, hmem⟩
    unfold unread at hmem
    split at hmem
    · rw [List.inj_on_of_nodup_map hn hb hc (List.mem_singleton.mp hmem)]
      assumption
    · cases hmem
  · intro hnone
    exact ⟨b, hb, by simp [unread, hnone]⟩

end Publication

/-- **The messages of publications** are what there is to ask about their files. -/
lemma Published.inquiries_eq (h : Published G p pubs) {unread : List Path}
    (hunread : ∀ b ∈ pubs, b.path ∈ unread ↔ b.messages = []) :
    G.signer.inquiries unread 0 (pubs.map Publication.shelved) =
      pubs.flatMap Publication.messages := by
  induction h with
  | nil => rfl
  | @snoc pubs b before valid ih =>
    have hlast := hunread b (List.mem_append_right _ (List.mem_singleton.mpr rfl))
    have hasked : (pubs.flatMap Publication.messages).length = G.asked pubs := rfl
    rw [List.map_append, Signer.inquiries_append, List.flatMap_append, List.flatMap_singleton,
      ih fun x hx => hunread x (List.mem_append_left _ hx), Nat.zero_add, hasked]
    congr 1
    show G.signer.inquiries unread (G.asked pubs) [b.shelved] = b.messages
    rw [Signer.inquiries]
    split
    · exact (hlast.mp ‹_›).symm
    · rename_i hread
      rcases valid.signed.inquiry.messages_eq (x := b.shelved) with hnone | hmessages
      · exact (hread (hlast.mpr hnone)).elim
      · simp only [Signer.inquiries, List.append_nil]
        exact hmessages.symm

lemma Published.unread_eq_nil (h : Published G p pubs) (hV : G.view.NeverFails) :
    pubs.flatMap Publication.unread = [] := by
  refine List.flatMap_eq_nil_iff.mpr fun b hb => ?_
  obtain ⟨call, hvalid⟩ := h.valid hb
  refine if_neg fun hnone => ?_
  have hinquiry := hvalid.signed.inquiry
  rw [hnone] at hinquiry
  cases hinquiry with
  | unread fault => exact fault hV

lemma Records.shelved {past : List Stretch} {last : Option WrittenFile} {s : Surroundings σ}
    (h : Records G pubs past last s) (hb : b ∈ pubs) : b.shelved.In G.view s.storage := by
  obtain ⟨call, hvalid⟩ := h.published.valid hb
  exact ⟨h.content hb, RecordFile.decode_of_encode hvalid.image⟩

namespace Outset

/-- **Two signatures for each completed file.** After every step of any run, whatever has failed,
what the signer has been asked is, for the record files put in place one after the other: nothing
for one that could not be read back; else the digest of its bytes as they are stored, and behind it,
if that was signed, the metadata hash of the file that they decode to. No file is put in place
twice, and where the storage does not fail each of them can be read back. -/
theorem asked_of_placed {o : Outset σ ω} {config : Config} {steps : List Step} {t : Stage σ ω}
    (h : o.Serves config) (ht : o.reached config steps = some t) :
    ∃ files : List Shelved, files.map Shelved.path = t.world.placed ∧
      (∀ x ∈ files, x.In o.view t.world.storage) ∧
      t.world.asked = o.signer.inquiries t.world.unread 0 files ∧
      t.world.placed.Nodup ∧ t.world.unread.Sublist t.world.placed ∧
      (o.view.NeverFails → t.world.unread = []) := by
  obtain ⟨pubs, account, -⟩ := account_exposed h False False.elim ht
  have hrecords := account.records
  have hnodup : (pubs.map Publication.path).Nodup := hrecords.nodup
  rw [hrecords.placed, hrecords.unread, hrecords.asked]
  refine ⟨pubs.map Publication.shelved, Publication.map_path_shelved pubs, ?_, ?_, hnodup,
    Publication.unread_sublist pubs, hrecords.published.unread_eq_nil⟩
  · intro x hx
    obtain ⟨b, hb, rfl⟩ := List.mem_map.mp hx
    exact hrecords.shelved hb
  · exact (hrecords.published.inquiries_eq fun b hb => Publication.mem_unread_iff hnodup hb).symm

/-- The small stream with a first file that cannot be read back, and a signer that fails at its
second call. -/
def refused : Outset (Faulty Disk) (FaultyOutput DiskOutput) :=
  { sample.withFaults { Faults.none with openRead := some ⟨.permissionDenied, "01Z.rcd", 0⟩ } with
    signer := sample.signer.failingAt (· = 1) "no key" }

lemma serves_refused : refused.Serves .standard := by
  have h : (sample.withFaults
      { Faults.none with openRead := some ⟨.permissionDenied, "01Z.rcd", 0⟩ }).Serves .standard :=
    serves_sample.withFaults nofun
  exact ⟨h.plain, h.sound, h.reaches⟩

theorem asked_of_placed_refused : ∃ (t : Stage (Faulty Disk) (FaultyOutput DiskOutput))
    (files : List Shelved), refused.reached .standard shaken = some t ∧
      files.map Shelved.path = t.world.placed ∧
      (∀ x ∈ files, x.In (Faulty.view (Disk.view ["record-streams"])) t.world.storage) ∧
      t.world.asked = refused.signer.inquiries t.world.unread 0 files := by
  obtain ⟨t, ht⟩ := exists_shaken serves_refused fun _ => holds_sample
  obtain ⟨files, hpaths, hin, hasked, -⟩ := asked_of_placed serves_refused ht
  exact ⟨t, files, ht, hpaths, hin, hasked⟩

end Outset

end SealedStream
