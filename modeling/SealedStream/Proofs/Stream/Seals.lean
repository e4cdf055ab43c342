import SealedStream.Proofs.Stream.Fate
import SealedStream.Proofs.Stream.Inquiries
import SealedStream.Proofs.Stream.Recovery

/-!
Signature files appear whole or not at all, and the writer says truly whether its last file has got
one.

They come with publications and are never touched again, so that what is to be shown of a storage is
shown of the publications that it holds.
-/

namespace SealedStream

open Naming (Role)

variable {σ ω : Type} [Storage σ ω] {V : FileView σ ω} {G : Setting σ ω} {p : Pipeline}
  {pubs before after : List Publication} {b : Publication} {past : List Stretch}
  {last : Option WrittenFile} {s : Surroundings σ} {path : Path} {image : Bytes}

/-- The signature file of a record file is stored as a whole: behind the header of its kind stand
the digests of the record file's bytes and of its metadata, which the signer has been asked to sign
by a call and the next one, and its answers to these. -/
structure FileView.Seals (V : FileView σ ω) (kind : StreamKind) (signer : Signer)
    (asked : List Bytes) (call : ℕ) (s : σ) (x : Shelved) (image : Bytes) : Prop where
  there : V.file s (Naming.signaturePath x.path kind.signatureExtension) = some image
  first : asked[call]? = some (Hash.digest x.content).bytes
  second : asked[call + 1]? = some x.file.metadataHash.bytes
  answers : ∃ y z, signer.sign call (Hash.digest x.content).bytes = .ok y ∧
    signer.sign (call + 1) x.file.metadataHash.bytes = .ok z ∧
    (kind.signatures signer.scheme (Hash.digest x.content) x.file.metadataHash y z).encode =
      .ok image

/-! ### Publications -/

lemma Published.valid_at (h : Published G p (before ++ b :: after)) :
    b.Valid G p (G.asked before) := by
  induction after using List.reverseRecOn with
  | nil =>
    generalize hpubs : before ++ [b] = pubs at h
    cases h with
    | nil => simp at hpubs
    | snoc _ valid =>
      obtain ⟨rfl, hb⟩ := List.append_inj' hpubs rfl
      cases hb
      exact valid
  | append_singleton after c ih =>
    generalize hpubs : before ++ b :: (after ++ [c]) = pubs at h
    cases h with
    | nil => simp at hpubs
    | snoc earlier _ =>
      rw [← List.cons_append, ← List.append_assoc] at hpubs
      obtain ⟨rfl, -⟩ := List.append_inj' hpubs rfl
      exact ih earlier

lemma Publication.Valid.signature_ne_record {call : ℕ} {c : Publication} (h : c.Valid G p call)
    (hn : G.config.Names path) : Role.signature.path G.config.kind path ≠ c.path := by
  intro heq
  have hrole := (G.plain.path_inj hn h.names (show _ = Role.record.path _ c.path from heq)).1
  cases hrole

/-- **A signature file that has been saved** is whole, and stays so. -/
lemma Records.seals (h : Records G (before ++ b :: after) past last s)
    (hsig : b.signature = some (path, image)) :
    path = Role.signature.path G.config.kind b.path ∧
      G.view.Seals G.config.kind G.signer s.asked (G.asked before) s.storage b.shelved image := by
  have hvalid := h.published.valid_at
  obtain ⟨rfl, hmessages, answers⟩ := hvalid.signed.signature hsig
  have hasked : s.asked = before.flatMap Publication.messages ++
      ((Hash.digest b.content).bytes :: b.file.metadataHash.bytes ::
        after.flatMap Publication.messages) := by
    rw [h.asked, List.flatMap_append, List.flatMap_cons, hmessages]
    rfl
  refine ⟨rfl, ⟨?_, ?_, ?_, answers⟩⟩
  · have hfiles := h.files (G.not_inProgress (r := .signature) hvalid.names (Or.inr rfl))
    refine hfiles.trans (putAll_of_mem (h.published.nodup_files h.nodup) ?_)
    exact List.mem_flatMap.mpr ⟨b, by simp, by simp [Publication.files, hsig]⟩
  · rw [hasked, Setting.asked, List.getElem?_append_right (Nat.le_refl _), Nat.sub_self]
    rfl
  · rw [hasked, Setting.asked, List.getElem?_append_right (Nat.le_add_right _ 1),
      Nat.add_sub_cancel_left]
    rfl

lemma Records.unsealed (h : Records G pubs past last s) (hn : G.config.Names path)
    (hnone : ∀ b ∈ pubs, b.path = path → b.signature = none) :
    G.view.file s.storage (Role.signature.path G.config.kind path) =
      G.files (Role.signature.path G.config.kind path) := by
  refine (h.files (G.not_inProgress hn (Or.inr rfl))).trans (putAll_of_not_mem fun hmem => ?_)
  obtain ⟨⟨q, bytes⟩, hfile, hq⟩ := List.mem_map.mp hmem
  obtain ⟨b, hb, hin⟩ := List.mem_flatMap.mp hfile
  obtain ⟨call, hvalid⟩ := h.published.valid hb
  rcases List.mem_cons.mp hin with heq | hsig
  · cases heq
    exact hvalid.signature_ne_record hn hq.symm
  · have hsig := Option.mem_toList.mp hsig
    have hpath := hq.symm.trans (hvalid.signed.signature hsig).1
    have hnone := hnone b hb (G.plain.path_inj hn hvalid.names hpath).2.symm
    exact nomatch hnone.symm.trans hsig

/-! ### Runs -/

namespace Outset

variable {o : Outset σ ω} {config : Config} {steps : List Step} {t t₁ t₂ : Stage σ ω}
  {written : WrittenFile}

/-- Where the signatures of a record file belong there is what was there at the start, or their
file as a whole, and the record file that it is about is in place beside it. -/
def KeptOrSealed (o : Outset σ ω) (config : Config) (t : Stage σ ω) (path : Path) : Prop :=
  o.view.file t.world.storage (Naming.signaturePath path config.kind.signatureExtension) =
      o.view.file o.storage (Naming.signaturePath path config.kind.signatureExtension) ∨
    path ∈ t.world.placed ∧ ∃ x call image, x.path = path ∧ x.In o.view t.world.storage ∧
      o.view.Seals config.kind o.signer t.world.asked call t.world.storage x image

/-- From the one stage to the other a record file has been put in place. It is said to have
signatures if their file, over the signer's answers to the calls that came with it, was put beside
it; if it is said to have none there has no such file been put there, and the token that the writer
had has been cancelled. -/
structure Closes (o : Outset σ ω) (config : Config) (written : WrittenFile) (t₁ t₂ : Stage σ ω) :
    Prop where
  placed : t₂.world.placed = t₁.world.placed ++ [written.record]
  last : t₂.writer.lastWritten = some written
  signed {q : Path} : written.signature = some q →
    q = Naming.signaturePath written.record config.kind.signatureExtension ∧
    ∃ x image, x.path = written.record ∧ x.In o.view t₂.world.storage ∧
      o.view.Seals config.kind o.signer t₂.world.asked t₁.world.asked.length t₂.world.storage x
        image
  unsigned : written.signature = none →
    o.view.file t₂.world.storage
        (Naming.signaturePath written.record config.kind.signatureExtension) =
      o.view.file t₁.world.storage
        (Naming.signaturePath written.record config.kind.signatureExtension) ∧
    t₂.world.pipeline.isCancelled t₁.writer.token = true

/-- **Signature files are whole**, after every step of any run. -/
lemma kept_or_sealed (h : o.Serves config) (ht : o.reached config steps = some t)
    (hn : config.Names path) : o.KeptOrSealed config t path := by
  obtain ⟨pubs, account, -⟩ := account_exposed h False False.elim ht
  have hrecords := account.records
  by_cases hnone : ∀ b ∈ pubs, b.path = path → b.signature = none
  · exact .inl (hrecords.unsealed hn hnone)
  · push Not at hnone
    obtain ⟨b, hb, rfl, hsome⟩ := hnone
    obtain ⟨⟨q, image⟩, hsig⟩ := Option.ne_none_iff_exists'.mp hsome
    obtain ⟨before, after, rfl⟩ := List.append_of_mem hb
    refine .inr ⟨?_, b.shelved, _, image, rfl, hrecords.shelved hb, (hrecords.seals hsig).2⟩
    rw [hrecords.placed]
    exact List.mem_map_of_mem hb

lemma Serves.closes (h : o.Serves config) {past past' : List Stretch}
    (h₁ : Records (h.exposed False) pubs past t₁.writer.lastWritten t₁.world)
    (h₂ : Records (h.exposed False) (pubs ++ [b]) past' t₂.writer.lastWritten t₂.world)
    (hunsigned : b.signature = none →
      t₂.world.pipeline.isCancelled t₁.writer.token = true) :
    o.Closes config b.written t₁ t₂ where
  placed := by
    rw [h₂.placed, h₁.placed, List.map_append]
    rfl
  last := by
    rw [h₂.last, List.getLast?_concat]
    rfl
  signed {q} hsome := by
    obtain ⟨⟨_, image⟩, hsig, rfl⟩ := Option.map_eq_some_iff.mp hsome
    obtain ⟨hq, hseals⟩ := h₂.seals hsig
    refine ⟨hq, b.shelved, image, rfl, h₂.shelved (by simp), ?_⟩
    rw [h₁.asked]
    exact hseals
  unsigned hnone := by
    have hnone := Option.map_eq_none_iff.mp hnone
    have hvalid := h₂.published.valid_at
    have hsame : ¬(h.exposed False).InProgress (Role.signature.path config.kind b.path) :=
      (h.exposed False).not_inProgress hvalid.names (Or.inr rfl)
    have hfiles : b.files = [(b.path, b.content)] := by rw [Publication.files, hnone]; rfl
    refine ⟨(h₂.files hsame).trans (Eq.trans ?_ (h₁.files hsame).symm), hunsigned hnone⟩
    rw [Setting.shelf_snoc, hfiles]
    exact Function.update_of_ne (hvalid.signature_ne_record hvalid.names) _ _

/-- **The last file was put in place** by some call of the run. -/
lemma exists_closes (h : o.Serves config) (ht : o.reached config steps = some t)
    (hlast : t.writer.lastWritten = some written) :
    ∃ op t₁ t₂, o.Calls config steps op t₁ t₂ ∧ o.Closes config written t₁ t₂ := by
  induction steps using List.reverseRecOn generalizing t with
  | nil =>
    obtain ⟨pubs, account, -⟩ := account_exposed h False False.elim ht
    obtain ⟨t₀, hstart, hrun⟩ := Option.bind_eq_some_iff.mp ht
    cases hrun
    have hnew := (Account.start (h.begins_exposed False) hstart).1.records.last
    exact nomatch hlast.symm.trans hnew
  | append_singleton steps x ih =>
    obtain ⟨t₁, ht₁, hstep⟩ := reached_concat_iff.mp ht
    have hearlier (hsame : t.writer.lastWritten = t₁.writer.lastWritten) :
        ∃ op t₁ t₂, o.Calls config (steps ++ [x]) op t₁ t₂ ∧ o.Closes config written t₁ t₂ := by
      obtain ⟨op, t₂, t₃, hcalls, hcloses⟩ := ih ht₁ (hsame.symm.trans hlast)
      exact ⟨op, t₂, t₃, hcalls.append [x], hcloses⟩
    cases x with
    | outside i =>
      cases hstep
      exact hearlier rfl
    | call op =>
      obtain ⟨pubs, account, -⟩ := account_exposed h False False.elim ht₁
      obtain ⟨⟨⟨reply, w⟩, s⟩, happly, rfl⟩ := Option.map_eq_some_iff.mp hstep
      obtain ⟨⟨more, account', hputting⟩, -⟩ := account.apply
        (Tended.admitted_operation h _ op) (fun _ => (h.grounded _).current_nonempty) False.elim _ _
        happly
      cases hputting with
      | nothing =>
        refine hearlier ?_
        rw [account.records.last, account'.records.last, List.append_nil]
      | @file b _ _ unsigned =>
        have hcloses : o.Closes config b.written t₁ ⟨w, s, t₁.accepted ++ op.taken reply⟩ :=
          h.closes account.records account'.records unsigned
        obtain rfl : b.written = written := Option.some.inj (hcloses.last.symm.trans hlast)
        exact ⟨op, t₁, _, ⟨steps, [], rfl, ht₁, hstep⟩, hcloses⟩

/-- **Signature files appear whole or not at all.** In any run, whatever fails, after every step and
after every single operation of the storage, there is where the signatures of a record file belong
what was there at the start, or their file as a whole: behind the header of the kind the digest of
the record file in place beside it, the metadata hash of that file, and what the signer answered to
exactly these two. The writer says of the last file it has put in place that it has signatures if
its closing has put such a file beside it; where it says that there are none, the token of then has
been cancelled. -/
theorem signatures_whole (h : o.Serves config) (steps : List Step) :
    (∀ t, o.reached config steps = some t →
      (∀ path, config.Names path → o.KeptOrSealed config t path) ∧
      ∀ written, t.writer.lastWritten = some written →
        ∃ op t₁ t₂, o.Calls config steps op t₁ t₂ ∧ o.Closes config written t₁ t₂) ∧
    ∀ n t, (o.crashing n).reached config steps = some t →
      ∀ path, config.Names path → (o.crashing n).KeptOrSealed config t path :=
  ⟨fun _ ht => ⟨fun _ hn => kept_or_sealed h ht hn, fun _ hlast => exists_closes h ht hlast⟩,
    fun n _ ht _ hn => kept_or_sealed (h.crashing n) ht hn⟩

/-- With a file that cannot be read back and a signer that fails. -/
theorem signatures_whole_refused : ∃ t : Stage (Faulty Disk) (FaultyOutput DiskOutput),
    refused.reached .standard shaken = some t ∧
      (∀ path, Config.standard.Names path → refused.KeptOrSealed .standard t path) ∧
      ∀ written, t.writer.lastWritten = some written → ∃ op t₁ t₂,
        refused.Calls .standard shaken op t₁ t₂ ∧ refused.Closes .standard written t₁ t₂ := by
  obtain ⟨t, ht⟩ := exists_shaken serves_refused fun _ => holds_sample
  exact ⟨t, ht, (signatures_whole serves_refused shaken).1 t ht⟩

end Outset

end SealedStream
