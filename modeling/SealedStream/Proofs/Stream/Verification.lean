import SealedStream.Proofs.Storage.Reading
import SealedStream.Proofs.Stream.Restart
import SealedStream.Proofs.Stream.Seals

/-!
What is written verifies: an auditor who has the key of the signer accepts every pair of files of a
stream, and the record files lead from one to the next up to the running hash of the stream.

Of the key it is only asked that it verifies its own signatures.
-/

namespace SealedStream

open Naming (Role)

/-! ### Keys as signers -/

lemma Ed25519.SecretKey.length_sign (key : Ed25519.SecretKey) (message : Bytes) :
    (key.sign message).length = 64 := by
  simp [sign, Point.encode]

/-- The signature file that a key makes for a record file with these bytes. -/
def StreamKind.sealing (k : StreamKind) (key : Ed25519.SecretKey) (content : Bytes)
    (file : RecordFile) : SignatureFile :=
  k.signatures .ed25519 (Hash.digest content) file.metadataHash
    (key.sign (Hash.digest content).bytes) (key.sign file.metadataHash.bytes)

lemma Audit.checkPair_sealing {key : Ed25519.SecretKey} {file : RecordFile} {content : Bytes}
    (k : StreamKind) (hchain : file.verifyChain = .ok ())
    (hentire : key.publicKey.verify (Hash.digest content).bytes
      (key.sign (Hash.digest content).bytes) = .ok ())
    (hmetadata : key.publicKey.verify file.metadataHash.bytes
      (key.sign file.metadataHash.bytes) = .ok ()) :
    checkPair key.publicKey (Hash.digest content) file (k.sealing key content file) = .ok () :=
  checkPair_ok_iff.mpr ⟨rfl, rfl, hchain, checkSignature_ok_iff.mpr ⟨rfl, hentire⟩,
    checkSignature_ok_iff.mpr ⟨rfl, hmetadata⟩⟩

section

variable {σ ω : Type} [Storage σ ω]

/-! ### Auditing one pair of files -/

/-- **An auditor decides on what is stored**, if nothing fails. -/
lemma Audit.verifyFiles_eq {V : FileView σ ω} {s : σ} {record signatures : Path}
    {content image : Bytes} (key : Ed25519.PublicKey) (headerLength : ℕ) (hV : V.NeverFails)
    (hs : V.Sound s) (hrecord : V.Reach record) (hsignatures : V.Reach signatures)
    (hcontent : V.file s record = some content) (himage : V.file s signatures = some image) :
    (verifyFiles record signatures headerLength key s).1 =
      judge key headerLength content image := by
  obtain ⟨s₁, hread₁, hs₁, hsame₁⟩ := hV.readAll_eq hs hrecord hcontent
  obtain ⟨s₂, hread₂, hs₂, hsame₂⟩ := hV.readAll_eq hs₁ hsignatures (hsame₁ ▸ himage)
  obtain ⟨s₃, hdigest, -⟩ := hV.digest_eq hs₂ hrecord
    ((congrFun (hsame₂.trans hsame₁) record).trans hcontent)
  exact verifyFiles_eq_judge hread₁ hread₂ hdigest

/-- A record file and its signature file stand in the storage, and an auditor with the key who reads
them gets the two as they decode. -/
def FileView.Verifies (V : FileView σ ω) (kind : StreamKind) (key : Ed25519.PublicKey) (s : σ)
    (path : Path) (file : RecordFile) : Prop :=
  ∃ content image signatures, V.file s path = some content ∧
    V.file s (Naming.signaturePath path kind.signatureExtension) = some image ∧
    RecordFile.decode content = .ok file ∧
    SignatureFile.decode kind.signatureHeader.length image = .ok signatures ∧
    (Audit.verifyFiles path (Naming.signaturePath path kind.signatureExtension)
      kind.signatureHeader.length key s).1 = .ok (file, signatures)

variable {G : Setting σ ω} {pubs : List Publication} {b : Publication} {past : List Stretch}
  {last : Option WrittenFile} {s : Surroundings σ} {key : Ed25519.SecretKey}

/-- **A publication verifies** by the key that has signed it. -/
lemma Records.verifies (h : Records G pubs past last s) (hV : G.view.NeverFails)
    (hkey : G.signer = key.signer)
    (hverify : ∀ m ∈ s.asked, key.publicKey.verify m (key.sign m) = .ok ()) (hb : b ∈ pubs)
    (hsigned : b.signature.isSome) (hchain : b.file.verifyChain = .ok ()) :
    G.view.Verifies G.config.kind key.publicKey s.storage b.path b.file := by
  obtain ⟨⟨path, image⟩, hsig⟩ := Option.isSome_iff_exists.mp hsigned
  obtain ⟨call, hvalid⟩ := h.published.valid hb
  have hcontent := h.content hb
  have hfile := RecordFile.decode_of_encode hvalid.image
  obtain ⟨before, after, rfl⟩ := List.append_of_mem hb
  obtain ⟨-, hseals⟩ := h.seals hsig
  obtain ⟨x, y, hx, hy, himage⟩ := hseals.answers
  rw [hkey] at hx hy himage
  obtain rfl : key.sign (Hash.digest b.content).bytes = x := Except.ok.inj hx
  obtain rfl : key.sign b.file.metadataHash.bytes = y := Except.ok.inj hy
  have hsealed : SignatureFile.decode G.config.kind.signatureHeader.length image =
      .ok (G.config.kind.sealing key b.content b.file) := SignatureFile.decode_encoded himage
  have hpasses : Audit.checkPair key.publicKey (Hash.digest b.content) b.file
      (G.config.kind.sealing key b.content b.file) = .ok () :=
    Audit.checkPair_sealing _ hchain (hverify _ (List.mem_of_getElem? hseals.first))
      (hverify _ (List.mem_of_getElem? hseals.second))
  have hreach := G.reaches hvalid.names
  refine ⟨b.content, image, _, hcontent, hseals.there, hfile, hsealed, ?_⟩
  rw [Audit.verifyFiles_eq key.publicKey _ hV h.sound hreach.record hreach.signature hcontent
    hseals.there, Audit.judge]
  simp only [hfile, hsealed, hpasses]
  rfl

/-! ### Auditing a stream -/

namespace Outset

variable {b : Outset σ ω} {config : Config} {os : List StreamObject} {initial : Hash}

lemma smooth_of_key (hV : b.view.NeverFails) (hcalm : b.meanwhile = [])
    (hkey : b.signer = key.signer)
    (hempty : ∀ path, config.Names path → ∀ r : Role,
      b.view.file b.storage (r.path config.kind path) = none) : b.Smooth config where
  storage := hV
  signs call message := by
    rw [hkey]
    refine ⟨_, rfl, ?_⟩
    rw [key.length_sign]
    decide
  calm := hcalm
  tidy hn := ⟨hempty _ hn .part, hempty _ hn .signaturePart⟩

/-- **What is written verifies.** Objects whose times do not go back, which can be named and
written, and whose links hold what the chain gives, are handed to a writer that signs with a key,
and the writer is closed, while nothing fails. Over an empty directory every record file that is
there then is one that the writer has put in place. If the key verifies its signatures of what it
has been asked to sign, an auditor accepts each of these files with the signature file beside it,
and gets the files of the objects, in order; an audit passes these, and ends at the running hash
after all objects. -/
theorem written_verifies (h : b.Serves config) (hV : b.view.NeverFails) (hcalm : b.meanwhile = [])
    (hkey : b.signer = key.signer)
    (hempty : ∀ path, config.Names path → ∀ r : Role,
      b.view.file b.storage (r.path config.kind path) = none)
    (hoff : config.completeWindow = false) (hne : os ≠ [])
    (hsorted : os.Pairwise fun x y : StreamObject => x.timestamp ≤ y.timestamp)
    (hnamed : ∀ x ∈ os, ∃ text, x.timestamp.toIso = .ok text) (hfits : ∀ x ∈ os, x.item.Fits)
    (hchain : b.pipeline.Chains initial os) :
    ∃ t, b.reached config ((Operation.batch initial os).map .call) = some t ∧ t.Unbroken ∧
      (∀ path, config.Names path → (b.view.file t.world.storage path).isSome →
        path ∈ t.world.placed) ∧
      ((∀ m ∈ t.world.asked, key.publicKey.verify m (key.sign m) = .ok ()) →
        ∃ files, List.Forall₂ (b.view.Verifies config.kind key.publicKey t.world.storage)
            t.world.placed files ∧
          files.flatMap RecordFile.items = os.map StreamObject.item ∧
          Audit.verifyRecords files = .ok () ∧
          Audit.tip files = some (RunningHash.after initial (os.map StreamObject.item))) := by
  have hs := smooth_of_key hV hcalm hkey hempty
  obtain ⟨t, pubs, ht, account, hunbroken, hgroups⟩ := publish_groups h hs initial
    (fun path hn => hempty path hn .record) hsorted hnamed hfits (fun _ => hchain.resolved) hoff
  have hrecords := account.records
  have hsteady := h.steady_batch account hfits
  have hvalid : ∀ x ∈ pubs, _ := fun x hx => hrecords.published.valid hx
  have hleads := Publication.leads [] hvalid trivial (hchain.mono hrecords.grown) hgroups.linked rfl
    hgroups.flatMap_objects
  refine ⟨t, ht, hunbroken, fun path hn hthere => ?_, fun hverify => ?_⟩
  · by_contra hnot
    rw [hrecords.placed] at hnot
    have hnone := (hrecords.untouched hn hnot).trans (hempty path hn .record)
    exact absurd hthere (Option.not_isSome_iff_eq_none.mpr hnone)
  · have hitems := Publication.items_eq hvalid
    rw [hgroups.flatMap_objects] at hitems
    have hfiles : pubs.map Publication.file ≠ [] := by
      intro hnil
      rw [hnil] at hitems
      exact hne (List.map_eq_nil_iff.mp hitems.symm)
    refine ⟨pubs.map Publication.file, ?_, hitems, Audit.verifyRecords_ok_iff.mpr ⟨_, _, hleads⟩,
      hleads.tip_eq hfiles⟩
    rw [hrecords.placed, List.forall₂_map_left_iff, List.forall₂_map_right_iff, List.forall₂_same]
    intro x hx
    exact hrecords.verifies hV hkey hverify hx (hsteady.signed hx)
      (hleads.verifyChain (List.mem_map_of_mem hx))

def keyed (os : List StreamObject) (key : Ed25519.SecretKey) : Outset Disk DiskOutput :=
  onDisk "record-streams" (linked os) key.signer

def seeded : Ed25519.SecretKey := ⟨List.replicate 32 0⟩

/-- What the key is asked to sign for the small stream: the digest of each of its two files and
the metadata hash. -/
def askedFew : List Bytes :=
  ["d56b868eb4fd5b5db7bc31eea525bb2383d42159aa5a08d1e415de3ee5ffa8198083ebaf5083db4474451ec1a0c01559",
    "07b5eb70884e7d59889aadaea186245b6ead9d99c5ae3309edc0a5b66047e79a6fef3402d3c62baea35a035ea821e7e5",
    "d9442335ec6057d4c7ad58bd1adbe417ef7d04bf87fa69da9a625b0e675e6b05c474a7d3cfac7328e2a86d63c72f2814",
    "544791ed2a1a342b80e4635f37d368904a3bb1b9579222f1bca77953cca93e5a97020625e31a700112b06edb88bc1de0"].map
    fun text => (Hex.decode text).toOption.getD []

lemma asked_few : ((keyed few seeded).reached .standard ((Operation.batch .zero few).map .call)).any
    (fun t => t.world.asked = askedFew) = true := by
  decide +kernel

/-- The key verifies what it has signed. The messages are gone through one by one, as each of them
takes the kernel a while. -/
lemma verifies_few : ∀ m ∈ askedFew, seeded.publicKey.verify m (seeded.sign m) = .ok () := by
  simp only [askedFew, List.map_cons, List.map_nil, List.forall_mem_cons]
  refine ⟨?_, ?_, ?_, ?_, List.forall_mem_nil _⟩ <;> decide +kernel

/-- Two objects in files of their own, signed by a key. -/
theorem written_verifies_few : ∃ (t : Stage Disk DiskOutput) (files : List RecordFile),
    (keyed few seeded).reached .standard ((Operation.batch .zero few).map .call) = some t ∧
      List.Forall₂ ((Disk.view ["record-streams"]).Verifies Config.standard.kind seeded.publicKey
        t.world.storage) t.world.placed files ∧
      files.flatMap RecordFile.items = few.map StreamObject.item ∧
      Audit.verifyRecords files = .ok () ∧
      Audit.tip files = some (RunningHash.after .zero (few.map StreamObject.item)) := by
  obtain ⟨t, ht, -, -, hverifies⟩ := written_verifies (b := keyed few seeded)
    (serves_standard _ _) (Disk.neverFails _) rfl (show _ = seeded.signer from rfl)
    (fun _ _ _ => file_onDisk ..) rfl (show few ≠ [] by decide) (show few.Pairwise _ by decide)
    (fun _ hx => named_few hx) (by decide) (chains_linked (by decide))
  have hasked := asked_few
  rw [ht, Option.any_some, decide_eq_true_iff] at hasked
  obtain ⟨files, hfiles⟩ := hverifies fun m hm => verifies_few m (hasked ▸ hm)
  exact ⟨t, files, ht, hfiles⟩

end Outset

end

end SealedStream
