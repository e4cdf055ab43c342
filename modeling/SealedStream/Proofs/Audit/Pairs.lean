import Mathlib.Tactic.Common
import SealedStream.Proofs.Audit.Chain
import SealedStream.Proofs.Record.RoundTrip
import SealedStream.Proofs.Signature.RoundTrip
import SealedStream.Proofs.Transfer.Reading
import SealedStream.Storage.Disk

/-!
An auditor accepts just the honest pairs of files, and of any other pair says the first thing that
is wrong with it.

The checks are listed in their order, each with what is said where it is not passed. A signature
file belongs to one digest of a record file, and its two signatures cannot stand for each other
unless they are of one digest.
-/

namespace SealedStream

def Disk.bytes? (d : Disk) (p : Path) : Option Bytes :=
  match d.find p with
  | .ok (_, .file id) => some (d.fileBytes id)
  | _ => none

def SignatureFile.exchanged (g : SignatureFile) : SignatureFile := ⟨g.header, g.metadata, g.file⟩

namespace Audit

variable {d : Disk} {record signatures : Path} {key : Ed25519.PublicKey}
  {content image : Bytes} {headerLength : ℕ} {f : RecordFile} {g : SignatureFile} {e : AuditError}

/-! ### Checks in their order -/

/-- A check, and what is said of a pair that does not pass it. -/
structure Check where
  passed : Prop
  error : AuditError

/-- Of the checks that are not passed, the first has this error. -/
def FirstFault (cs : List Check) (e : AuditError) : Prop :=
  ∃ before c behind, cs = before ++ c :: behind ∧ (∀ x ∈ before, x.passed) ∧ ¬c.passed ∧ c.error = e

lemma not_firstFault_nil : ¬FirstFault [] e := by
  rintro ⟨before, c, behind, hcs, -⟩
  exact List.append_ne_nil_of_right_ne_nil before (List.cons_ne_nil c behind) hcs.symm

lemma firstFault_cons {c : Check} {cs : List Check} :
    FirstFault (c :: cs) e ↔ (¬c.passed ∧ c.error = e) ∨ (c.passed ∧ FirstFault cs e) := by
  constructor
  · rintro ⟨_ | ⟨x, before⟩, c', behind, hcs, hbefore, hfails, he⟩
    · cases hcs
      exact Or.inl ⟨hfails, he⟩
    · cases hcs
      rw [List.forall_mem_cons] at hbefore
      exact Or.inr ⟨hbefore.1, before, c', behind, rfl, hbefore.2, hfails, he⟩
  · rintro (⟨hfails, he⟩ | ⟨hpassed, before, c', behind, rfl, hbefore, hfails, he⟩)
    · exact ⟨[], c, cs, rfl, nofun, hfails, he⟩
    · exact ⟨c :: before, c', behind, rfl, List.forall_mem_cons.mpr ⟨hpassed, hbefore⟩, hfails, he⟩

/-- The outcome is that of the checks. -/
structure Decides (outcome : Except AuditError Unit) (cs : List Check) : Prop where
  accepted : outcome = .ok () ↔ ∀ c ∈ cs, c.passed
  refused : ∀ e, outcome = .error e ↔ FirstFault cs e

variable {x y : Except AuditError Unit} {cs : List Check} {p : Prop}

lemma decides_nil : Decides (pure ()) [] where
  accepted := by simp [pure, Except.pure]
  refused e := by simp [pure, Except.pure, not_firstFault_nil]

lemma Decides.cons {c : Check} (hpassed : c.passed → Decides x cs)
    (hfails : ¬c.passed → x = .error c.error) : Decides x (c :: cs) := by
  by_cases hc : c.passed
  · obtain ⟨haccepted, hrefused⟩ := hpassed hc
    exact ⟨by simp [haccepted, hc], fun e => by simp [hrefused, firstFault_cons, hc]⟩
  · rw [hfails hc]
    exact ⟨by simp [hc], fun e => by simp [firstFault_cons, hc]⟩

lemma verify_error {message signature : Bytes} {flaw : SignerError}
    (h : key.verify message signature = .error flaw) : flaw = .invalidSignature := by
  unfold Ed25519.PublicKey.verify at h
  simp only at h
  split at h
  · cases h
    rfl
  · split at h <;> cases h
    rfl

def signatureChecks (key : Ed25519.PublicKey) (part : SignedPart) (s : SignedHash) : List Check :=
  [⟨s.scheme = .ed25519, .unsupportedScheme s.scheme⟩,
    ⟨key.verify s.hash.bytes s.signature = .ok (), .badSignature part .invalidSignature⟩]

/-- **What is checked of a pair of files**, in this order: that the digest of all bytes and the
metadata hash are those that were signed, that the items lead from the start hash to the end hash,
and that either digest was signed by the key. -/
def checks (key : Ed25519.PublicKey) (content : Bytes) (f : RecordFile) (g : SignatureFile) :
    List Check :=
  ⟨g.file.hash = Hash.digest content, .hashMismatch .entireFile⟩ ::
  ⟨g.metadata.hash = f.metadataHash, .hashMismatch .metadata⟩ ::
  ⟨f.Holds, .chain (.endMismatch f.finish (RunningHash.after f.start f.items))⟩ ::
    (signatureChecks key .entireFile g.file ++ signatureChecks key .metadata g.metadata)

lemma decides_signature (key : Ed25519.PublicKey) (part : SignedPart) (s : SignedHash)
    (h : Decides y cs) :
    Decides (checkSignature key part s >>= fun _ => y) (signatureChecks key part s ++ cs) := by
  refine Decides.cons (fun hscheme => Decides.cons (fun hverify => ?_) fun hverify => ?_)
    fun hscheme => ?_
  · rw [checkSignature_ok_iff.mpr ⟨hscheme, hverify⟩]
    exact h
  · rw [checkSignature, if_neg fun hne => hne hscheme]
    cases hv : key.verify s.hash.bytes s.signature with
    | ok _ => exact (hverify hv).elim
    | error flaw =>
      rw [verify_error hv]
      rfl
  · rw [checkSignature, if_pos hscheme]
    rfl

lemma decides_checkPair : Decides (checkPair key (Hash.digest content) f g)
    (checks key content f g) := by
  refine Decides.cons (fun hentire => Decides.cons (fun hmetadata => Decides.cons (fun hf => ?_)
    fun hf => ?_) fun hmetadata => ?_) fun hentire => ?_
  · have hsignatures : Decides (checkSignature key .metadata g.metadata)
        (signatureChecks key .metadata g.metadata) := by
      have h := decides_signature key .metadata g.metadata decides_nil
      rwa [List.append_nil, bind_pure_unit] at h
    have h := decides_signature key .entireFile g.file hsignatures
    rw [checkPair, if_neg fun hne => hne hentire, if_neg fun hne => hne hmetadata,
      verifyChain_of_holds hf]
    exact h
  · rw [checkPair, if_neg fun hne => hne hentire, if_neg fun hne => hne hmetadata,
      verifyChain_of_not_holds hf]
    rfl
  · rw [checkPair, if_neg fun hne => hne hentire, if_pos hmetadata]
    rfl
  · rw [checkPair, if_pos hentire]
    rfl

/-! ### Stored pairs -/

/-- **What is said of a pair of files**: what keeps the record file from being read, or what keeps
the signature file from it, or the first check that they do not pass. -/
inductive Fault (key : Ed25519.PublicKey) (headerLength : ℕ) (content image : Bytes) :
    AuditError → Prop
  | record {flaw : DecodeError} (unread : RecordFile.decode content = .error flaw) :
    Fault key headerLength content image (.file (.decode flaw))
  | signatures {f : RecordFile} {flaw : DecodeError} (read : RecordFile.decode content = .ok f)
    (unread : SignatureFile.decode headerLength image = .error flaw) :
    Fault key headerLength content image (.file (.decode flaw))
  | pair {f : RecordFile} {g : SignatureFile} {e : AuditError}
    (record : RecordFile.decode content = .ok f)
    (signatures : SignatureFile.decode headerLength image = .ok g)
    (first : FirstFault (checks key content f g) e) : Fault key headerLength content image e

lemma judge_of_decoded (hf : RecordFile.decode content = .ok f)
    (hg : SignatureFile.decode headerLength image = .ok g) :
    judge key headerLength content image =
      (checkPair key (Hash.digest content) f g).map fun _ => (f, g) := by
  rw [judge]
  simp only [hf, hg]

/-- What is accepted has been read and has passed all checks, and what is refused has a fault. -/
lemma judge_spec (key : Ed25519.PublicKey) (headerLength : ℕ) (content image : Bytes) :
    match judge key headerLength content image with
    | .ok (f, g) => RecordFile.decode content = .ok f ∧
        SignatureFile.decode headerLength image = .ok g ∧ ∀ c ∈ checks key content f g, c.passed
    | .error e => Fault key headerLength content image e := by
  cases hf : RecordFile.decode content with
  | error flaw =>
    rw [judge, hf]
    exact .record hf
  | ok f =>
    cases hg : SignatureFile.decode headerLength image with
    | error flaw =>
      rw [judge, hf]
      simp only [hg]
      exact .signatures hf hg
    | ok g =>
      rw [judge_of_decoded hf hg]
      cases hpair : checkPair key (Hash.digest content) f g with
      | error e => exact .pair hf hg ((decides_checkPair.refused e).mp hpair)
      | ok _ => exact ⟨rfl, rfl, decides_checkPair.accepted.mp hpair⟩

lemma judge_eq_ok_iff : judge key headerLength content image = .ok (f, g) ↔
    RecordFile.decode content = .ok f ∧ SignatureFile.decode headerLength image = .ok g ∧
      ∀ c ∈ checks key content f g, c.passed := by
  constructor
  · intro h
    have hspec := judge_spec key headerLength content image
    rwa [h] at hspec
  · rintro ⟨hf, hg, hpassed⟩
    rw [judge_of_decoded hf hg, decides_checkPair.accepted.mpr hpassed]
    rfl

lemma judge_eq_error_iff :
    judge key headerLength content image = .error e ↔ Fault key headerLength content image e := by
  constructor
  · intro h
    have hspec := judge_spec key headerLength content image
    rwa [h] at hspec
  · intro h
    cases h with
    | record unread =>
      rw [judge]
      simp only [unread]
    | signatures read unread =>
      rw [judge]
      simp only [read, unread]
    | pair hf hg first =>
      rw [judge_of_decoded hf hg, (decides_checkPair.refused e).mpr first]
      rfl

lemma openRead_of_bytes {p : Path} (h : d.bytes? p = some content) :
    Storage.openRead p d = (.ok [.piece content], d) := by
  show d.openRead p = _
  unfold Disk.bytes? at h
  rw [Disk.openRead]
  split at h
  · rename_i hfind
    cases h
    rw [hfind]
  · cases h

lemma verifyFiles_of_bytes (hrecord : d.bytes? record = some content)
    (hsignatures : d.bytes? signatures = some image) :
    (verifyFiles record signatures headerLength key d).1 =
      judge key headerLength content image := by
  have hall : ∀ bs : Bytes, Source.readToEnd [.piece bs] = .ok bs := by
    intro bs
    cases bs with
    | nil => rfl
    | cons b bs => simp [Source.readToEnd, Except.map]
  have hread {p : Path} {bs : Bytes} (h : d.bytes? p = some bs) :
      Storage.readAll p d = (.ok bs, d) := by
    rw [Storage.readAll, openRead_of_bytes h]
    simp only [Except.bind, hall]
  have hdigest : Storage.digest record d = (.ok (Hash.digest content), d) := by
    rw [Storage.digest, openRead_of_bytes hrecord]
    simp only [Except.bind, Source.digest_eq, hall, Except.map]
  exact verifyFiles_eq_judge (hread hrecord) (hread hsignatures) hdigest

/-! ### Honest pairs -/

lemma passed_checks_iff : (∀ c ∈ checks key content f g, c.passed) ↔
    g.file.hash = Hash.digest content ∧ g.metadata.hash = f.metadataHash ∧ f.Holds ∧
      (g.file.scheme = .ed25519 ∧ key.verify g.file.hash.bytes g.file.signature = .ok ()) ∧
      g.metadata.scheme = .ed25519 ∧
        key.verify g.metadata.hash.bytes g.metadata.signature = .ok () := by
  simp [checks, signatureChecks, and_assoc]

lemma exists_exchanged (hg : SignatureFile.decode headerLength image = .ok g) :
    ∃ image', g.exchanged.encode = .ok image' ∧
      SignatureFile.decode headerLength image' = .ok g.exchanged := by
  obtain ⟨rfl, hencode⟩ := SignatureFile.encode_of_decoded hg
  obtain ⟨hfile, hmetadata⟩ := g.encode_isOk_iff_fits.mp (by rw [hencode]; rfl)
  obtain ⟨image', himage⟩ :=
    exists_ok_of_isOk (g.exchanged.encode_isOk_iff_fits.mpr ⟨hmetadata, hfile⟩)
  exact ⟨image', himage, SignatureFile.decode_encoded himage⟩

/-- Exchanged signatures are found out by the digest of all bytes, unless that is the metadata hash
as well. -/
lemma judge_exchanged (hf : RecordFile.decode content = .ok f)
    (hpassed : ∀ c ∈ checks key content f g, c.passed)
    (hg : SignatureFile.decode headerLength image = .ok g.exchanged) :
    judge key headerLength content image =
      if g.file.hash = g.metadata.hash then .ok (f, g.exchanged)
      else .error (.hashMismatch .entireFile) := by
  obtain ⟨hentire, hmetadata, hholds, hfile, hmeta⟩ := passed_checks_iff.mp hpassed
  split
  · rename_i hsame
    have hall : ∀ c ∈ checks key content f g.exchanged, c.passed :=
      passed_checks_iff.mpr ⟨hsame.symm.trans hentire, hsame.trans hmetadata, hholds, hmeta, hfile⟩
    exact judge_eq_ok_iff.mpr ⟨hf, hg, hall⟩
  · rename_i hdiffer
    refine judge_eq_error_iff.mpr (.pair hf hg (firstFault_cons.mpr (Or.inl ⟨?_, rfl⟩)))
    exact fun hsame : g.metadata.hash = Hash.digest content => hdiffer (hentire.trans hsame.symm)

/-- **An auditor accepts just the honest pairs of files**: those of which both files can be read and
all checks are passed. Of any other pair the first fault is told. So if a pair is accepted, no
record file with another digest is accepted with these signatures, and with the two signatures in
each other's place the pair is refused, unless they are of one digest. -/
theorem verifyFiles_honest (key : Ed25519.PublicKey) (headerLength : ℕ)
    (hrecord : d.bytes? record = some content) (hsignatures : d.bytes? signatures = some image) :
    (∀ f g, (verifyFiles record signatures headerLength key d).1 = .ok (f, g) ↔
      RecordFile.decode content = .ok f ∧ SignatureFile.decode headerLength image = .ok g ∧
        ∀ c ∈ checks key content f g, c.passed) ∧
    (∀ e, (verifyFiles record signatures headerLength key d).1 = .error e ↔
      Fault key headerLength content image e) ∧
    ∀ f g, (verifyFiles record signatures headerLength key d).1 = .ok (f, g) →
      (∀ (d' : Disk) record' signatures' content', d'.bytes? record' = some content' →
        d'.bytes? signatures' = some image → Hash.digest content' ≠ Hash.digest content →
        ∃ e, (verifyFiles record' signatures' headerLength key d').1 = .error e) ∧
      ∃ image', g.exchanged.encode = .ok image' ∧
        ∀ (d' : Disk) record' signatures', d'.bytes? record' = some content →
          d'.bytes? signatures' = some image' →
          (verifyFiles record' signatures' headerLength key d').1 =
            if g.file.hash = g.metadata.hash then .ok (f, g.exchanged)
            else .error (.hashMismatch .entireFile) := by
  have hjudge : (verifyFiles record signatures headerLength key d).1 =
      judge key headerLength content image := verifyFiles_of_bytes hrecord hsignatures
  rw [hjudge]
  refine ⟨fun f g => judge_eq_ok_iff, fun e => judge_eq_error_iff, fun f g hok => ?_⟩
  obtain ⟨hf, hg, hpassed⟩ := judge_eq_ok_iff.mp hok
  constructor
  · intro d' record' signatures' content' hrecord' hsignatures' hdigest
    rw [verifyFiles_of_bytes hrecord' hsignatures']
    cases hother : judge key headerLength content' image with
    | error e => exact ⟨e, rfl⟩
    | ok pair =>
      -- both record files would have the digest that was signed
      obtain ⟨-, hg', hpassed'⟩ := judge_eq_ok_iff.mp hother
      cases hg.symm.trans hg'
      exact (hdigest ((passed_checks_iff.mp hpassed').1.symm.trans
        (passed_checks_iff.mp hpassed).1)).elim
  · obtain ⟨image', hencode, hg'⟩ := exists_exchanged hg
    refine ⟨image', hencode, fun d' record' signatures' hrecord' hsignatures' => ?_⟩
    rw [verifyFiles_of_bytes hrecord' hsignatures']
    exact judge_exchanged hf hpassed hg'

def bare : RecordFile := ⟨6, ⟨0, 27, 0⟩, .zero, [], .zero, 5⟩

def bareImage : Bytes := bare.encode.toOption.getD []

def ofHex (text : String) : Bytes := (Hex.decode text).toOption.getD []

/-- The key whose seed is all zeros. -/
def bareKey : Ed25519.PublicKey where
  bytes := ofHex "3b6a27bcceb6a42d62a3a8d02a6f0d73653215771de243a63ac048a18b59da29"
  point := .ofAffine
    9639205628789703341510410801487549615560488670885798085067615194958049462616
    18930617471878267742194159801949745215346600387277955685031939302387136031291

def bareSealing : SignatureFile where
  header := [6]
  file := ⟨Hash.digest bareImage, .ed25519,
    ofHex "ec9ff76d7fdc6426826f2d0d7f730cf5c2bdc221261efafa70ed0467a14e0c03" ++
      ofHex "a8980cd9371c69d5f4052b6f63e91a8a04ea464a8ccc0e081efe0e91da218802"⟩
  metadata := ⟨bare.metadataHash, .ed25519,
    ofHex "4b0c18f76f64bf11e0f2bb5d9f25f4af3f225057561a41d4d60fe88387944c38" ++
      ofHex "7281968a2a5ee8c2e57fad08c12b3b9bcd5926d4e6d9a7973ad24512b2f62700"⟩

def bareSealingImage : Bytes := bareSealing.encode.toOption.getD []

def bareDisk : Disk where
  nodes := [(["bare.rcd"], .file 0), (["bare.rcd_sig"], .file 1)]
  contents := [(0, bareImage), (1, bareSealingImage)]
  fresh := 2

lemma passed_bare : ∀ c ∈ checks bareKey bareImage bare bareSealing, c.passed := by
  have hfile : bareKey.verify bareSealing.file.hash.bytes bareSealing.file.signature = .ok () := by
    decide +kernel
  have hmetadata : bareKey.verify bareSealing.metadata.hash.bytes bareSealing.metadata.signature =
      .ok () := by
    decide +kernel
  exact passed_checks_iff.mpr ⟨rfl, rfl, rfl, ⟨rfl, hfile⟩, rfl, hmetadata⟩

/-- The pair is accepted, and refused with its signatures exchanged. -/
theorem verifyFiles_honest_bare : bareDisk.bytes? ⟨"bare.rcd"⟩ = some bareImage ∧
    bareDisk.bytes? ⟨"bare.rcd_sig"⟩ = some bareSealingImage ∧
    (verifyFiles ⟨"bare.rcd"⟩ ⟨"bare.rcd_sig"⟩ 1 bareKey bareDisk).1 = .ok (bare, bareSealing) ∧
    ∃ image', bareSealing.exchanged.encode = .ok image' ∧
      ∀ (d : Disk) record signatures, d.bytes? record = some bareImage →
        d.bytes? signatures = some image' →
        (verifyFiles record signatures 1 bareKey d).1 = .error (.hashMismatch .entireFile) := by
  have hrecord : bareDisk.bytes? ⟨"bare.rcd"⟩ = some bareImage := by
    have hfind : bareDisk.find ⟨"bare.rcd"⟩ = .ok (["bare.rcd"], .file 0) := by decide +kernel
    rw [Disk.bytes?, hfind]
    rfl
  have hsignatures : bareDisk.bytes? ⟨"bare.rcd_sig"⟩ = some bareSealingImage := by
    have hfind : bareDisk.find ⟨"bare.rcd_sig"⟩ = .ok (["bare.rcd_sig"], .file 1) := by
      decide +kernel
    rw [Disk.bytes?, hfind]
    rfl
  have hf : RecordFile.decode bareImage = .ok bare := RecordFile.decode_of_encode rfl
  have hg : SignatureFile.decode 1 bareSealingImage = .ok bareSealing := by
    refine SignatureFile.decode_encoded (f := bareSealing) ?_
    obtain ⟨image, himage⟩ := exists_ok_of_isOk
      (bareSealing.encode_isOk_iff_fits.mpr ⟨by decide +kernel, by decide +kernel⟩)
    rw [bareSealingImage, himage]
    rfl
  have hdiffer : bareSealing.file.hash ≠ bareSealing.metadata.hash := by decide +kernel
  obtain ⟨haccepted, -, hafter⟩ := verifyFiles_honest bareKey 1 hrecord hsignatures
  have hok := (haccepted bare bareSealing).mpr ⟨hf, hg, passed_bare⟩
  obtain ⟨-, image', hencode, hexchanged⟩ := hafter _ _ hok
  refine ⟨hrecord, hsignatures, hok, image', hencode, fun d record signatures hr hs => ?_⟩
  rw [hexchanged d record signatures hr hs, if_neg hdiffer]

end Audit

end SealedStream
