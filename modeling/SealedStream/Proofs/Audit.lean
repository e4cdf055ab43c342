import Mathlib.Data.Nat.Notation
import SealedStream.Audit

/-!
What passes an audit: record files that hold one by one, and lead on from one to the next.
-/

namespace SealedStream

namespace Audit

variable {h h' k k' : Hash} {files more : List RecordFile}

/-- Files lead from one running hash to another: each of them holds, and starts where the one before
it has ended. -/
def Leads : (start : Hash) → List RecordFile → (finish : Hash) → Prop
  | h, [], k => h = k
  | h, f :: files, k => f.start = h ∧ f.verifyChain = .ok () ∧ Leads f.finish files k

lemma leads_append : Leads h (files ++ more) k ↔ ∃ m, Leads h files m ∧ Leads m more k := by
  induction files generalizing h with
  | nil => exact ⟨fun hm => ⟨h, rfl, hm⟩, fun ⟨m, hm, hmore⟩ => hm ▸ hmore⟩
  | cons f files ih =>
    rw [List.cons_append, Leads, ih]
    constructor
    · rintro ⟨hstart, hf, m, hfiles, hmore⟩
      exact ⟨m, ⟨hstart, hf, hfiles⟩, hmore⟩
    · rintro ⟨m, ⟨hstart, hf, hfiles⟩, hmore⟩
      exact ⟨hstart, hf, m, hfiles, hmore⟩

lemma Leads.unique (hk : Leads h files k) (hk' : Leads h' files k') (hne : files ≠ []) :
    h = h' ∧ k = k' := by
  induction files generalizing h h' with
  | nil => exact (hne rfl).elim
  | cons f files ih =>
    refine ⟨hk.1.symm.trans hk'.1, ?_⟩
    cases files with
    | nil => exact hk.2.2.symm.trans hk'.2.2
    | cons g files => exact (ih hk.2.2 hk'.2.2 (List.cons_ne_nil _ _)).2

lemma leads_iff_continuesFrom (files : List RecordFile) (previous : RunningHash.Segment)
    (index : ℕ) : (∃ k, Leads previous.finish files k) ↔ verifyEach files = .ok () ∧
      RunningHash.continuesFrom previous index (files.map RecordFile.segment) = .ok () := by
  induction files generalizing previous index with
  | nil => exact ⟨fun _ => ⟨rfl, rfl⟩, fun _ => ⟨_, rfl⟩⟩
  | cons f files ih =>
    have hnext := ih f.segment (index + 1)
    have hrest : (∃ k, Leads previous.finish (f :: files) k) ↔
        f.start = previous.finish ∧ f.verifyChain = .ok () ∧ ∃ k, Leads f.finish files k :=
      ⟨fun ⟨k, hk⟩ => ⟨hk.1, hk.2.1, k, hk.2.2⟩, fun ⟨hstart, hf, k, hk⟩ => ⟨k, hstart, hf, hk⟩⟩
    rw [hrest, verifyEach, List.map_cons, RunningHash.continuesFrom]
    rw [show f.segment.finish = f.finish from rfl] at hnext
    rw [hnext]
    show _ ↔ _ ∧ (if f.start = previous.finish then _ else _) = _
    cases hf : f.verifyChain with
    | error e => simp
    | ok _ =>
      by_cases hstart : f.start = previous.finish
      · simp [hstart]
      · simp [hstart]

/-- **An audit passes** just those files that lead from somewhere to somewhere. -/
theorem verifyRecords_ok_iff : verifyRecords files = .ok () ↔ ∃ h k, Leads h files k := by
  cases files with
  | nil => exact ⟨fun _ => ⟨.zero, .zero, rfl⟩, fun _ => rfl⟩
  | cons f files =>
    have hnext := leads_iff_continuesFrom files f.segment 1
    have hrest : (∃ h k, Leads h (f :: files) k) ↔
        f.verifyChain = .ok () ∧ ∃ k, Leads f.finish files k :=
      ⟨fun ⟨h, k, hk⟩ => ⟨hk.2.1, k, hk.2.2⟩, fun ⟨hf, k, hk⟩ => ⟨f.start, k, rfl, hf, hk⟩⟩
    rw [show f.segment.finish = f.finish from rfl] at hnext
    rw [hrest, hnext, verifyRecords, verifyEach, List.map_cons, RunningHash.verifyContinuity]
    cases hf : f.verifyChain with
    | error e => simp
    | ok _ => cases verifyEach files <;> simp

lemma Leads.verifyChain (hk : Leads h files k) {f : RecordFile} (hf : f ∈ files) :
    f.verifyChain = .ok () := by
  induction files generalizing h with
  | nil => cases hf
  | cons g files ih =>
    rcases List.mem_cons.mp hf with rfl | hf
    · exact hk.2.1
    · exact ih hk.2.2 hf

/-- **The tip** is where the files lead to. -/
lemma Leads.tip_eq (hk : Leads h files k) (hne : files ≠ []) : tip files = some k := by
  induction files generalizing h with
  | nil => exact (hne rfl).elim
  | cons f files ih =>
    cases files with
    | nil => exact congrArg some hk.2.2
    | cons g files =>
      rw [tip, List.getLast?_cons_cons]
      exact ih hk.2.2 (List.cons_ne_nil _ _)

/-- **Two runs of files** pass an audit together just if the second starts where the first ends,
where there are files in both. -/
lemma verifyRecords_append_iff (h₁ : Leads h files k) (h₂ : Leads h' more k') :
    verifyRecords (files ++ more) = .ok () ↔ files = [] ∨ more = [] ∨ k = h' := by
  rw [verifyRecords_ok_iff]
  constructor
  · rintro ⟨start, finish, hall⟩
    obtain ⟨m, hfiles, hmore⟩ := leads_append.mp hall
    rw [Classical.or_iff_not_imp_left, Classical.or_iff_not_imp_left]
    exact fun hne hne' => (h₁.unique hfiles hne).2.trans (h₂.unique hmore hne').1.symm
  · rintro (rfl | rfl | rfl)
    · exact ⟨h', k', h₂⟩
    · exact ⟨h, k, by rwa [List.append_nil]⟩
    · exact ⟨h, k', leads_append.mpr ⟨k, h₁, h₂⟩⟩

/-! ### Pairs of files -/

section

variable {key : Ed25519.PublicKey} {part : SignedPart} {x : SignedHash} {entire : Hash}
  {record : RecordFile} {signatures : SignatureFile}

lemma mapError_eq_ok_iff {ε ε' α : Type} {result : Except ε α} {f : ε → ε'} {a : α} :
    result.mapError f = .ok a ↔ result = .ok a := by
  cases result with
  | error e => constructor <;> rintro ⟨⟩
  | ok b => constructor <;> rintro ⟨⟩ <;> rfl

lemma checkSignature_ok_iff : checkSignature key part x = .ok () ↔
    x.scheme = .ed25519 ∧ key.verify x.hash.bytes x.signature = .ok () := by
  rw [checkSignature]
  by_cases hscheme : x.scheme = .ed25519
  · rw [if_neg fun hne => hne hscheme, mapError_eq_ok_iff]
    exact (and_iff_right hscheme).symm
  · rw [if_pos hscheme]
    simp [hscheme]

/-- **A pair is honest** if the digests of its signature file are those of the record file, its
items lead from its start to its end, and the key has made both signatures. -/
lemma checkPair_ok_iff : checkPair key entire record signatures = .ok () ↔
    signatures.file.hash = entire ∧ signatures.metadata.hash = record.metadataHash ∧
      record.verifyChain = .ok () ∧ checkSignature key .entireFile signatures.file = .ok () ∧
      checkSignature key .metadata signatures.metadata = .ok () := by
  rw [checkPair]
  by_cases hentire : signatures.file.hash = entire
  · by_cases hmetadata : signatures.metadata.hash = record.metadataHash
    · rw [← mapError_eq_ok_iff (f := AuditError.chain)]
      cases record.verifyChain.mapError AuditError.chain with
      | error e => simp [hentire, hmetadata, bind, Except.bind]
      | ok _ =>
        cases checkSignature key .entireFile signatures.file <;>
          simp [hentire, hmetadata, bind, Except.bind]
    · simp [hentire, hmetadata, bind, Except.bind]
  · simp [hentire, bind, Except.bind]

def judge (key : Ed25519.PublicKey) (headerLength : ℕ) (content image : Bytes) :
    Except AuditError (RecordFile × SignatureFile) :=
  match RecordFile.decode content with
  | .error e => .error (.file (.decode e))
  | .ok f =>
    match SignatureFile.decode headerLength image with
    | .error e => .error (.file (.decode e))
    | .ok g => (checkPair key (Hash.digest content) f g).map fun _ => (f, g)

/-- **Stored files are judged by their bytes**, as they are read one after the other. -/
lemma verifyFiles_eq_judge {σ ω : Type} [Storage σ ω] {s s₁ s₂ s₃ : σ} {content image : Bytes}
    {recordPath signaturePath : Path} {headerLength : ℕ}
    (hrecord : Storage.readAll recordPath s = (.ok content, s₁))
    (hsignatures : Storage.readAll signaturePath s₁ = (.ok image, s₂))
    (hdigest : Storage.digest recordPath s₂ = (.ok (Hash.digest content), s₃)) :
    (verifyFiles recordPath signaturePath headerLength key s).1 =
      judge key headerLength content image := by
  have hread {α : Type} (a : α) : (Except.ok a).mapError FileError.decode = .ok a := rfl
  simp only [verifyFiles, judge, RecordFile.read, SignatureFile.read, readFile, hrecord]
  cases RecordFile.decode content with
  | error e => rfl
  | ok f =>
    simp only [hread, hsignatures]
    cases SignatureFile.decode headerLength image with
    | error e => rfl
    | ok g => simp only [hread, hdigest]

end

end Audit

end SealedStream
