import SealedStream.Proofs.Writer.Opening
import SealedStream.Writer.Closing

/-!
What can come of finishing a record file.

A file is put in place as a whole, or not at all and given up. Its signatures come after that, and
what goes wrong with them leaves the record file as it is.
-/

namespace SealedStream

open Function (update)

variable {σ ω : Type} [Storage σ ω] {V : FileView σ ω} {s s₁ s' : Surroundings σ} {w : Writer ω}
  {path part : Path} {file : OpenFile ω} {items : List Item} {finish : Hash}

open Act

/-! ### The record file -/

def OpenFile.whole (file : OpenFile ω) (kind : StreamKind) (items : List Item) (finish : Hash) :
    RecordFile :=
  kind.file file.start items finish file.window.alignment.number

namespace Writer

/-- **The metadata hash** fed section by section is that of the whole file. -/
lemma metadataHash_eq {t : σ} (hk : w.config.kind.validate = .ok ())
    (hf : file.Holds V w.config.kind items t) :
    metadataHash file finish = (file.whole w.config.kind items finish).metadataHash := by
  have hh := StreamKind.header_eq hk
  rw [metadataHash, hf.metadata, Sha2.Hasher.update_append, Hash.ofHasher_update]
  simp [RecordFile.metadataHash, SealedStream.metadataHash, OpenFile.whole, StreamKind.file, hh,
    closing, Section.metadata]

lemma gives_complete (hk : w.config.kind.validate = .ok ()) (hs : V.Sound s.storage)
    (hp : V.Reach file.part) (hf : file.Holds V w.config.kind items s.storage) :
    (w.complete file finish : Act σ _).Gives s fun b s' =>
      (b = true ∧ Touches V (· = file.part) s s' ∧ ∃ c, V.file s'.storage file.part = some c ∧
        (file.whole w.config.kind items finish).encode = .ok c) ∨
      (b = false ∧ GivenUp V w.token file.part s s' ∧ ¬V.NeverFails) := by
  unfold complete
  obtain ⟨bs, ho, himage⟩ := hf.taken
  refine (gives_writeSections hs ho).bind ?_
  rintro ⟨r, output⟩ s₁ ⟨h₁, hputs⟩
  cases hputs with
  | @part d _ _ f takes fault =>
    have hfault : ¬V.NeverFails := fun hV => fault ⟨hV, rfl⟩
    refine gives_fault (· = file.part) h₁.sound rfl fun s₂ h₂ heq hc => ?_
    have ho : V.Open s₂.storage output file.part d := by
      rw [heq]; exact takes.opened
    refine (gives_discard h₂.sound hp ho).bind fun _ s₃ ⟨h₃, hg⟩ => ?_
    exact gives_pure (Or.inr ⟨rfl, .of_gone (h₁.quiet.trans h₂) hc h₃ hg, hfault⟩)
  | @all d _ _ form takes =>
    refine (gives_report (· = file.part) h₁.sound rfl).bind fun _ s₂ ⟨h₂, heq₂⟩ => ?_
    have ho : V.Open s₂.storage output file.part (bs ++ d) := by
      rw [heq₂]; exact takes.opened
    refine (gives_close h₂.sound ho).bind fun r s₃ ⟨h₃, hr⟩ => ?_
    cases r with
    | ok _ =>
      refine gives_pure (Or.inl ⟨rfl, (h₁.trans h₂).trans h₃, bs ++ d, hr, ?_⟩)
      exact StreamKind.encode_file hk himage form
    | error f =>
      refine gives_fault (· = file.part) h₃.sound rfl fun s₄ h₄ _ hc => ?_
      refine (gives_removePart h₄.sound hp).bind fun _ s₅ ⟨h₅, hg⟩ => ?_
      have hq : Quiet V (· = file.part) s s₄ := ((h₁.trans h₂).trans h₃).quiet.trans h₄
      exact gives_pure (Or.inr ⟨rfl, .of_gone hq hc h₅ hg, hr⟩)

end Writer

/-- A completed file has been moved into its place, which was free. -/
structure Placing (V : FileView σ ω) (file : OpenFile ω) (content : Bytes)
    (s s' : Surroundings σ) : Prop where
  sound : V.Sound s'.storage
  other {p : Path} : p ≠ file.part → p ≠ file.path → V.file s'.storage p = V.file s.storage p
  part : V.file s'.storage file.part = none
  free : V.file s.storage file.path = none
  there : V.file s'.storage file.path = some content
  pipeline : s.pipeline.Grows s'.pipeline
  signer : s'.signer = s.signer
  asked : s'.asked = s.asked
  calm : s.meanwhile = [] → s'.meanwhile = []
  placed : s'.placed = s.placed ++ [file.path]
  unread : s'.unread = s.unread

lemma Placing.after {content : Bytes} (h' : Placing V file content s₁ s')
    (h : Quiet V (· = file.part) s s₁) (hne : file.part ≠ file.path) :
    Placing V file content s s' :=
  { h' with
    other := fun hx hy => (h'.other hx hy).trans (h.file hx)
    free := (h.file hne.symm).symm.trans h'.free
    pipeline := h.pipeline.trans h'.pipeline
    signer := h'.signer.trans h.signer
    asked := h'.asked.trans h.asked
    calm := fun hm => h'.calm (h.calm hm)
    placed := by rw [h'.placed, h.placed]
    unread := h'.unread.trans h.unread }

namespace Writer

lemma gives_publish {content : Bytes} (hs : V.Sound s.storage) (hpath : V.Reach file.path)
    (hp : V.Reach file.part) (hne : file.part ≠ file.path)
    (hc : V.file s.storage file.part = some content) :
    (w.publish file : Act σ _).Gives s fun b s' =>
      (b = true ∧ Placing V file content s s' ∧ s'.pipeline = s.pipeline) ∨
      (b = false ∧ ((V.file s.storage file.path).isSome ∧ Touches V (· = file.part) s s' ∧
          Gone V file.part s' ∨
        GivenUp V w.token file.part s s' ∧ ¬V.NeverFails)) := by
  unfold publish
  refine (gives_present hs hpath).bind ?_
  rintro b s₁ ⟨rfl, rfl⟩
  cases hfree : V.file s₁.storage file.path with
  | some c =>
    simp only [Option.isSome_some, if_true]
    refine (gives_report (· = file.part) hs rfl).bind ?_
    rintro _ s₂ ⟨h₂, -⟩
    refine (gives_removePart h₂.sound hp).bind ?_
    rintro _ s₃ ⟨h₃, hg⟩
    exact gives_pure (Or.inr ⟨rfl, Or.inl ⟨trivial, h₂.trans h₃, hg⟩⟩)
  | none =>
    simp only [Option.isSome_none, Bool.false_eq_true, if_false]
    refine (gives_rename hs hp hpath hne).bind fun r s₂ hr => ?_
    cases r with
    | ok _ =>
      obtain ⟨h₂, hpart, c, hc', hthere⟩ := hr
      rw [hc] at hc'
      cases hc'
      refine gives_told.bind ?_
      rintro _ s₃ rfl
      refine gives_pure (Or.inl ⟨rfl, ?_, h₂.pipeline⟩)
      refine ⟨h₂.sound, ?_, hpart, hfree, hthere, ?_, h₂.signer, h₂.asked, ?_, ?_, ?_⟩
      · exact fun hx hy => h₂.file fun h => h.elim hx hy
      · exact h₂.quiet.pipeline
      · exact h₂.quiet.calm
      · rw [Surroundings.placed_told, h₂.placed]
        rfl
      · rw [Surroundings.unread_told, h₂.unread]
        exact List.append_nil _
    | error f =>
      obtain ⟨h₂, -, hfault⟩ := hr
      refine gives_fault (· = file.part) h₂.sound rfl fun s₃ h₃ _ hcan => ?_
      refine (gives_removePart h₃.sound hp).bind fun _ s₄ ⟨h₄, hg⟩ => ?_
      have hup : GivenUp V w.token file.part s₁ s₄ := .of_gone (h₂.quiet.trans h₃) hcan h₄ hg
      exact gives_pure (Or.inr ⟨rfl, Or.inr ⟨hup, hfault (by simp [hc])⟩⟩)

end Writer

/-! ### The signature file -/

/-- What can come of storing a signature file: it is there as a whole, or nothing has changed but
its unfinished file. -/
inductive Storing (V : FileView σ ω) (f : SignatureFile) (p : Path) (s s' : σ) :
    SignatureFile.Stored → Prop where
  | failed {e : Failure} {stuck : Option Failure} (sound : V.Sound s')
    (file : ∀ q, q ≠ Naming.partPath p → V.file s' q = V.file s q)
    (gone : V.file s (Naming.partPath p) = none →
      V.file s' (Naming.partPath p) = none ∨ ¬V.Removes)
    (fault : ¬(V.NeverFails ∧ f.encode.isOk ∧ V.file s (Naming.partPath p) = none)) :
    Storing V f p s s' ⟨.error e, stuck⟩
  | stored {image : Bytes} (sound : V.Sound s') (form : f.encode = .ok image)
    (free : V.file s (Naming.partPath p) = none)
    (file : V.file s' = update (update (V.file s) (Naming.partPath p) none) p (some image)) :
    Storing V f p s s' ⟨.ok (), none⟩

section

variable {f : SignatureFile} {p q : Path} {t t' : σ} {stored : SignatureFile.Stored}

lemma Storing.sound (h : Storing V f p t t' stored) : V.Sound t' := by
  cases h <;> assumption

lemma Storing.other (h : Storing V f p t t' stored) (hpart : q ≠ Naming.partPath p) (hq : q ≠ p) :
    V.file t' q = V.file t q := by
  cases h with
  | failed _ hf => exact hf q hpart
  | stored _ _ _ hf => rw [hf, Function.update_of_ne hq, Function.update_of_ne hpart]

end

namespace SignatureFile

variable {t : σ} {image : Bytes} {p : Path}

lemma puts_place (image : Bytes) (hs : V.Sound t) (hp : V.Reach p) (hpart : V.Reach part)
    (hne : part ≠ p) :
    match place image part p t with
    | (.ok (), t') => V.Sound t' ∧ V.file t part = none ∧
        V.file t' = update (update (V.file t) part none) p (some image)
    | (.error _, t') => V.Sound t' ∧ (∀ q, q ≠ part → V.file t' q = V.file t q) ∧
        (V.file t part = none → ¬V.NeverFails) := by
  unfold place
  rcases hcreate : Storage.create part t with ⟨r, t₁⟩
  cases r with
  | error e =>
    obtain ⟨h₁, hf₁⟩ := V.create_error hs hpart hcreate
    exact ⟨h₁, fun q _ => by rw [hf₁], fun hn => V.not_neverFails_of_create hs hpart hn hcreate⟩
  | ok o =>
    obtain ⟨h₁, hfree, ho₁, c₁, hf₁⟩ := V.create_ok hs hpart hcreate
    have hputs := FileView.puts_writeAll image h₁ ho₁
    simp only
    rcases hwrite : Sink.writeAll image (o, t₁) with ⟨r, o₂, t₂⟩
    rw [hwrite] at hputs
    cases hputs with
    | part takes fault =>
      obtain ⟨c₂, hf₂⟩ := takes.file
      refine ⟨takes.sound, fun q hq => ?_, fun _ hV => fault ⟨hV, rfl⟩⟩
      rw [hf₂, hf₁, Function.update_of_ne hq, Function.update_of_ne hq]
    | all form takes =>
      cases form
      obtain ⟨c₂, hf₂⟩ := takes.file
      simp only
      rcases hclose : Storage.close o₂ t₂ with ⟨r, t₃⟩
      cases r with
      | error e =>
        obtain ⟨h₃, c₃, hf₃⟩ := V.close_error takes.sound takes.opened hclose
        refine ⟨h₃, fun q hq => ?_,
          fun _ => V.not_neverFails_of_close takes.sound takes.opened hclose⟩
        rw [hf₃, hf₂, hf₁, Function.update_of_ne hq, Function.update_of_ne hq,
          Function.update_of_ne hq]
      | ok _ =>
        obtain ⟨h₃, hf₃⟩ := V.close_ok takes.sound takes.opened hclose
        simp only
        rcases hrename : Storage.rename part p t₃ with ⟨r, t₄⟩
        cases r with
        | error e =>
          obtain ⟨h₄, hf₄⟩ := V.rename_error h₃ hpart hp hne hrename
          refine ⟨h₄, fun q hq => ?_,
            fun _ => V.not_neverFails_of_rename h₃ hpart hp hne (by simp [hf₃]) hrename⟩
          rw [hf₄, hf₃, hf₂, hf₁, Function.update_of_ne hq, Function.update_of_ne hq,
            Function.update_of_ne hq]
        | ok _ =>
          obtain ⟨h₄, c₄, hc₄, hf₄⟩ := V.rename_ok h₃ hpart hp hne hrename
          refine ⟨h₄, hfree, ?_⟩
          rw [hf₃, Function.update_self] at hc₄
          cases hc₄
          rw [hf₄, hf₃, hf₂, hf₁]
          simp only [Function.update_idem, List.nil_append]

lemma puts_store (f : SignatureFile) (hs : V.Sound t) (hp : V.Reach p)
    (hpart : V.Reach (Naming.partPath p)) (hne : Naming.partPath p ≠ p) :
    Storing V f p t (f.store p t).2 (f.store p t).1 := by
  unfold store
  cases form : f.encode with
  | error e =>
    exact .failed hs (fun _ _ => rfl) Or.inl fun h => by
      simp [form, Except.isOk, Except.toBool] at h
  | ok image =>
    have h := puts_place image hs hp hpart hne
    simp only
    rcases hplace : place image (Naming.partPath p) p t with ⟨r, t₁⟩
    rw [hplace] at h
    cases r with
    | ok _ => exact .stored h.1 form h.2.1 h.2.2
    | error e =>
      obtain ⟨h₁, hf₁, hfault⟩ := h
      have hfault' : ¬(V.NeverFails ∧ f.encode.isOk ∧ V.file t (Naming.partPath p) = none) :=
        fun hV => hfault hV.2.2 hV.1
      simp only [V.present_eq h₁ hpart]
      cases hthere : V.file t₁ (Naming.partPath p) with
      | none => exact .failed h₁ hf₁ (fun _ => Or.inl hthere) hfault'
      | some c =>
        simp only [Option.isSome_some, if_true]
        rcases hremove : Storage.remove (Naming.partPath p) t₁ with ⟨r, t₂⟩
        cases r with
        | ok _ =>
          obtain ⟨h₂, hf₂⟩ := V.remove_ok h₁ hpart hremove
          refine .failed h₂ (fun q hq => ?_) (fun _ => Or.inl (by simp [hf₂])) hfault'
          rw [hf₂, Function.update_of_ne hq, hf₁ q hq]
        | error e' =>
          obtain ⟨h₂, hf₂⟩ := V.remove_error h₁ hpart hremove
          exact .failed h₂ (fun q hq => by rw [hf₂, hf₁ q hq])
            (fun _ => Or.inr (V.not_removes h₁ hpart (by simp [hthere]) hremove)) hfault'

end SignatureFile

lemma gives_store {f : SignatureFile} {p : Path} (hs : V.Sound s.storage) (hp : V.Reach p)
    (hpart : V.Reach (Naming.partPath p)) (hne : Naming.partPath p ≠ p) :
    (onStorage (f.store p)).Gives s fun stored s' =>
      Touches V (fun q => q = Naming.partPath p ∨ q = p) s s' ∧
        Storing V f p s.storage s'.storage stored := by
  have h := SignatureFile.puts_store f hs hp hpart hne
  refine gives_onStorage.mono ?_
  rintro stored s' ⟨rfl, rfl⟩
  refine ⟨⟨?_, fun {q} hq => ?_, rfl, rfl, rfl, rfl, rfl, rfl, rfl⟩, h⟩
  · exact h.sound
  · rw [not_or] at hq
    exact h.other hq.1 hq.2

def StreamKind.signatures (k : StreamKind) (scheme : Scheme) (entire metadata : Hash)
    (a b : Bytes) : SignatureFile :=
  ⟨k.signatureHeader, ⟨entire, scheme, a⟩, ⟨metadata, scheme, b⟩⟩

/-- What can come of signing a record file that is in place. -/
inductive Signing (V : FileView σ ω) (w : Writer ω) (path : Path) (entire metadata : Hash)
    (s s' : Surroundings σ) : Option Path → Prop where
  | unread {f : Failure} (quiet : Quiet V (fun _ => False) (s.told (.digestFailed path f)) s')
    (cancelled : s'.pipeline.isCancelled w.token = true) (fault : ¬V.NeverFails) :
    Signing V w path entire metadata s s' none
  | unsigned {e : SignerError}
    (answer : s.signer.sign s.asked.length entire.bytes = .error e)
    (quiet : Quiet V (fun _ => False) (s.having [entire.bytes]) s')
    (cancelled : s'.pipeline.isCancelled w.token = true) :
    Signing V w path entire metadata s s' none
  | halfSigned {a : Bytes} {e : SignerError}
    (answer : s.signer.sign s.asked.length entire.bytes = .ok a)
    (refusal : s.signer.sign (s.asked.length + 1) metadata.bytes = .error e)
    (quiet : Quiet V (fun _ => False) (s.having [entire.bytes, metadata.bytes]) s')
    (cancelled : s'.pipeline.isCancelled w.token = true) :
    Signing V w path entire metadata s s' none
  | unsaved {a b : Bytes} {target : Path}
    (answer : s.signer.sign s.asked.length entire.bytes = .ok a)
    (answer' : s.signer.sign (s.asked.length + 1) metadata.bytes = .ok b)
    (name : target = Naming.signaturePath path w.config.kind.signatureExtension)
    (quiet : Quiet V (· = Naming.partPath target) (s.having [entire.bytes, metadata.bytes]) s')
    (cancelled : s'.pipeline.isCancelled w.token = true)
    (gone : V.file s.storage (Naming.partPath target) = none → Gone V (Naming.partPath target) s')
    (fault : ¬(V.NeverFails ∧
      (w.config.kind.signatures s.signer.scheme entire metadata a b).encode.isOk ∧
        V.file s.storage (Naming.partPath target) = none)) :
    Signing V w path entire metadata s s' none
  | saved {a b image : Bytes} {target : Path}
    (answer : s.signer.sign s.asked.length entire.bytes = .ok a)
    (answer' : s.signer.sign (s.asked.length + 1) metadata.bytes = .ok b)
    (name : target = Naming.signaturePath path w.config.kind.signatureExtension)
    (form : (w.config.kind.signatures s.signer.scheme entire metadata a b).encode = .ok image)
    (free : V.file s.storage (Naming.partPath target) = none)
    (touches : Touches V (fun p => p = Naming.partPath target ∨ p = target)
      (s.having [entire.bytes, metadata.bytes]) s')
    (file : V.file s'.storage =
      update (update (V.file s.storage) (Naming.partPath target) none) target (some image)) :
    Signing V w path entire metadata s s' (some target)

namespace Writer

variable {which : SignedPart} {hash entire metadata : Hash}

lemma gives_signPart (touched : Path → Prop) (hs : V.Sound s.storage) :
    (w.signPart path which hash : Act σ _).Gives s fun r s' =>
      match r with
      | some signed => ∃ a, s.signer.sign s.asked.length hash.bytes = .ok a ∧
          signed = ⟨hash, s.signer.scheme, a⟩ ∧ s' = s.having [hash.bytes]
      | none => ∃ e, s.signer.sign s.asked.length hash.bytes = .error e ∧
          Quiet V touched (s.having [hash.bytes]) s' ∧ s'.pipeline.isCancelled w.token = true := by
  unfold signPart
  refine gives_sign.bind ?_
  rintro r s₁ ⟨hr, rfl⟩
  cases r with
  | ok a =>
    rintro _ _ ⟨⟩
    exact ⟨a, hr.symm, rfl, rfl⟩
  | error e =>
    exact gives_fault touched (s := s.having _) hs rfl fun s₂ h₂ _ hc =>
      gives_pure ⟨e, hr.symm, h₂, hc⟩

/-- What can come of saving signatures: their file is there as a whole, or the token is
cancelled. -/
def Saving (V : FileView σ ω) (w : Writer ω) (f : SignatureFile) (target : Path)
    (s s' : Surroundings σ) : Option Path → Prop
  | some p => p = target ∧ V.file s.storage (Naming.partPath target) = none ∧
      ∃ image, f.encode = .ok image ∧
      Touches V (fun p => p = Naming.partPath target ∨ p = target) s s' ∧
      V.file s'.storage =
        update (update (V.file s.storage) (Naming.partPath target) none) target (some image)
  | none => Quiet V (· = Naming.partPath target) s s' ∧
      s'.pipeline.isCancelled w.token = true ∧
      (V.file s.storage (Naming.partPath target) = none → Gone V (Naming.partPath target) s') ∧
      ¬(V.NeverFails ∧ f.encode.isOk ∧ V.file s.storage (Naming.partPath target) = none)

lemma gives_saveSignatures {target : Path} {file metadata : SignedHash}
    (name : target = Naming.signaturePath path w.config.kind.signatureExtension)
    (hs : V.Sound s.storage) (htarget : V.Reach target) (hpart : V.Reach (Naming.partPath target))
    (hne : Naming.partPath target ≠ target) :
    (w.saveSignatures path file metadata : Act σ _).Gives s fun r s' =>
      Saving V w ⟨w.config.kind.signatureHeader, file, metadata⟩ target s s' r := by
  unfold saveSignatures
  rw [← name]
  refine (gives_store hs htarget hpart hne).bind ?_
  rintro stored s₁ ⟨h₁, hstored⟩
  cases hstored with
  | @stored image _ form free hf =>
    refine (gives_report (fun p => p = Naming.partPath target ∨ p = target) h₁.sound rfl).bind ?_
    rintro _ s₃ ⟨h₃, heq⟩
    exact gives_pure ⟨rfl, free, image, form, h₁.trans h₃, by rw [heq]; exact hf⟩
  | @failed e stuck _ hf gone fault =>
    have h₁' : Touches V (· = Naming.partPath target) s s₁ := { h₁ with file := hf _ }
    have hlast : ∀ s₂, Touches V (· = Naming.partPath target) s s₂ → s₂.storage = s₁.storage →
        (do report (.signatureFailed target e); cancel w.token; return none :
          Act σ (Option Path)).Gives s₂ fun r s' =>
            Saving V w ⟨w.config.kind.signatureHeader, file, metadata⟩ target s s' r :=
      fun s₂ h₂ heq => gives_fault (· = Naming.partPath target) h₂.sound rfl
        fun s₃ h₃ heq₃ hc => gives_pure ⟨h₂.quiet.trans h₃, hc,
          fun h => by rw [Gone, heq₃, heq]; exact gone h, fault⟩
    cases stuck with
    | none => exact hlast s₁ h₁' rfl
    | some f =>
      refine (gives_report (· = Naming.partPath target) h₁.sound rfl).bind ?_
      rintro _ s₂ ⟨h₂, heq⟩
      exact hlast s₂ (h₁'.trans h₂) heq

/-- **Signing** asks for at most two signatures: over the file's bytes, then over its metadata. -/
lemma gives_signFile {content : Bytes} {target : Path}
    (name : target = Naming.signaturePath path w.config.kind.signatureExtension)
    (hs : V.Sound s.storage) (hpath : V.Reach path) (htarget : V.Reach target)
    (hpart : V.Reach (Naming.partPath target)) (hne : Naming.partPath target ≠ target)
    (hc : V.file s.storage path = some content) :
    (w.signFile path metadata : Act σ _).Gives s fun r s' =>
      Signing V w path (Hash.digest content) metadata s s' r := by
  unfold signFile
  refine (gives_digest (fun _ => False) hs hpath).bind fun r s₁ ⟨h₁, hr⟩ => ?_
  cases r with
  | error f =>
    have hfault := hr (by simp [hc])
    refine gives_told.bind ?_
    rintro _ s₂ rfl
    have h₂ := h₁.told (.digestFailed path f)
    refine (gives_cancel (fun _ => False) h₂.sound).bind fun _ s₃ ⟨h₃, _, hcan⟩ => ?_
    exact gives_pure (.unread (h₂.quiet.trans h₃) hcan hfault)
  | ok entire =>
    obtain ⟨c, hc', rfl⟩ := hr
    rw [hc] at hc'
    cases hc'
    refine (gives_signPart (fun _ => False) h₁.sound).bind fun r s₂ hr => ?_
    rw [h₁.signer, h₁.asked] at hr
    cases r with
    | none =>
      obtain ⟨e, answer, h₂, hcan⟩ := hr
      exact gives_pure (.unsigned answer ((h₁.having _).quiet.trans h₂) hcan)
    | some first =>
      obtain ⟨a, answer, rfl, rfl⟩ := hr
      refine (gives_signPart (s := s₁.having _) (fun _ => False) h₁.sound).bind fun r s₃ hr => ?_
      rw [show (s₁.having [(Hash.digest content).bytes]).signer = s.signer from h₁.signer,
        show (s₁.having [(Hash.digest content).bytes]).asked =
          s.asked ++ [(Hash.digest content).bytes] by rw [← h₁.asked]; rfl,
        List.length_append] at hr
      cases r with
      | none =>
        obtain ⟨e, refusal, h₃, hcan⟩ := hr
        rw [Surroundings.having_having] at h₃
        exact gives_pure (.halfSigned answer refusal ((h₁.having _).quiet.trans h₃) hcan)
      | some second =>
        obtain ⟨b, answer', rfl, rfl⟩ := hr
        rw [Surroundings.having_having]
        refine (gives_saveSignatures name (s := s₁.having _) h₁.sound htarget hpart hne).mono ?_
        intro r s' hr
        have hsame : V.file s₁.storage = V.file s.storage := funext fun _ => h₁.file id
        cases r with
        | none =>
          obtain ⟨h₄, hcan, gone, fault⟩ := hr
          refine .unsaved answer answer' name
            ((h₁.having _).quiet.mono (fun _ h => h.elim) |>.trans h₄) hcan ?_ ?_
          · rw [← hsame]
            exact gone
          · rw [← hsame]
            exact fault
        | some p =>
          obtain ⟨rfl, free, image, form, h₄, hf⟩ := hr
          have h₁' : Touches V (fun q => q = Naming.partPath p ∨ q = p) s s₁ :=
            { h₁ with file := fun _ => h₁.file id }
          refine .saved answer answer' name form ?_ ((h₁'.having _).trans h₄) ?_
          · rw [← hsame]
            exact free
          · rw [← hsame]
            exact hf

end Writer

/-! ### Finishing -/

/-- What is known of a record file that has been put in place. -/
def OpenFile.written (file : OpenFile ω) (kind : StreamKind) (items : List Item) (finish : Hash)
    (signature : Option Path) : WrittenFile :=
  { record := file.path
    signature := signature
    start := file.start
    finish := finish
    metadata := (file.whole kind items finish).metadataHash
    block := file.window.alignment.number
    items := items.length }

/-- What can come of finishing a file that holds these items. -/
inductive Finishing (V : FileView σ ω) (w : Writer ω) (file : OpenFile ω) (items : List Item)
    (s s' : Surroundings σ) : Option WrittenFile → Prop where
  | noEnd (fault : ¬s.Ready file.lastLink w.token) (givenUp : GivenUp V w.token file.part s s') :
    Finishing V w file items s s' none
  | failed (fault : ¬V.NeverFails) (givenUp : GivenUp V w.token file.part s s') :
    Finishing V w file items s s' none
  | blocked (there : (V.file s.storage file.path).isSome) (quiet : Quiet V (· = file.part) s s')
    (gone : Gone V file.part s') :
    Finishing V w file items s s' none
  | placed {finish : Hash} {content : Bytes} {s₁ : Surroundings σ} {signature : Option Path}
    (resolved : s₁.pipeline.stateOf file.lastLink = .resolved finish)
    (undisturbed : s.Ready file.lastLink w.token → s₁.pipeline = s.pipeline)
    (form : (file.whole w.config.kind items finish).encode = .ok content)
    (placing : Placing V file content s s₁)
    (signing : Signing V w file.path (Hash.digest content)
      (file.whole w.config.kind items finish).metadataHash s₁ s' signature) :
    Finishing V w file items s s' (some (file.written w.config.kind items finish signature))

/-- The paths at which a record file of some name and its signatures come to stand. -/
structure FileView.Reaches (V : FileView σ ω) (kind : StreamKind) (path : Path) : Prop where
  record : V.Reach path
  part : V.Reach (Naming.partPath path)
  signature : V.Reach (Naming.signaturePath path kind.signatureExtension)
  signaturePart :
    V.Reach (Naming.partPath (Naming.signaturePath path kind.signatureExtension))

lemma FileView.Reaches.of_imp {τ υ : Type} [Storage τ υ] {W : FileView τ υ} {kind : StreamKind}
    {path : Path} (h : V.Reaches kind path) (hreach : ∀ {p}, V.Reach p → W.Reach p) :
    W.Reaches kind path :=
  ⟨hreach h.record, hreach h.part, hreach h.signature, hreach h.signaturePart⟩

lemma partPath_ne (p : Path) : Naming.partPath p ≠ p := by
  intro h
  have h := congrArg (fun p : Path => p.text.length) h
  simp [Naming.partPath, Path.append, Naming.partSuffix] at h

namespace Writer

/-- **Finishing a file** puts it in place as a whole or not at all. -/
theorem gives_finishFile (hk : w.config.kind.validate = .ok ()) (hs : V.Sound s.storage)
    (hreach : V.Reaches w.config.kind file.path)
    (hf : file.Holds V w.config.kind items s.storage) :
    (w.finishFile file : Act σ _).Gives s fun r s' => Finishing V w file items s s' r := by
  unfold finishFile
  have hp : V.Reach file.part := by rw [hf.part]; exact hreach.part
  have hne : file.part ≠ file.path := by rw [hf.part]; exact partPath_ne _
  refine (gives_await (· = file.part) hs).bind fun r s₁ ⟨h₁, heq₁, hsame, hr⟩ => ?_
  cases r with
  | error e =>
    obtain ⟨bs, ho, -⟩ := hf.taken
    refine gives_fault (· = file.part) h₁.sound rfl fun s₂ h₂ heq₂ hc => ?_
    have ho : V.Open s₂.storage file.output file.part bs := by rw [heq₂, heq₁]; exact ho
    refine (gives_discard h₂.sound hp ho).bind fun _ s₃ ⟨h₃, hg⟩ => ?_
    exact gives_pure (.noEnd hr (.of_gone (h₁.trans h₂) hc h₃ hg))
  | ok finish =>
    refine (gives_report (· = file.part) h₁.sound rfl).bind fun _ s₂ ⟨h₂, heq₂⟩ => ?_
    have h₂' : Quiet V (· = file.part) s s₂ := h₁.trans h₂.quiet
    have hf₂ : file.Holds V w.config.kind items s₂.storage := by rw [heq₂, heq₁]; exact hf
    unfold finishAt
    refine (gives_complete hk h₂.sound hp hf₂).bind ?_
    rintro b s₃ (⟨rfl, h₃, content, hc, form⟩ | ⟨rfl, hup, hfault⟩)
    · simp only [if_true]
      refine (gives_publish h₃.sound hreach.record hp hne hc).bind ?_
      have h₃' : Quiet V (· = file.part) s s₃ := h₂'.trans h₃.quiet
      rintro b s₄ (⟨rfl, h₄, hpipe⟩ | ⟨rfl, ⟨hthere, h₄, hg⟩ | ⟨h₄, hfault⟩⟩)
      · simp only [if_true]
        refine (gives_signFile rfl h₄.sound hreach.record hreach.signature hreach.signaturePart
          (partPath_ne _) h₄.there).bind fun signature s₅ hsign => ?_
        rw [metadataHash_eq hk hf] at hsign
        rintro _ _ ⟨⟩
        rw [metadataHash_eq hk hf, hf.count]
        refine .placed ?_ ?_ form (h₄.after h₃' hne) hsign
        · rw [hpipe, h₃.pipeline, h₂.pipeline]
          exact hr.1
        · rw [hpipe, h₃.pipeline, h₂.pipeline]
          exact hsame
      · refine gives_pure (.blocked ?_ (h₃'.trans h₄.quiet) hg)
        rw [← h₃'.file hne.symm]
        exact hthere
      · exact gives_pure (.failed hfault (h₄.after h₃'))
    · exact gives_pure (.failed hfault (hup.after h₂'))

end Writer

end SealedStream
