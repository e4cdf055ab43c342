import SealedStream.Proofs.Record.Image
import SealedStream.Proofs.Writer.Act
import SealedStream.Writer.Opening

/-!
What can come of opening a record file, and of adding an item to it.

Either the file is there as it should be, or it is given up: the token is cancelled then, and
nothing but the unfinished file has been touched.
-/

namespace SealedStream

variable {σ ω : Type} [Storage σ ω] {V : FileView σ ω} {s s' : Surroundings σ} {w : Writer ω}
  {path part : Path} {o : ω} {bs : Bytes}

/-! ### Throwing an unfinished file away -/

namespace Act

/-- The file at `part` is gone, unless it cannot be removed. -/
def Gone (V : FileView σ ω) (part : Path) (s : Surroundings σ) : Prop :=
  V.file s.storage part = none ∨ ¬V.Removes

lemma gives_removePart (hs : V.Sound s.storage) (hp : V.Reach part) :
    (removePart part : Act σ _).Gives s fun _ s' => Touches V (· = part) s s' ∧ Gone V part s' := by
  unfold removePart
  refine (gives_remove hs hp).bind fun r s₁ ⟨ht, hr⟩ => ?_
  cases r with
  | ok _ => exact gives_pure ⟨ht, Or.inl hr⟩
  | error f =>
    have hg : Gone V part s₁ := by
      rcases hc : V.file s.storage part with _ | c
      · exact Or.inl (hr.1.trans hc)
      · exact Or.inr (hr.2 (by simp [hc]))
    simp only
    split
    · exact gives_pure ⟨ht, hg⟩
    · refine (gives_report (· = part) ht.sound rfl).mono fun _ s' ⟨ht', heq⟩ => ⟨ht.trans ht', ?_⟩
      rw [Gone, heq]
      exact hg

lemma gives_discard (hs : V.Sound s.storage) (hp : V.Reach part)
    (ho : V.Open s.storage o part bs) :
    (discard o part : Act σ _).Gives s fun _ s' =>
      Touches V (· = part) s s' ∧ Gone V part s' := by
  unfold discard
  refine (gives_close hs ho).bind fun r s₁ ⟨ht, _⟩ => ?_
  have hrest : ∀ s₂, Touches V (· = part) s s₂ →
      (removePart part : Act σ _).Gives s₂ fun _ s' =>
        Touches V (· = part) s s' ∧ Gone V part s' := fun s₂ h =>
    (gives_removePart h.sound hp).mono fun _ _ h' => ⟨h.trans h'.1, h'.2⟩
  cases r with
  | ok _ => exact hrest s₁ ht
  | error f =>
    exact (gives_report (· = part) ht.sound rfl).bind fun _ s₂ h => hrest s₂ (ht.trans h.1)

end Act

open Act

/-- A window has been given up over the file at `part`: the token is cancelled. -/
structure GivenUp (V : FileView σ ω) (t : Token) (part : Path) (s s' : Surroundings σ) : Prop where
  quiet : Quiet V (· = part) s s'
  cancelled : s'.pipeline.isCancelled t = true
  gone : Gone V part s'

lemma GivenUp.of_gone {t : Token} (h : Quiet V (· = part) s s₁)
    (hc : s₁.pipeline.isCancelled t = true) (ht : Touches V (· = part) s₁ s')
    (hg : Gone V part s') : GivenUp V t part s s' :=
  ⟨h.trans ht.quiet, by rw [ht.pipeline]; exact hc, hg⟩

lemma GivenUp.after {t : Token} (h' : GivenUp V t part s₁ s') (h : Quiet V (· = part) s s₁) :
    GivenUp V t part s s' :=
  { h' with quiet := h.trans h'.quiet }

namespace Writer

lemma gives_abandon {window : Window} (touched : Path → Prop) (hs : V.Sound s.storage) :
    (w.abandon window : Act σ _).Gives s fun ph s' => ph = .skipping window .aborted ∧
      Quiet V touched s s' ∧ s'.storage = s.storage ∧ s'.pipeline.isCancelled w.token = true := by
  unfold abandon
  exact (gives_cancel touched hs).bind fun _ s₁ h => gives_pure ⟨rfl, h⟩

lemma gives_abandon_part {window : Window} {s₀ : Surroundings σ}
    (ht : Touches V (· = part) s₀ s) (hg : Gone V part s) :
    (w.abandon window : Act σ _).Gives s fun ph s' =>
      ph = .skipping window .aborted ∧ GivenUp V w.token part s₀ s' := by
  refine (gives_abandon (· = part) ht.sound).mono fun ph s' ⟨hph, hq, heq, hc⟩ => ⟨hph, ?_⟩
  exact ⟨ht.quiet.trans hq, hc, by rw [Gone, heq]; exact hg⟩

lemma gives_clearStale (hs : V.Sound s.storage) (hp : V.Reach part) :
    (clearStale part : Act σ _).Gives s fun b s' => Touches V (· = part) s s' ∧
      (b = true → V.file s'.storage part = none) ∧ (b = false → ¬V.Removes) := by
  unfold clearStale
  refine (gives_present hs hp).bind ?_
  rintro b s₁ ⟨rfl, rfl⟩
  cases hf : V.file s₁.storage part with
  | none => exact gives_pure ⟨.refl hs, fun _ => hf, by simp⟩
  | some c =>
    simp only [Option.isSome_some, if_true]
    refine (gives_report (· = part) hs rfl).bind fun _ s₂ ⟨h₂, heq⟩ => ?_
    refine (gives_remove h₂.sound hp).bind fun r s₃ ⟨h₃, hr⟩ => ?_
    cases r with
    | ok _ => exact gives_pure ⟨h₂.trans h₃, fun _ => hr, by simp⟩
    | error f =>
      have hstuck : ¬V.Removes := hr.2 (by simp [heq, hf])
      refine (gives_report (· = part) h₃.sound rfl).bind fun _ s₄ ⟨h₄, _⟩ => ?_
      exact gives_pure ⟨(h₂.trans h₃).trans h₄, by simp, fun _ => hstuck⟩

lemma gives_createPart (hs : V.Sound s.storage) (hp : V.Reach part) :
    (createPart path part : Act σ (Option ω)).Gives s fun r s' => Touches V (· = part) s s' ∧
      match r with
      | some o => V.Open s'.storage o part []
      | none => Gone V part s' ∧ ¬V.NeverFails := by
  unfold createPart
  refine (gives_clearStale hs hp).bind fun b s₁ ⟨h₁, hfree, hstuck⟩ => ?_
  cases b with
  | false =>
    have hr := hstuck rfl
    exact gives_pure ⟨h₁, Or.inr hr, fun hV => hr hV.remove⟩
  | true =>
    have hfree := hfree rfl
    simp only [if_true]
    refine (gives_create h₁.sound hp).bind fun r s₂ ⟨h₂, hr⟩ => ?_
    cases r with
    | ok o =>
      refine (gives_report (· = part) h₂.sound rfl).bind fun _ s₃ ⟨h₃, heq⟩ => ?_
      exact gives_pure ⟨(h₁.trans h₂).trans h₃, by simpa [heq] using hr.2⟩
    | error f =>
      refine (gives_report (· = part) h₂.sound rfl).bind fun _ s₃ ⟨h₃, heq⟩ => ?_
      refine gives_pure ⟨(h₁.trans h₂).trans h₃, Or.inl ?_, hr.2 hfree⟩
      rw [heq, hr.1, hfree]

end Writer

/-! ### The open file -/

/-- The open file holds its front and these items, all of it taken by its output. -/
structure OpenFile.Holds (V : FileView σ ω) (kind : StreamKind) (items : List Item)
    (file : OpenFile ω) (s : σ) : Prop where
  part : file.part = Naming.partPath file.path
  count : file.items = items.length
  metadata : file.metadata =
    Sha2.Hasher.new384.update (Section.headerBytes kind.header ++ file.start.bytes)
  taken : ∃ bs, V.Open s file.output file.part bs ∧
    Section.image (.header kind.header :: .start file.start :: items.map .item) = .ok bs

namespace Writer

lemma gives_openFrom {object : StreamObject} {window : Window} {start : Hash}
    (hs : V.Sound s.storage) (hp : V.Reach (Naming.partPath path)) :
    (w.openFrom object window path start : Act σ _).Gives s fun ph s' =>
      (∃ file, ph = .writing file ∧ Touches V (· = Naming.partPath path) s s' ∧
        file.Holds V w.config.kind [] s'.storage ∧ file.path = path ∧ file.start = start ∧
        file.lastLink = w.runningHash ∧ file.window = window ∧ file.first = object.timestamp) ∨
      (ph = .skipping window .aborted ∧ GivenUp V w.token (Naming.partPath path) s s' ∧
        ¬V.NeverFails) := by
  unfold openFrom
  refine (gives_createPart hs hp).bind fun r s₁ ⟨h₁, hr⟩ => ?_
  cases r with
  | none =>
    refine (gives_abandon_part h₁ hr.1).mono fun ph s' h => ?_
    exact Or.inr ⟨h.1, h.2, hr.2⟩
  | some output =>
    refine (gives_writeSections h₁.sound hr).bind ?_
    rintro ⟨r, output'⟩ s₂ ⟨h₂, hputs⟩
    cases hputs with
    | @part d _ _ f takes fault =>
      refine (gives_report (· = Naming.partPath path) h₂.sound rfl).bind fun _ s₃ ⟨h₃, heq⟩ => ?_
      have ho : V.Open s₃.storage output' (Naming.partPath path) d := by
        rw [heq]; exact takes.opened
      refine (gives_discard h₃.sound hp ho).bind fun _ s₄ ⟨h₄, hg⟩ => ?_
      refine (gives_abandon_part (((h₁.trans h₂).trans h₃).trans h₄) hg).mono fun ph s' h => ?_
      exact Or.inr ⟨h.1, h.2, fun hV => fault ⟨hV, rfl⟩⟩
    | @all d _ _ form takes =>
      refine (gives_report (· = Naming.partPath path) h₂.sound rfl).bind fun _ s₃ ⟨h₃, heq⟩ => ?_
      refine gives_pure (Or.inl ⟨_, rfl, (h₁.trans h₂).trans h₃, ?_, rfl, rfl, rfl, rfl, rfl⟩)
      refine ⟨rfl, rfl, ?_, d, ?_, form⟩
      · simp [opening, Section.metadata]
      · rw [heq]
        simpa using takes.opened

end Writer

/-- What can come of opening the window of an object. -/
inductive Opening (V : FileView σ ω) (w : Writer ω) (object : StreamObject) (window : Window)
    (s s' : Surroundings σ) : Phase ω → Prop where
  | unnamed {e : ValueError}
    (name : Naming.recordPath w.config.exportDir object.timestamp w.config.kind = .error e)
    (quiet : Quiet V (fun _ => False) s s')
    (cancelled : s'.pipeline.isCancelled w.token = true) :
    Opening V w object window s s' (.skipping window .aborted)
  | there {path : Path}
    (name : Naming.recordPath w.config.exportDir object.timestamp w.config.kind = .ok path)
    (there : (V.file s.storage path).isSome)
    (same : Touches V (fun _ => False) s s') :
    Opening V w object window s s' (.skipping window .alreadyExists)
  | noStart {path : Path}
    (name : Naming.recordPath w.config.exportDir object.timestamp w.config.kind = .ok path)
    (free : V.file s.storage path = none)
    (fault : ¬s.Ready w.runningHash w.token)
    (quiet : Quiet V (fun _ => False) s s')
    (cancelled : s'.pipeline.isCancelled w.token = true) :
    Opening V w object window s s' (.skipping window .aborted)
  | failed {path : Path}
    (name : Naming.recordPath w.config.exportDir object.timestamp w.config.kind = .ok path)
    (free : V.file s.storage path = none)
    (givenUp : GivenUp V w.token (Naming.partPath path) s s')
    (fault : ¬V.NeverFails) :
    Opening V w object window s s' (.skipping window .aborted)
  | opened {path : Path} {start : Hash} {file : OpenFile ω}
    (name : Naming.recordPath w.config.exportDir object.timestamp w.config.kind = .ok path)
    (free : V.file s.storage path = none)
    (quiet : Quiet V (· = Naming.partPath path) s s')
    (alive : s.pipeline.isCancelled w.token = false)
    (undisturbed : s.Ready w.runningHash w.token → s'.pipeline = s.pipeline)
    (resolved : s'.pipeline.stateOf w.runningHash = .resolved start)
    (holds : file.Holds V w.config.kind [] s'.storage)
    (fields : file.path = path ∧ file.start = start ∧ file.lastLink = w.runningHash ∧
      file.window = window ∧ file.first = object.timestamp) :
    Opening V w object window s s' (.writing file)

/-- What can come of adding an object to the open file. -/
inductive Appending (V : FileView σ ω) (w : Writer ω) (file : OpenFile ω) (object : StreamObject)
    (items : List Item) (s s' : Surroundings σ) : Phase ω → Prop where
  | failed (givenUp : GivenUp V w.token file.part s s')
    (fault : ¬(V.NeverFails ∧ object.item.Fits)) :
    Appending V w file object items s s' (.skipping file.window .aborted)
  | appended {output : ω} (touches : Touches V (· = file.part) s s')
    (holds : OpenFile.Holds V w.config.kind (items ++ [object.item])
      { file with output := output, items := file.items + 1, lastLink := object.link } s'.storage) :
    Appending V w file object items s s'
      (.writing { file with output := output, items := file.items + 1, lastLink := object.link })

namespace Writer

theorem gives_openWindow {object : StreamObject} {window : Window} (hs : V.Sound s.storage)
    (hreach : ∀ path, Naming.recordPath w.config.exportDir object.timestamp w.config.kind =
      .ok path → V.Reach path ∧ V.Reach (Naming.partPath path)) :
    (w.openWindow object window : Act σ _).Gives s fun ph s' =>
      Opening V w object window s s' ph := by
  unfold openWindow
  cases name : Naming.recordPath w.config.exportDir object.timestamp w.config.kind with
  | error e =>
    refine (gives_report (fun _ => False) hs rfl).bind fun _ s₁ ⟨h₁, _⟩ => ?_
    refine (gives_abandon (fun _ => False) h₁.sound).mono ?_
    rintro ph s' ⟨rfl, hq, -, hc⟩
    exact .unnamed name (h₁.quiet.trans hq) hc
  | ok path =>
    obtain ⟨hpath, hpart⟩ := hreach path name
    refine (gives_present hs hpath).bind ?_
    rintro b s₁ ⟨rfl, rfl⟩
    cases hf : V.file s₁.storage path with
    | some c =>
      refine (gives_report (fun _ => False) hs rfl).bind fun _ s₂ ⟨h₂, _⟩ => ?_
      exact gives_pure (.there name (by simp [hf]) h₂)
    | none =>
      refine (gives_await (fun _ => False) hs).bind fun r s₂ ⟨h₂, heq, hsame, hread⟩ => ?_
      cases r with
      | error e =>
        refine (gives_report (fun _ => False) h₂.sound rfl).bind fun _ s₃ ⟨h₃, _⟩ => ?_
        refine (gives_abandon (fun _ => False) h₃.sound).mono ?_
        rintro ph s' ⟨rfl, hq, -, hc⟩
        exact .noStart name hf hread ((h₂.trans h₃.quiet).trans hq) hc
      | ok start =>
        have h₂' : Quiet V (· = Naming.partPath path) s₁ s₂ := h₂.mono fun _ h => h.elim
        refine (gives_openFrom h₂.sound hpart).mono ?_
        rintro ph s' (⟨file, rfl, ht, hholds, hfields⟩ | ⟨rfl, hg, hfault⟩)
        · refine .opened name hf (h₂'.trans ht.quiet) hread.2 ?_ ?_ hholds hfields
          · rw [ht.pipeline]
            exact hsame
          · rw [ht.pipeline]
            exact hread.1
        · exact .failed name hf (hg.after h₂') hfault

theorem gives_append {file : OpenFile ω} {object : StreamObject} {items : List Item}
    (hs : V.Sound s.storage) (hp : V.Reach file.part)
    (hf : file.Holds V w.config.kind items s.storage) :
    (w.append file object : Act σ _).Gives s fun ph s' =>
      Appending V w file object items s s' ph := by
  unfold append
  obtain ⟨bs, ho, himage⟩ := hf.taken
  refine (gives_writeSections hs ho).bind ?_
  rintro ⟨r, output⟩ s₁ ⟨h₁, hputs⟩
  cases hputs with
  | @part d _ _ f takes fault =>
    refine (gives_report (· = file.part) h₁.sound rfl).bind fun _ s₂ ⟨h₂, heq⟩ => ?_
    have ho : V.Open s₂.storage output file.part d := by rw [heq]; exact takes.opened
    refine (gives_discard h₂.sound hp ho).bind fun _ s₃ ⟨h₃, hg⟩ => ?_
    refine (gives_abandon_part ((h₁.trans h₂).trans h₃) hg).mono ?_
    rintro ph s' ⟨rfl, hup⟩
    exact .failed hup fun h => fault ⟨h.1, Section.image_item h.2⟩
  | @all d _ _ form takes =>
    refine gives_pure (.appended h₁ ⟨hf.part, ?_, hf.metadata, bs ++ d, takes.opened, ?_⟩)
    · simp [hf.count]
    · rw [List.map_append]
      exact Section.image_append himage form

end Writer

end SealedStream
