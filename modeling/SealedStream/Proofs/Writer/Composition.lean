import Mathlib.Tactic.Common
import SealedStream.Writer.Run

/-!
Whatever is true of the single actions, and stays true when one is done after the other, is true of
all that the writer does.

Only opening a window creates a record file. All else is kept apart here, since there are things
that a writer does only when it opens one.
-/

namespace SealedStream

variable {σ ω : Type}

/-- The property of actions passes from single actions to those made of them. Waiting for a link is
left out. -/
structure Act.Closed (P : {α : Type} → Act σ α → Prop) : Prop where
  pure {α : Type} (a : α) : P (pure a : Act σ α)
  bind {α β : Type} {m : Act σ α} {f : α → Act σ β} : P m → (∀ a, P (f a)) → P (m >>= f)
  report (e : Event) : P (Act.report e : Act σ Unit)
  onStorage {α : Type} (f : σ → α × σ) : P (Act.onStorage f)
  cancel (t : Token) : P (Act.cancel t : Act σ Unit)
  sign (message : Bytes) : P (Act.sign message : Act σ _)
  signatureScheme : P (Act.signatureScheme : Act σ _)

def Event.isCreation : Event → Bool
  | .stalePart _ => true
  | .stalePartStuck _ _ => true
  | .fileCreated _ => true
  | .createFailed _ _ => true
  | _ => false

/-- The same, as long as no record file is created. -/
structure Act.Uncreating (P : {α : Type} → Act σ α → Prop) : Prop where
  pure {α : Type} (a : α) : P (pure a : Act σ α)
  bind {α β : Type} {m : Act σ α} {f : α → Act σ β} : P m → (∀ a, P (f a)) → P (m >>= f)
  report {e : Event} (he : e.isCreation = false) : P (Act.report e : Act σ Unit)
  onStorage {α : Type} (f : σ → α × σ) : P (Act.onStorage f)
  cancel (t : Token) : P (Act.cancel t : Act σ Unit)
  sign (message : Bytes) : P (Act.sign message : Act σ _)
  signatureScheme : P (Act.signatureScheme : Act σ _)

lemma Act.Closed.uncreating {P : {α : Type} → Act σ α → Prop} (hP : Closed P) : Uncreating P :=
  { hP with report := fun _ => hP.report _ }

/-! ### Clearing -/

section

variable [Storage σ ω]

/-- What clearing has left to do once the open file has been closed. -/
def Act.dropPart (part : Path) : Act σ Unit := do
  match ← Act.remove part with
  | .ok () => pure ()
  | .error f => Act.report (.clearPartStuck part f)
  Act.report .cleared

/-- What clearing does, but for what becomes of the writer. -/
def Writer.sweep (w : Writer ω) : Act σ Unit := do
  match w.phase with
  | .writing file =>
    match ← Act.close file.output with
    | .ok () => pure ()
    | .error f => Act.report (.clearCloseFailed file.part f)
    Act.dropPart file.part
  | _ => Act.report .cleared

/-- **Clearing** leaves the writer without a window. -/
lemma Writer.clear_eq (w : Writer ω) : (w.clear : Act σ _) = do
    w.sweep
    return { w with phase := .idle } := by
  have hdrop (part : Path) : (do
      match ← Act.remove part with
      | .ok () => pure ()
      | .error f => Act.report (.clearPartStuck part f)
      Act.report .cleared
      return { w with phase := .idle } : Act σ (Writer ω)) = do
        Act.dropPart part
        return { w with phase := .idle } := by
    rw [Act.dropPart, bind_assoc]
    refine bind_congr fun r => ?_
    cases r <;> simp only [bind_assoc]
  unfold clear sweep
  cases w.phase with
  | writing file =>
    simp only [bind_assoc]
    refine bind_congr fun r => ?_
    cases r with
    | ok _ => exact hdrop file.part
    | error f =>
      simp only [bind_assoc]
      exact bind_congr fun _ => hdrop file.part
  | _ => rfl

lemma Writer.clear_of_not_writing {w : Writer ω} (hw : ∀ file, w.phase ≠ .writing file) :
    (w.clear : Act σ _) = do
      Act.report .cleared
      return { w with phase := .idle } := by
  unfold clear
  cases hphase : w.phase with
  | writing file => exact (hw file hphase).elim
  | _ => rfl

end

/-! ### Without creating a file -/

namespace Act.Uncreating

variable {P : {α : Type} → Act σ α → Prop} [Storage σ ω] {w : Writer ω} {file : OpenFile ω}

lemma removePart (hP : Uncreating P) (part : Path) : P (Act.removePart part : Act σ _) := by
  refine hP.bind (hP.onStorage _) fun r => ?_
  cases r with
  | ok _ => exact hP.pure _
  | error f =>
    simp only
    split
    · exact hP.pure _
    · exact hP.report rfl

lemma discard (hP : Uncreating P) (o : ω) (part : Path) : P (Act.discard o part : Act σ _) := by
  refine hP.bind (hP.onStorage _) fun r => ?_
  cases r with
  | ok _ => exact hP.removePart part
  | error f => exact hP.bind (hP.report rfl) fun _ => hP.removePart part

omit [Storage σ ω] in
lemma abandon (hP : Uncreating P) (window : Window) : P (w.abandon window : Act σ _) :=
  hP.bind (hP.cancel _) fun _ => hP.pure _

lemma append (hP : Uncreating P) (o : StreamObject) : P (w.append file o : Act σ _) := by
  refine hP.bind (hP.onStorage _) ?_
  rintro ⟨r, output⟩
  cases r with
  | ok _ => exact hP.pure _
  | error f =>
    exact hP.bind (hP.report rfl) fun _ => hP.bind (hP.discard _ _) fun _ => hP.abandon file.window

lemma complete (hP : Uncreating P) (finish : Hash) : P (w.complete file finish : Act σ _) := by
  refine hP.bind (hP.onStorage _) ?_
  rintro ⟨r, output⟩
  cases r with
  | ok _ =>
    refine hP.bind (hP.report rfl) fun _ => hP.bind (hP.onStorage _) fun r => ?_
    cases r with
    | ok _ => exact hP.pure _
    | error f =>
      exact hP.bind (hP.report rfl) fun _ => hP.bind (hP.cancel _) fun _ =>
        hP.bind (hP.removePart _) fun _ => hP.pure _
  | error f =>
    exact hP.bind (hP.report rfl) fun _ => hP.bind (hP.cancel _) fun _ =>
      hP.bind (hP.discard _ _) fun _ => hP.pure _

lemma publish (hP : Uncreating P) (file : OpenFile ω) : P (w.publish file : Act σ _) := by
  refine hP.bind (hP.onStorage _) fun b => ?_
  split
  · exact hP.bind (hP.report rfl) fun _ => hP.bind (hP.removePart _) fun _ => hP.pure _
  · refine hP.bind (hP.onStorage _) fun r => ?_
    cases r with
    | ok _ => exact hP.bind (hP.report rfl) fun _ => hP.pure _
    | error f =>
      exact hP.bind (hP.report rfl) fun _ => hP.bind (hP.cancel _) fun _ =>
        hP.bind (hP.removePart _) fun _ => hP.pure _

omit [Storage σ ω] in
lemma signPart (hP : Uncreating P) (path : Path) (which : SignedPart) (hash : Hash) :
    P (w.signPart path which hash : Act σ _) := by
  refine hP.bind (hP.sign _) fun r => ?_
  cases r with
  | ok a => exact hP.bind hP.signatureScheme fun _ => hP.pure _
  | error e => exact hP.bind (hP.report rfl) fun _ => hP.bind (hP.cancel _) fun _ => hP.pure _

lemma saveSignatures (hP : Uncreating P) (path : Path) (entire metadata : SignedHash) :
    P (w.saveSignatures path entire metadata : Act σ _) := by
  refine hP.bind (hP.onStorage _) ?_
  rintro ⟨result, stuck⟩
  have hsaved (target : Path) :
      P (do Act.report (.signatureSaved target); return some target : Act σ (Option Path)) :=
    hP.bind (hP.report rfl) fun _ => hP.pure _
  have hfailed (target : Path) (f : Failure) : P (do
      Act.report (.signatureFailed target f)
      Act.cancel w.token
      return none : Act σ (Option Path)) :=
    hP.bind (hP.report rfl) fun _ => hP.bind (hP.cancel _) fun _ => hP.pure _
  cases result with
  | ok _ =>
    cases stuck with
    | none => exact hsaved _
    | some g => exact hP.bind (hP.report rfl) fun _ => hsaved _
  | error f =>
    cases stuck with
    | none => exact hfailed _ f
    | some g => exact hP.bind (hP.report rfl) fun _ => hfailed _ f

lemma signFile (hP : Uncreating P) (path : Path) (metadata : Hash) :
    P (w.signFile path metadata : Act σ _) := by
  refine hP.bind (hP.onStorage _) fun r => ?_
  cases r with
  | error f => exact hP.bind (hP.report rfl) fun _ => hP.bind (hP.cancel _) fun _ => hP.pure _
  | ok entire =>
    refine hP.bind (hP.signPart _ _ _) fun r => ?_
    cases r with
    | none => exact hP.pure _
    | some first =>
      refine hP.bind (hP.signPart _ _ _) fun r => ?_
      cases r with
      | none => exact hP.pure _
      | some second => exact hP.saveSignatures _ _ _

lemma finishAt (hP : Uncreating P) (finish : Hash) : P (w.finishAt file finish : Act σ _) := by
  refine hP.bind (hP.complete finish) fun b => ?_
  split
  · refine hP.bind (hP.publish file) fun b => ?_
    split
    · exact hP.bind (hP.signFile _ _) fun _ => hP.pure _
    · exact hP.pure _
  · exact hP.pure _

lemma finishFile (hP : Uncreating P) (hawait : ∀ l t, P (Act.await l t : Act σ _)) :
    P (w.finishFile file : Act σ _) := by
  refine hP.bind (hawait _ _) fun r => ?_
  cases r with
  | error e =>
    exact hP.bind (hP.report rfl) fun _ => hP.bind (hP.cancel _) fun _ =>
      hP.bind (hP.discard _ _) fun _ => hP.pure _
  | ok finish => exact hP.bind (hP.report rfl) fun _ => hP.finishAt finish

lemma dropPart (hP : Uncreating P) (part : Path) : P (Act.dropPart part : Act σ _) := by
  refine hP.bind (hP.onStorage _) fun r => ?_
  cases r with
  | ok _ => exact hP.report rfl
  | error f => exact hP.bind (hP.report rfl) fun _ => hP.report rfl

lemma sweep (hP : Uncreating P) : P (w.sweep : Act σ _) := by
  unfold Writer.sweep
  cases w.phase with
  | writing file =>
    refine hP.bind (hP.onStorage _) fun r => ?_
    cases r with
    | ok _ => exact hP.dropPart file.part
    | error f => exact hP.bind (hP.report rfl) fun _ => hP.dropPart file.part
  | _ => exact hP.report rfl

end Act.Uncreating

/-! ### Opening -/

namespace Act.Closed

variable {P : {α : Type} → Act σ α → Prop} [Storage σ ω] {w : Writer ω}

lemma clearStale (hP : Closed P) (part : Path) : P (Writer.clearStale part : Act σ _) := by
  refine hP.bind (hP.onStorage _) fun b => ?_
  split
  · refine hP.bind (hP.report _) fun _ => hP.bind (hP.onStorage _) fun r => ?_
    cases r with
    | ok _ => exact hP.pure _
    | error f => exact hP.bind (hP.report _) fun _ => hP.pure _
  · exact hP.pure _

lemma createPart (hP : Closed P) (path part : Path) :
    P (Writer.createPart path part : Act σ (Option ω)) := by
  refine hP.bind (hP.clearStale part) fun b => ?_
  split
  · refine hP.bind (hP.onStorage _) fun r => ?_
    cases r with
    | ok _ => exact hP.bind (hP.report _) fun _ => hP.pure _
    | error f => exact hP.bind (hP.report _) fun _ => hP.pure _
  · exact hP.pure _

lemma openFrom (hP : Closed P) (o : StreamObject) (window : Window) (path : Path) (start : Hash) :
    P (w.openFrom o window path start : Act σ _) := by
  refine hP.bind (hP.createPart _ _) fun r => ?_
  cases r with
  | none => exact hP.uncreating.abandon window
  | some output =>
    refine hP.bind (hP.onStorage _) ?_
    rintro ⟨r, output'⟩
    cases r with
    | ok _ => exact hP.bind (hP.report _) fun _ => hP.pure _
    | error f =>
      exact hP.bind (hP.report _) fun _ => hP.bind (hP.uncreating.discard _ _) fun _ =>
        hP.uncreating.abandon window

lemma openWindow (hP : Closed P) (hawait : ∀ l t, P (Act.await l t : Act σ _)) (o : StreamObject)
    (window : Window) : P (w.openWindow o window : Act σ _) := by
  unfold Writer.openWindow
  split
  · exact hP.bind (hP.report _) fun _ => hP.uncreating.abandon window
  · refine hP.bind (hP.onStorage _) fun b => ?_
    split
    · exact hP.bind (hP.report _) fun _ => hP.pure _
    · refine hP.bind (hawait _ _) fun r => ?_
      cases r with
      | error e => exact hP.bind (hP.report _) fun _ => hP.uncreating.abandon window
      | ok start => exact hP.openFrom o window _ start

end Act.Closed

end SealedStream
