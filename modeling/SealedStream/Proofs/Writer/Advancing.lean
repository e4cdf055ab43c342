import SealedStream.Proofs.Writer.Composition
import SealedStream.Proofs.Writer.Turn

/-!
What the writer does leaves it its token, and takes no cancellation back: links settle and tokens are
cancelled.
-/

namespace SealedStream

variable {σ ω α β : Type}

namespace Act

/-- The action settles links and cancels tokens, and does nothing else to them. -/
def Grows (m : Act σ α) : Prop := ∀ s, m.Gives s fun _ s' => s.pipeline.Grows s'.pipeline

lemma grows_await (l : Link) (t : Token) : (await l t : Act σ _).Grows := by
  intro s r s' h
  obtain ⟨⟨a, coming, q⟩, hw, heq⟩ := Option.map_eq_some_iff.mp h
  cases heq
  exact (Pipeline.grows_foldl _ _).trans (Pipeline.wait_eq_some hw).1

lemma closed_grows : Closed (σ := σ) Grows where
  pure _ _ := gives_pure (.refl _)
  bind hm hf s := (hm s).bind fun a s₁ h => (hf a s₁).mono fun _ _ h' => h.trans h'
  report _ s := by
    rintro _ _ ⟨⟩
    exact .refl s.pipeline
  onStorage _ s := by
    rintro _ _ ⟨⟩
    exact .refl s.pipeline
  cancel _ s := by
    rintro _ _ ⟨⟩
    exact Pipeline.grows_cancel s.pipeline _
  sign _ s := by
    rintro _ _ ⟨⟩
    exact .refl s.pipeline
  signatureScheme s := by
    rintro _ _ ⟨⟩
    exact .refl s.pipeline

end Act

namespace Writer

open Act

/-- The action leaves the writer its token, and takes no cancellation back. -/
def Advances (w : Writer ω) (m : Act σ (Writer ω)) : Prop :=
  ∀ s, m.Gives s fun w' s' => w'.token = w.token ∧ s.pipeline.Grows s'.pipeline

variable {w : Writer ω} {m : Act σ α} {f : α → Writer ω}

lemma Advances.bind {m : Act σ (Writer ω)} {f : Writer ω → Act σ (Writer ω)} (hm : w.Advances m)
    (hf : ∀ w' : Writer ω, w'.Advances (f w')) : w.Advances (m >>= f) := by
  intro s
  refine (hm s).bind fun w₁ s₁ ⟨ht, hg⟩ => (hf w₁ s₁).mono fun w₂ s₂ ⟨ht', hg'⟩ => ?_
  exact ⟨ht'.trans ht, hg.trans hg'⟩

lemma advances_pure {w' : Writer ω} (h : w'.token = w.token) :
    w.Advances (pure w' : Act σ (Writer ω)) :=
  fun _ => gives_pure ⟨h, .refl _⟩

lemma Advances.after {f : α → Act σ (Writer ω)} (hm : m.Grows) (hf : ∀ a, w.Advances (f a)) :
    w.Advances (m >>= f) := by
  intro s
  refine (hm s).bind fun a s₁ hg => (hf a s₁).mono fun w' s' ⟨ht, hg'⟩ => ?_
  exact ⟨ht, hg.trans hg'⟩

lemma advances_of_grows (hm : m.Grows) (hf : ∀ a, (f a).token = w.token) :
    w.Advances (do let a ← m; return f a) :=
  .after hm fun a => advances_pure (hf a)

lemma advances_noticeBoundary (period : Int64) :
    w.Advances (w.noticeBoundary period : Act σ _) := by
  unfold noticeBoundary
  split
  · exact advances_of_grows (closed_grows.report _) fun _ => rfl
  · exact advances_pure rfl

variable [Storage σ ω] {o : StreamObject}

lemma advances_finish (file : OpenFile ω) : w.Advances (w.finish file : Act σ _) :=
  advances_of_grows (closed_grows.uncreating.finishFile grows_await) fun _ => rfl

lemma advances_closeAndSign : w.Advances (w.closeAndSign : Act σ _) := by
  unfold closeAndSign
  split
  · exact advances_finish _
  · exact advances_pure rfl

lemma advances_turnTo (o : StreamObject) : w.Advances (w.turnTo o : Act σ _) := by
  refine (advances_noticeBoundary _).bind fun w' => ?_
  rcases w'.leaveWindow_cases (σ := σ) o.alignment (w.clock.period o.timestamp) with h | h <;>
    rw [h]
  · exact advances_pure rfl
  · exact advances_closeAndSign

lemma advances_receive (o : StreamObject) (period : Int64) :
    w.Advances (w.receive o period : Act σ _) := by
  refine Advances.bind (m := w.enterWindow o period) ?_ fun w' => Advances.bind ?_ fun w' =>
    advances_pure rfl
  · unfold enterWindow
    split
    · split
      · exact advances_of_grows (closed_grows.report _) fun _ => rfl
      · exact advances_of_grows (closed_grows.openWindow grows_await o _) fun _ => rfl
    · exact advances_pure rfl
  · unfold take
    split
    · exact advances_pure rfl
    · exact advances_of_grows (closed_grows.uncreating.append o) fun _ => rfl
    · exact advances_of_grows (closed_grows.report _) fun _ => rfl

lemma advances_close : w.Advances (w.close : Act σ _) :=
  advances_closeAndSign.bind fun _ => advances_of_grows (closed_grows.report _) fun _ => rfl

lemma advances_clear : w.Advances (w.clear : Act σ _) := by
  rw [clear_eq]
  exact advances_of_grows closed_grows.uncreating.sweep fun _ => rfl

/-- **Adding an object** leaves the writer its token, and takes no cancellation back. -/
lemma advances_add (o : StreamObject) {s : Surroundings σ} :
    (w.add o : Act σ _).Gives s fun r s' => s.pipeline.Grows s'.pipeline ∧
      ∀ w', r = .ok w' → w'.token = w.token := by
  intro r s' hrun
  cases gives_adding w o s _ _ hrun with
  | refused _ => exact ⟨.refl _, fun _ h => nomatch h⟩
  | taken _ hturn hreceive =>
    obtain ⟨ht₁, hg₁⟩ := advances_turnTo o _ _ _ hturn
    obtain ⟨ht₂, hg₂⟩ := advances_receive o _ _ _ _ hreceive
    refine ⟨hg₁.trans hg₂, ?_⟩
    rintro _ ⟨⟩
    exact ht₂.trans ht₁

end Writer

end SealedStream
