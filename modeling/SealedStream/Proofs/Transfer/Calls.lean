import Mathlib.Tactic.Common
import SealedStream.Transfer.Sink

/-!
Calls on a sink, and sinks that answer all of them alike.

Whatever is asked of a sink comes down to offers, one after the other. What every single offer keeps
is kept by all calls; sinks that answer every single offer alike answer all calls alike.
-/

namespace SealedStream

namespace Sink

/-- A use of a sink: one offer, or a write of all bytes. -/
inductive Call where
  | offer (bytes : Bytes)
  | write (bytes : Bytes)

inductive Answer where
  | offered (r : Except Failure ℕ)
  | written (r : Except Failure Unit)

section

variable {τ : Type} [Sink τ]

def call : Call → τ → Answer × τ
  | .offer bs, t => (.offered (accept bs t).1, (accept bs t).2)
  | .write bs, t => (.written (writeAll bs t).1, (writeAll bs t).2)

/-- Makes the calls in turn, also after one that has failed. -/
def callEach : List Call → τ → List Answer × τ
  | [], t => ([], t)
  | c :: rest, t => ((call c t).1 :: (callEach rest (call c t).2).1, (callEach rest (call c t).2).2)

end

/-! ### Sinks that answer alike -/

/-- Related sinks answer every offer alike, and are related after it. -/
structure Alike {τ υ : Type} [Sink τ] [Sink υ] (R : τ → υ → Prop) : Prop where
  accept {t : τ} {u : υ} (h : R t u) (bs : Bytes) :
    (accept bs t).1 = (accept bs u).1 ∧ R (accept bs t).2 (accept bs u).2
  interruptions {t : τ} {u : υ} (h : R t u) : interruptions t = interruptions u

namespace Alike

variable {τ υ : Type} [Sink τ] [Sink υ] {R : τ → υ → Prop} {t : τ} {u : υ}

/-- The induction is on the calls that are left. -/
lemma writeWithin (hR : Alike R) (n : ℕ) (bs : Bytes) (h : R t u) :
    (writeWithin n bs t).1 = (writeWithin n bs u).1 ∧
      R (writeWithin n bs t).2 (writeWithin n bs u).2 := by
  induction n generalizing bs t u with
  | zero => cases bs <;> exact ⟨rfl, h⟩
  | succ n ih =>
    cases bs with
    | nil => exact ⟨rfl, h⟩
    | cons b bs =>
      obtain ⟨hanswer, hthen⟩ := hR.accept h (b :: bs)
      rw [Sink.writeWithin, Sink.writeWithin]
      rcases haccept : Sink.accept (b :: bs) t with ⟨r, t'⟩
      rcases haccept' : Sink.accept (b :: bs) u with ⟨r', u'⟩
      rw [haccept, haccept'] at hanswer hthen
      obtain rfl : r = r' := hanswer
      rcases r with e | _ | k
      · simp only
        split
        · exact ih _ hthen
        · exact ⟨rfl, hthen⟩
      · exact ⟨rfl, hthen⟩
      · exact ih _ hthen

lemma call (hR : Alike R) (c : Call) (h : R t u) :
    (call c t).1 = (call c u).1 ∧ R (call c t).2 (call c u).2 := by
  cases c with
  | offer bs =>
    obtain ⟨hanswer, hthen⟩ := hR.accept h bs
    exact ⟨congrArg Answer.offered hanswer, hthen⟩
  | write bs =>
    have hwrite := hR.writeWithin (bs.length + Sink.interruptions u) bs h
    have hcalls : writeAll bs t = Sink.writeWithin (bs.length + Sink.interruptions u) bs t := by
      rw [writeAll, hR.interruptions h]
    rw [Sink.call, Sink.call, hcalls]
    exact ⟨congrArg Answer.written hwrite.1, hwrite.2⟩

/-- **Sinks that answer alike** do so to all calls. -/
lemma callEach (hR : Alike R) (calls : List Call) (h : R t u) :
    (callEach calls t).1 = (callEach calls u).1 ∧ R (callEach calls t).2 (callEach calls u).2 := by
  induction calls generalizing t u with
  | nil => exact ⟨rfl, h⟩
  | cons c rest ih =>
    obtain ⟨hanswer, hthen⟩ := hR.call c h
    obtain ⟨hrest, hend⟩ := ih hthen
    exact ⟨List.cons_eq_cons.mpr ⟨hanswer, hrest⟩, hend⟩

end Alike

lemma keep_writeWithin {τ : Type} [Sink τ] {I : τ → Prop}
    (hI : ∀ bs t, I t → I (accept bs t).2) (n : ℕ) (bs : Bytes) {t : τ} (ht : I t) :
    I (writeWithin n bs t).2 := by
  have hself : Alike fun t u : τ => t = u ∧ I t :=
    { accept := by
        rintro t _ ⟨rfl, ht⟩ bs
        exact ⟨rfl, rfl, hI bs t ht⟩
      interruptions := by
        rintro t _ ⟨rfl, -⟩
        rfl }
  exact (hself.writeWithin n bs ⟨rfl, ht⟩).2.2

end Sink

end SealedStream
