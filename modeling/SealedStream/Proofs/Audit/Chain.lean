import Mathlib.Tactic.Common
import SealedStream.Proofs.Audit

/-!
Files that are checked one by one are checked as one chain.

The running hash goes through every item of every file, so what an audit of the files accepts is one
stretch of the chain from the first start hash to the tip, and a stretch that is cut into files
anywhere passes. What is wrong with files is told by the first of them that does not hold, or else
by the first that does not start where the one before it has ended.
-/

namespace SealedStream

/-- The items of a file lead from its start hash to its end hash. -/
def RecordFile.Holds (f : RecordFile) : Prop := RunningHash.after f.start f.items = f.finish

namespace Audit

variable {f : RecordFile} {files : List RecordFile} {h k : Hash} {e : ChainError}

lemma verifyChain_of_holds (hf : f.Holds) : f.verifyChain = .ok () := if_pos hf

lemma verifyChain_of_not_holds (hf : ¬f.Holds) :
    f.verifyChain = .error (.endMismatch f.finish (RunningHash.after f.start f.items)) := if_neg hf

lemma verifyChain_ok_iff : f.verifyChain = .ok () ↔ f.Holds := by
  by_cases hf : f.Holds
  · simp [verifyChain_of_holds hf, hf]
  · simp [verifyChain_of_not_holds hf, hf]

/-! ### One chain -/

lemma Leads.after_eq (hk : Leads h files k) :
    RunningHash.after h (files.flatMap RecordFile.items) = k := by
  induction files generalizing h with
  | nil => exact hk
  | cons f files ih =>
    obtain ⟨rfl, hf, hrest⟩ := hk
    rw [List.flatMap_cons, RunningHash.after_append, verifyChain_ok_iff.mp hf]
    exact ih hrest

/-- The items have been cut into files, some of them perhaps empty, and each file has the running
hashes at its two cuts. -/
structure Cut (start : Hash) (items : List Item) (files : List RecordFile) : Prop where
  whole : files.flatMap RecordFile.items = items
  hashes : ∀ before f behind, files = before ++ f :: behind →
    f.start = RunningHash.after start (before.flatMap RecordFile.items) ∧
      f.finish = RunningHash.after start ((before ++ [f]).flatMap RecordFile.items)

lemma Cut.of_cons {items : List Item} (hcut : Cut h items (f :: files)) :
    f.start = h ∧ f.Holds ∧ Cut f.finish (files.flatMap RecordFile.items) files := by
  obtain ⟨hstart, hfinish⟩ := hcut.hashes [] f files rfl
  have hend : f.finish = RunningHash.after h f.items := by simpa using hfinish
  have hbegin : f.start = h := hstart
  refine ⟨hbegin, ?_, rfl, ?_⟩
  · rw [RecordFile.Holds, hbegin, hend]
  · rintro before g behind rfl
    have hg := hcut.hashes (f :: before) g behind rfl
    rwa [List.cons_append, List.flatMap_cons, List.flatMap_cons, RunningHash.after_append,
      RunningHash.after_append, ← hend] at hg

lemma Cut.leads {items : List Item} (hcut : Cut h items files) : ∃ k, Leads h files k := by
  induction files generalizing h items with
  | nil => exact ⟨h, rfl⟩
  | cons f files ih =>
    obtain ⟨hstart, hf, hrest⟩ := hcut.of_cons
    obtain ⟨k, hk⟩ := ih hrest
    exact ⟨k, hstart, verifyChain_of_holds hf, hk⟩

/-! ### What is wrong -/

lemma verifyEach_eq_error_iff : verifyEach files = .error e ↔
    ∃ i, ∃ hi : i < files.length, (∀ j (hj : j < i), files[j].Holds) ∧ ¬files[i].Holds ∧
      e = .endMismatch files[i].finish (RunningHash.after files[i].start files[i].items) := by
  induction files with
  | nil =>
    constructor
    · rintro ⟨⟩
    · rintro ⟨i, hi, -⟩
      cases hi
  | cons f files ih =>
    rw [verifyEach]
    by_cases hf : f.Holds
    · rw [verifyChain_of_holds hf]
      show verifyEach files = _ ↔ _
      rw [ih]
      constructor
      · rintro ⟨i, hi, hbefore, hfails, rfl⟩
        refine ⟨i + 1, Nat.succ_lt_succ hi, ?_, hfails, rfl⟩
        rintro (_ | j) hj
        · exact hf
        · exact hbefore j (Nat.lt_of_succ_lt_succ hj)
      · rintro ⟨_ | i, hi, hbefore, hfails, rfl⟩
        · exact (hfails hf).elim
        · exact ⟨i, Nat.lt_of_succ_lt_succ hi,
            fun j hj => hbefore (j + 1) (Nat.succ_lt_succ hj), hfails, rfl⟩
    · rw [verifyChain_of_not_holds hf]
      constructor
      · rintro ⟨⟩
        exact ⟨0, Nat.zero_lt_succ _, fun j hj => (Nat.not_lt_zero j hj).elim, hf, rfl⟩
      · rintro ⟨_ | i, hi, hbefore, hfails, rfl⟩
        · rfl
        · exact (hf (hbefore 0 (Nat.zero_lt_succ i))).elim

lemma verifyEach_ok_iff : verifyEach files = .ok () ↔ ∀ g ∈ files, g.Holds := by
  induction files with
  | nil => simp [verifyEach]
  | cons f files ih =>
    rw [verifyEach, List.forall_mem_cons, ← ih]
    by_cases hf : f.Holds
    · simp [verifyChain_of_holds hf, hf]
    · simp [verifyChain_of_not_holds hf, hf]

lemma continuesFrom_eq_error_iff {n : ℕ} :
    RunningHash.continuesFrom f.segment n (files.map RecordFile.segment) = .error e ↔
      ∃ i, ∃ hi : i + 1 < (f :: files).length,
        (∀ j (hj : j < i), (f :: files)[j + 1].start = (f :: files)[j].finish) ∧
          (f :: files)[i + 1].start ≠ (f :: files)[i].finish ∧ e = .brokenLink (n + i) := by
  induction files generalizing f n with
  | nil =>
    constructor
    · rintro ⟨⟩
    · rintro ⟨i, hi, -⟩
      cases Nat.lt_of_succ_lt_succ hi
  | cons g files ih =>
    show (if g.start = f.finish then _ else _) = _ ↔ _
    by_cases hg : g.start = f.finish
    · rw [if_pos hg, ih]
      constructor
      · rintro ⟨i, hi, hbefore, hfails, rfl⟩
        refine ⟨i + 1, Nat.succ_lt_succ hi, ?_, hfails, by rw [Nat.add_right_comm, Nat.add_assoc]⟩
        rintro (_ | j) hj
        · exact hg
        · exact hbefore j (Nat.lt_of_succ_lt_succ hj)
      · rintro ⟨_ | i, hi, hbefore, hfails, rfl⟩
        · exact (hfails hg).elim
        · exact ⟨i, Nat.lt_of_succ_lt_succ hi, fun j hj => hbefore (j + 1) (Nat.succ_lt_succ hj),
            hfails, by rw [Nat.add_right_comm, Nat.add_assoc]⟩
    · rw [if_neg hg]
      constructor
      · rintro ⟨⟩
        exact ⟨0, Nat.succ_lt_succ (Nat.zero_lt_succ _), fun j hj => (Nat.not_lt_zero j hj).elim,
          hg, rfl⟩
      · rintro ⟨_ | i, hi, hbefore, hfails, rfl⟩
        · rfl
        · exact (hg (hbefore 0 (Nat.zero_lt_succ i))).elim

lemma verifyContinuity_eq_error_iff :
    RunningHash.verifyContinuity (files.map RecordFile.segment) = .error e ↔
      ∃ i, ∃ hi : i + 1 < files.length, (∀ j (hj : j < i), files[j + 1].start = files[j].finish) ∧
        files[i + 1].start ≠ files[i].finish ∧ e = .brokenLink (i + 1) := by
  cases files with
  | nil =>
    constructor
    · rintro ⟨⟩
    · rintro ⟨i, hi, -⟩
      cases hi
  | cons f files =>
    show RunningHash.continuesFrom f.segment 1 (files.map RecordFile.segment) = _ ↔ _
    rw [continuesFrom_eq_error_iff]
    simp only [Nat.add_comm]

lemma verifyRecords_eq_error_iff : verifyRecords files = .error e ↔
    verifyEach files = .error e ∨ (∀ g ∈ files, g.Holds) ∧
      RunningHash.verifyContinuity (files.map RecordFile.segment) = .error e := by
  rw [← verifyEach_ok_iff, verifyRecords]
  cases verifyEach files <;> simp

/-- **Files checked one by one are checked as one chain.** What is accepted is one stretch of the
chain, from where the first file starts through the items of all files to the tip. Items that are
cut into files anywhere are accepted, if each file has the running hashes at its cuts. What is
refused is refused for the first file that does not hold, and if all of them do, for the first that
does not start where the one before it has ended. -/
theorem verifyRecords_as_one_chain :
    (∀ f files, verifyRecords (f :: files) = .ok () → ∃ k, tip (f :: files) = some k ∧
      RunningHash.verify f.start ((f :: files).flatMap RecordFile.items) k = .ok ()) ∧
    (∀ start items files, Cut start items files → verifyRecords files = .ok ()) ∧
    ∀ files e, verifyRecords files = .error e ↔
      (∃ i, ∃ hi : i < files.length, (∀ j (hj : j < i), files[j].Holds) ∧ ¬files[i].Holds ∧
        e = .endMismatch files[i].finish (RunningHash.after files[i].start files[i].items)) ∨
      (∀ g ∈ files, g.Holds) ∧
        ∃ i, ∃ hi : i + 1 < files.length,
          (∀ j (hj : j < i), files[j + 1].start = files[j].finish) ∧
            files[i + 1].start ≠ files[i].finish ∧ e = .brokenLink (i + 1) := by
  refine ⟨fun f files hok => ?_, fun start items files hcut => ?_, fun files e => ?_⟩
  · obtain ⟨h, k, hk⟩ := verifyRecords_ok_iff.mp hok
    obtain rfl : f.start = h := hk.1
    exact ⟨k, hk.tip_eq (List.cons_ne_nil _ _), if_pos hk.after_eq⟩
  · obtain ⟨k, hk⟩ := hcut.leads
    exact verifyRecords_ok_iff.mpr ⟨start, k, hk⟩
  · rw [verifyRecords_eq_error_iff, verifyEach_eq_error_iff, verifyContinuity_eq_error_iff]

end Audit

end SealedStream
