import SealedStream.Proofs.Transfer.Reading
import SealedStream.Storage.Disk

/-!
Digesting what arrives, however it does.

An input ends at its first empty piece or failure, except that an interruption is no end. What is
digested are the bytes in front of the end, in pieces of any size.
-/

namespace SealedStream

namespace Reading

def bytes : Reading → Bytes
  | .piece bs => bs
  | .failure _ => []

def interrupts : Reading → Bool
  | .piece _ => false
  | .failure f => f.kind = .interrupted

def goesOn (r : Reading) : Bool := r.interrupts || !r.bytes.isEmpty

end Reading

namespace Source

variable {rest : Source} {r : Reading}

def content (s : Source) : Bytes := (s.takeWhile Reading.goesOn).flatMap Reading.bytes

def fault? (s : Source) : Option Failure :=
  match s.dropWhile Reading.goesOn with
  | .failure f :: _ => some f
  | _ => none

lemma content_cons (h : r.goesOn = true) : content (r :: rest) = r.bytes ++ content rest := by
  rw [content, List.takeWhile_cons_of_pos h, List.flatMap_cons, content]

lemma fault?_cons (h : r.goesOn = true) : fault? (r :: rest) = fault? rest := by
  rw [fault?, List.dropWhile_cons_of_pos h, fault?]

lemma fault?_of_end (h : r.goesOn = false) :
    fault? (r :: rest) = match r with
      | .failure f => some f
      | .piece _ => none := by
  rw [fault?, List.dropWhile_cons_of_neg (by simp [h])]
  cases r <;> rfl

/-- What reading to the end comes to: the failure that ends the input, or the bytes in front of the
end. -/
def outcome (s : Source) : Except Failure Bytes :=
  match s.fault? with
  | some f => .error f
  | none => .ok s.content

lemma outcome_cons (h : r.goesOn = true) :
    outcome (r :: rest) = (outcome rest).map (r.bytes ++ ·) := by
  rw [outcome, outcome, fault?_cons h, content_cons h]
  cases fault? rest <;> rfl

lemma readToEnd_eq (s : Source) : s.readToEnd = s.outcome := by
  induction s with
  | nil => rfl
  | cons r rest ih =>
    rcases r with (_ | ⟨b, bs⟩) | f
    · rfl
    · rw [outcome_cons rfl, ← ih]
      rfl
    · by_cases hf : f.kind = .interrupted
      · have hgoes : (Reading.failure f).goesOn = true := by
          simp [Reading.goesOn, Reading.interrupts, hf]
        rw [outcome_cons hgoes, ← ih, readToEnd, if_pos hf]
        cases readToEnd rest <;> rfl
      · have hends : (Reading.failure f).goesOn = false := by
          simp [Reading.goesOn, Reading.interrupts, Reading.bytes, hf]
        rw [outcome, fault?_of_end hends, readToEnd, if_neg hf]

/-- The same input without its interruptions. -/
def uninterrupted (s : Source) : Source := s.filter (!·.interrupts)

lemma readToEnd_uninterrupted (s : Source) : s.uninterrupted.readToEnd = s.readToEnd := by
  induction s with
  | nil => rfl
  | cons r rest ih =>
    rw [uninterrupted, List.filter_cons]
    rcases r with (_ | ⟨b, bs⟩) | f
    · rfl
    · exact congrArg (Except.map (b :: bs ++ ·)) ih
    · by_cases hf : f.kind = .interrupted
      · have hdrop : (Reading.failure f).interrupts = true := decide_eq_true hf
        rw [hdrop, readToEnd, if_pos hf]
        exact ih
      · have hkeep : (Reading.failure f).interrupts = false := decide_eq_false hf
        rw [hkeep, readToEnd, if_neg hf]
        exact if_neg hf

end Source

lemma Storage.digest_of_readAll {σ ω : Type} [Storage σ ω] {p : Path} {s s' : σ} {bs : Bytes}
    (h : Storage.readAll p s = (.ok bs, s')) : Storage.digest p s = (.ok (Hash.digest bs), s') := by
  rw [Storage.readAll] at h
  rw [Storage.digest]
  rcases hopen : Storage.openRead p s with ⟨e | source, s₁⟩ <;> rw [hopen] at h
  · cases h
  · obtain ⟨hread, rfl⟩ := Prod.mk.inj h
    refine Prod.ext ?_ rfl
    show source.digest = _
    rw [Source.digest_eq, show source.readToEnd = .ok bs from hread]
    rfl

lemma Disk.readAll_of_find {d : Disk} {p : Path} {l : Location} {id : ℕ}
    (h : d.find p = .ok (l, .file id)) : Storage.readAll p d = (.ok (d.fileBytes id), d) := by
  have hopen : Storage.openRead p d = (.ok [.piece (d.fileBytes id)], d) := by
    show d.openRead p = _
    rw [Disk.openRead, h]
  rw [Storage.readAll, hopen]
  cases hbytes : d.fileBytes id <;> simp [Except.bind, Source.readToEnd, Except.map]

namespace Source

/-- **An input is digested as the bytes in front of its end**, however they arrive; if a failure is
its end, that is the answer. Interruptions anywhere make no difference. So the digest of a file is
that of all its bytes. -/
theorem digest_arriving (s : Source) :
    s.digest = s.outcome.map Hash.digest ∧ s.uninterrupted.digest = s.digest ∧
      (∀ {σ ω : Type} [Storage σ ω] {p : Path} {st st' : σ} {bs : Bytes},
        Storage.readAll p st = (.ok bs, st') →
          Storage.digest p st = (.ok (Hash.digest bs), st')) ∧
      ∀ {d : Disk} {p : Path} {l : Location} {id : ℕ}, d.find p = .ok (l, .file id) →
        Storage.digest p d = (.ok (Hash.digest (d.fileBytes id)), d) := by
  refine ⟨?_, ?_, Storage.digest_of_readAll, fun h =>
    Storage.digest_of_readAll (Disk.readAll_of_find h)⟩
  · rw [digest_eq, readToEnd_eq]
  · rw [digest_eq, digest_eq, readToEnd_uninterrupted]

def bulk : Bytes := List.replicate (2 * bufferSize + 17) 0x5a

def holding (bs : Bytes) : Disk := ⟨[(["bulk"], .file 0)], [(0, bs)], 1⟩

theorem digest_arriving_bulk :
    (holding bulk).find ⟨"bulk"⟩ = .ok (["bulk"], .file 0) ∧
      Storage.digest ⟨"bulk"⟩ (holding bulk) = (.ok (Hash.digest bulk), holding bulk) := by
  have hfind : (holding bulk).find ⟨"bulk"⟩ = .ok (["bulk"], .file 0) := rfl
  have hbytes : (holding bulk).fileBytes 0 = bulk := rfl
  obtain ⟨-, -, -, hfile⟩ := digest_arriving []
  have hdigest := hfile hfind
  rw [hbytes] at hdigest
  exact ⟨hfind, hdigest⟩

end Source

end SealedStream
