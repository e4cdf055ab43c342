import SealedStream.Proofs.Storage.FileView

/-!
A storage that keeps a log of what it is asked to change, seen as the one inside of it is.
-/

namespace SealedStream

/-- What a storage was asked to make, to move or to take away. -/
inductive Change where
  | create (p : Path)
  | rename (source target : Path)
  | remove (p : Path)
  deriving DecidableEq

structure Logged (σ : Type) where
  inner : σ
  /-- In order, whether it was done or failed. -/
  log : List Change

namespace Logged

section

variable {σ ω α : Type}

def noting (c : Change) (act : σ → Except Failure α × σ) (s : Logged σ) :
    Except Failure α × Logged σ :=
  let (r, inner) := act s.inner
  (r, ⟨inner, s.log ++ [c]⟩)

/-- Does the inner operation, which changes the contents of files at most. -/
def passing (act : σ → Except Failure α × σ) (s : Logged σ) : Except Failure α × Logged σ :=
  let (r, inner) := act s.inner
  (r, { s with inner })

instance [Storage σ ω] : Storage (Logged σ) ω where
  present p s := Storage.present p s.inner
  create p := noting (.create p) (Storage.create p)
  write bs o s :=
    let (r, o, inner) := Storage.write bs o s.inner
    (r, o, { s with inner })
  interruptions o s := Storage.interruptions o s.inner
  close o := passing (Storage.close o)
  rename source target := noting (.rename source target) (Storage.rename source target)
  remove p := noting (.remove p) (Storage.remove p)
  openRead p := passing (Storage.openRead p)

variable {act : σ → Except Failure α × σ} {c : Change} {s s' : Logged σ} {r : Except Failure α}

lemma inner_noting (h : noting c act s = (r, s')) : act s.inner = (r, s'.inner) := by
  cases h
  rfl

lemma inner_passing (h : passing act s = (r, s')) : act s.inner = (r, s'.inner) := by
  cases h
  rfl

end

variable {σ ω : Type} [Storage σ ω] {s s' : Logged σ} {o o' : ω} {data : Bytes}

lemma inner_write {r : Except Failure Nat} (h : Storage.write data o s = (r, o', s')) :
    Storage.write data o s.inner = (r, o', s'.inner) := by
  cases h
  rfl

/-- **The view of a storage with a log.** -/
def view (V : FileView σ ω) : FileView (Logged σ) ω where
  Reach := V.Reach
  Sound s := V.Sound s.inner
  file s := V.file s.inner
  Open s := V.Open s.inner
  present_eq h hp := V.present_eq h hp
  open_isSome h ho := V.open_isSome h ho
  create_ok h hp hcreate := V.create_ok h hp (inner_noting hcreate)
  create_error h hp hcreate := V.create_error h hp (inner_noting hcreate)
  write_ok h ho hwrite := V.write_ok h ho (inner_write hwrite)
  write_error h ho hwrite := V.write_error h ho (inner_write hwrite)
  close_ok h ho hclose := V.close_ok h ho (inner_passing hclose)
  close_error h ho hclose := V.close_error h ho (inner_passing hclose)
  rename_ok h hp hq hne hrename := V.rename_ok h hp hq hne (inner_noting hrename)
  rename_error h hp hq hne hrename := V.rename_error h hp hq hne (inner_noting hrename)
  remove_ok h hp hremove := V.remove_ok h hp (inner_noting hremove)
  remove_error h hp hremove := V.remove_error h hp (inner_noting hremove)
  read_ok h hp hread := V.read_ok h hp (inner_passing hread)
  read_error h hp hread := V.read_error h hp (inner_passing hread)

end Logged

end SealedStream
