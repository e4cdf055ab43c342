import Mathlib.Logic.Function.Basic
import SealedStream.Storage.Basic

/-!
A storage seen as a map from paths to bytes.

What an operation that succeeds does to the map is fixed. One that fails changes nothing, except
that a failed write may have taken a part of what it was offered, unless it was only interrupted,
and that a file whose output was not closed in order may hold anything.
-/

namespace SealedStream

open Function (update)

structure FileView (σ ω : Type) [Storage σ ω] where
  /-- The paths that the view speaks of. -/
  Reach : Path → Prop
  /-- The states that the view speaks of. -/
  Sound : σ → Prop
  /-- The bytes of the file at a path. -/
  file : σ → Path → Option Bytes
  /-- An output writes to the file at a path, and has taken some bytes. -/
  Open : σ → ω → Path → Bytes → Prop
  present_eq {s : σ} {p : Path} : Sound s → Reach p → Storage.present p s = (file s p).isSome
  open_isSome {s : σ} {o : ω} {p : Path} {bs : Bytes} :
    Sound s → Open s o p bs → (file s p).isSome
  create_ok {s s' : σ} {o : ω} {p : Path} :
    Sound s → Reach p → Storage.create p s = (.ok o, s') →
      Sound s' ∧ file s p = none ∧ Open s' o p [] ∧ ∃ c, file s' = update (file s) p (some c)
  create_error {s s' : σ} {e : Failure} {p : Path} :
    Sound s → Reach p → Storage.create (ω := ω) p s = (.error e, s') →
      Sound s' ∧ file s' = file s
  write_ok {s s' : σ} {o o' : ω} {p : Path} {bs data : Bytes} {n : Nat} :
    Sound s → Open s o p bs → Storage.write data o s = (.ok n, o', s') →
      Sound s' ∧ n ≤ data.length ∧ Open s' o' p (bs ++ data.take n) ∧
        ∃ c, file s' = update (file s) p (some c)
  write_error {s s' : σ} {o o' : ω} {p : Path} {bs data : Bytes} {e : Failure} :
    Sound s → Open s o p bs → Storage.write data o s = (.error e, o', s') →
      Sound s' ∧ (∃ n, (e.kind = .interrupted → n = 0) ∧ Open s' o' p (bs ++ data.take n)) ∧
        ∃ c, file s' = update (file s) p (some c)
  close_ok {s s' : σ} {o : ω} {p : Path} {bs : Bytes} :
    Sound s → Open s o p bs → Storage.close o s = (.ok (), s') →
      Sound s' ∧ file s' = update (file s) p (some bs)
  close_error {s s' : σ} {o : ω} {p : Path} {bs : Bytes} {e : Failure} :
    Sound s → Open s o p bs → Storage.close o s = (.error e, s') →
      Sound s' ∧ ∃ c, file s' = update (file s) p (some c)
  rename_ok {s s' : σ} {p q : Path} :
    Sound s → Reach p → Reach q → p ≠ q → Storage.rename p q s = (.ok (), s') →
      Sound s' ∧ ∃ c, file s p = some c ∧ file s' = update (update (file s) p none) q (some c)
  rename_error {s s' : σ} {p q : Path} {e : Failure} :
    Sound s → Reach p → Reach q → p ≠ q → Storage.rename p q s = (.error e, s') →
      Sound s' ∧ file s' = file s
  remove_ok {s s' : σ} {p : Path} :
    Sound s → Reach p → Storage.remove p s = (.ok (), s') →
      Sound s' ∧ file s' = update (file s) p none
  remove_error {s s' : σ} {p : Path} {e : Failure} :
    Sound s → Reach p → Storage.remove p s = (.error e, s') → Sound s' ∧ file s' = file s
  /-- What a file yields when it is read to its end are its bytes. -/
  read_ok {s s' : σ} {p : Path} {source : Source} :
    Sound s → Reach p → Storage.openRead p s = (.ok source, s') →
      Sound s' ∧ file s' = file s ∧ ∀ c, source.readToEnd = .ok c → file s p = some c
  read_error {s s' : σ} {p : Path} {e : Failure} :
    Sound s → Reach p → Storage.openRead p s = (.error e, s') → Sound s' ∧ file s' = file s

namespace FileView

variable {σ ω : Type} [Storage σ ω]

def Removes (V : FileView σ ω) : Prop :=
  ∀ {s : σ} {p : Path}, V.Sound s → V.Reach p → (V.file s p).isSome →
    ∃ s', Storage.remove p s = (.ok (), s')

/-- No operation fails that has what it needs: a free path for a new file, a file to move, to
remove or to read. -/
structure NeverFails (V : FileView σ ω) : Prop where
  create {s : σ} {p : Path} : V.Sound s → V.Reach p → V.file s p = none →
    ∃ o s', Storage.create p s = (.ok o, s')
  write {s : σ} {o : ω} {p : Path} {bs data : Bytes} : V.Sound s → V.Open s o p bs → data ≠ [] →
    ∃ n o' s', n ≠ 0 ∧ Storage.write data o s = (.ok n, o', s')
  close {s : σ} {o : ω} {p : Path} {bs : Bytes} : V.Sound s → V.Open s o p bs →
    ∃ s', Storage.close o s = (.ok (), s')
  rename {s : σ} {p q : Path} : V.Sound s → V.Reach p → V.Reach q → p ≠ q → (V.file s p).isSome →
    ∃ s', Storage.rename p q s = (.ok (), s')
  remove : V.Removes
  read {s : σ} {p : Path} : V.Sound s → V.Reach p → (V.file s p).isSome →
    ∃ source s', Storage.openRead p s = (.ok source, s') ∧ ∃ c, source.readToEnd = .ok c

/-! ### What a failure refutes -/

variable {V : FileView σ ω} {s s' : σ} {o : ω} {p q : Path} {bs : Bytes} {e : Failure}

lemma not_removes (hs : V.Sound s) (hp : V.Reach p) (hthere : (V.file s p).isSome)
    (h : Storage.remove p s = (.error e, s')) : ¬V.Removes := by
  intro hV
  obtain ⟨_, h'⟩ := hV hs hp hthere
  cases h.symm.trans h'

lemma not_neverFails_of_create (hs : V.Sound s) (hp : V.Reach p) (hfree : V.file s p = none)
    (h : Storage.create (ω := ω) p s = (.error e, s')) : ¬V.NeverFails := by
  intro hV
  obtain ⟨_, _, h'⟩ := hV.create hs hp hfree
  cases h.symm.trans h'

lemma not_neverFails_of_close (hs : V.Sound s) (ho : V.Open s o p bs)
    (h : Storage.close o s = (.error e, s')) : ¬V.NeverFails := by
  intro hV
  obtain ⟨_, h'⟩ := hV.close hs ho
  cases h.symm.trans h'

lemma not_neverFails_of_rename (hs : V.Sound s) (hp : V.Reach p) (hq : V.Reach q) (hne : p ≠ q)
    (hthere : (V.file s p).isSome) (h : Storage.rename p q s = (.error e, s')) :
    ¬V.NeverFails := by
  intro hV
  obtain ⟨_, h'⟩ := hV.rename hs hp hq hne hthere
  cases h.symm.trans h'

lemma not_neverFails_of_openRead (hs : V.Sound s) (hp : V.Reach p) (hthere : (V.file s p).isSome)
    {r : Except Failure Source} (h : Storage.openRead p s = (r, s'))
    (hr : ∀ source c, r = .ok source → source.readToEnd ≠ .ok c) : ¬V.NeverFails := by
  intro hV
  obtain ⟨source, _, h', c, hc⟩ := hV.read hs hp hthere
  exact hr source c (congrArg Prod.fst (h.symm.trans h')) hc

end FileView

end SealedStream
