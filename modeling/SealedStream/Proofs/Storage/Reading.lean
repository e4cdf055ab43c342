import SealedStream.Proofs.Storage.FileView
import SealedStream.Proofs.Transfer.Reading

/-!
Reading from a storage that does not fail: what is read or digested are the bytes of the file, and
reading changes no file.
-/

namespace SealedStream.FileView.NeverFails

variable {σ ω : Type} [Storage σ ω] {V : FileView σ ω} {s : σ} {p : Path} {c : Bytes}

lemma opens (hV : V.NeverFails) (hs : V.Sound s) (hp : V.Reach p) (hc : V.file s p = some c) :
    ∃ source s', Storage.openRead p s = (.ok source, s') ∧ source.readToEnd = .ok c ∧
      V.Sound s' ∧ V.file s' = V.file s := by
  obtain ⟨source, s', hopen, c', hread⟩ := hV.read hs hp (by rw [hc]; rfl)
  obtain ⟨hs', hsame, hbytes⟩ := V.read_ok hs hp hopen
  cases hc.symm.trans (hbytes c' hread)
  exact ⟨source, s', hopen, hread, hs', hsame⟩

/-- **A file is read** as its bytes. -/
lemma readAll_eq (hV : V.NeverFails) (hs : V.Sound s) (hp : V.Reach p) (hc : V.file s p = some c) :
    ∃ s', Storage.readAll p s = (.ok c, s') ∧ V.Sound s' ∧ V.file s' = V.file s := by
  obtain ⟨source, s', hopen, hread, hs', hsame⟩ := hV.opens hs hp hc
  refine ⟨s', ?_, hs', hsame⟩
  rw [Storage.readAll, hopen]
  simp only [Except.bind, hread]

/-- **A file is digested** as its bytes are. -/
lemma digest_eq (hV : V.NeverFails) (hs : V.Sound s) (hp : V.Reach p) (hc : V.file s p = some c) :
    ∃ s', Storage.digest p s = (.ok (Hash.digest c), s') ∧ V.Sound s' ∧ V.file s' = V.file s := by
  obtain ⟨source, s', hopen, hread, hs', hsame⟩ := hV.opens hs hp hc
  refine ⟨s', ?_, hs', hsame⟩
  rw [Storage.digest, hopen]
  simp only [Except.bind, Source.digest_eq, hread, Except.map]

end SealedStream.FileView.NeverFails
