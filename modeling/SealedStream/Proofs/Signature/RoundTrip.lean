import Mathlib.Tactic.Common
import SealedStream.Proofs.Wire.Reading
import SealedStream.Signature.File

/-!
A signature file is read back from its image by whoever knows how long its header is, and no other
byte string is read as that file.
-/

namespace SealedStream

open Reader

lemma Scheme.ofId_id (scheme : Scheme) : ofId? scheme.id = some scheme := by
  cases scheme <;> rfl

lemma Scheme.id_of_ofId {id : Int32} {scheme : Scheme} (h : ofId? id = some scheme) :
    scheme.id = id := by
  unfold ofId? at h
  split at h
  · cases h
    exact ‹id = 1›.symm
  · split at h
    · cases h
      exact ‹id = 2›.symm
    · cases h

namespace SignedHash

lemma toInt_checksumOf {n : ℕ} (h : n ≤ Field.maxPayload) : (checksumOf n).toInt = 101 - n := by
  unfold Field.maxPayload at h
  have hn : (Int32.ofNat n).toInt = n := Int32.toInt_ofNat_of_lt (by omega)
  rw [checksumOf, Int32.toInt_sub, hn, Int.bmod_eq_of_le]
  · rfl
  · show _ ≤ (101 : ℤ) - n
    omega
  · show (101 : ℤ) - n < _
    omega

lemma reads_signed (s : SignedHash) : Reads reader s.fields s := by
  by_cases h : s.signature.length ≤ Field.maxPayload
  · refine (reads_hash s.hash).bind ?_
    refine (reads_int32 s.scheme.id).bind (x := [_]) (y := [_, _, _]) ?_
    rw [Scheme.ofId_id]
    rw [Field.length, if_pos h]
    refine (reads_length_of_le h).bind (x := [_]) (y := [_, _]) ?_
    refine (reads_int32 s.checksum).bind (x := [_]) (y := [_]) ?_
    rw [if_neg (by simp [checksum])]
    exact (reads_take s.signature).then_pure rfl
  · intro image himage
    have hok : (Field.join s.fields).isOk = true := by
      rw [himage]
      rfl
    rw [Field.join_isOk_iff] at hok
    exact (h (Field.length_isOk_iff.mp (hok _ (by simp [fields])))).elim

lemma spans_of_signed {c c' : Cursor} {s : SignedHash} (h : reader c = .ok (s, c')) :
    c.Spans c' s.fields := by
  obtain ⟨hash, d₁, hhash, h⟩ := bind_eq_ok.mp h
  obtain ⟨id, d₂, hid, h⟩ := bind_eq_ok.mp h
  cases hscheme : Scheme.ofId? id with
  | none =>
    simp only [hscheme] at h
    cases h
  | some scheme =>
    simp only [hscheme] at h
    obtain ⟨n, d₃, hn, h⟩ := bind_eq_ok.mp h
    obtain ⟨checksum, d₄, hchecksum, h⟩ := bind_eq_ok.mp h
    split at h
    · cases h
    · rename_i hcheck
      obtain ⟨signature, d₅, hsignature, h⟩ := bind_eq_ok.mp h
      obtain ⟨rfl, rfl⟩ := pure_eq_ok.mp h
      obtain ⟨hle, hlength⟩ := spans_of_length hn
      obtain ⟨rfl, hraw⟩ := spans_of_take hsignature
      obtain rfl : checksum = checksumOf signature.length := by simpa using hcheck
      have hback := hlength.trans ((spans_of_int32 hchecksum).trans hraw)
      rw [fields, Scheme.id_of_ofId hscheme, Field.length, if_pos hle]
      exact (spans_of_hash hhash).trans ((spans_of_int32 hid).trans hback)

lemma fields_isOk_iff {s : SignedHash} :
    (∀ x ∈ s.fields, x.isOk = true) ↔ s.signature.length ≤ Field.maxPayload := by
  have hok : ∀ bs : Bytes, (Except.ok bs : Field).isOk = true := fun _ => rfl
  simp [fields, Field.hash, Field.raw, Field.int32, Field.length_isOk_iff, hok]

end SignedHash

namespace SignatureFile

lemma reads_signatures (f : SignatureFile) :
    Reads (reader f.header.length)
      (Field.raw f.header :: (f.file.fields ++ f.metadata.fields)) f := by
  refine (reads_take f.header).bind (x := [_]) ?_
  refine f.file.reads_signed.bind ?_
  exact f.metadata.reads_signed.then_pure rfl

/-- **What was encoded decodes** to the file it was encoded from. -/
theorem decode_encoded {f : SignatureFile} {image : Bytes} (h : f.encode = .ok image) :
    decode f.header.length image = .ok f :=
  run_eq_ok (reads_signatures f) h

lemma spans_of_signatures {c c' : Cursor} {n : ℕ} {f : SignatureFile}
    (h : reader n c = .ok (f, c')) : f.header.length = n ∧
      c.Spans c' (Field.raw f.header :: (f.file.fields ++ f.metadata.fields)) := by
  obtain ⟨header, d₁, hheader, h⟩ := bind_eq_ok.mp h
  obtain ⟨file, d₂, hfile, h⟩ := bind_eq_ok.mp h
  obtain ⟨metadata, d₃, hmetadata, h⟩ := bind_eq_ok.mp h
  obtain ⟨rfl, rfl⟩ := pure_eq_ok.mp h
  obtain ⟨hlen, hraw⟩ := spans_of_take hheader
  have hsigned := (SignedHash.spans_of_signed hfile).trans (SignedHash.spans_of_signed hmetadata)
  exact ⟨hlen, hraw.trans hsigned⟩

/-- **What decodes was encoded**, and its header is as long as was said. -/
theorem encode_of_decoded {f : SignatureFile} {n : ℕ} {image : Bytes} (h : decode n image = .ok f) :
    f.header.length = n ∧ f.encode = .ok image := by
  obtain ⟨c', hread, -⟩ := read_of_run h
  exact ⟨(spans_of_signatures hread).1, join_of_run (fun h => (spans_of_signatures h).2) h⟩

lemma encode_isOk_iff_fits (f : SignatureFile) :
    f.encode.isOk = true ↔ f.file.signature.length ≤ Field.maxPayload ∧
      f.metadata.signature.length ≤ Field.maxPayload := by
  rw [encode, Field.join_isOk_iff, List.forall_mem_cons, List.forall_mem_append,
    SignedHash.fields_isOk_iff, SignedHash.fields_isOk_iff]
  exact and_iff_right rfl

/-- **Decoding is the exact inverse of encoding**, for every length of the header: a byte string
decodes to a file if and only if the file has such a header and encodes to it. A file encodes if and
only if its signatures can be written, and no length that is read leaves the range of 32 bits when
its check number is computed. -/
theorem decode_headed_iff (n : ℕ) (image : Bytes) (f : SignatureFile) :
    (decode n image = .ok f ↔ f.header.length = n ∧ f.encode = .ok image) ∧
      (f.encode.isOk = true ↔ f.file.signature.length ≤ Field.maxPayload ∧
        f.metadata.signature.length ≤ Field.maxPayload) ∧
      ∀ c c' length, Reader.length c = .ok (length, c') →
        (SignedHash.checksumOf length).toInt = 101 - length := by
  refine ⟨⟨encode_of_decoded, ?_⟩, f.encode_isOk_iff_fits, fun c c' length h => ?_⟩
  · rintro ⟨rfl, h⟩
    exact decode_encoded h
  · exact SignedHash.toInt_checksumOf (spans_of_length h).1

/-- The longest length that can be written. -/
theorem decode_headed_iff_longest :
    Reader.length ⟨[127, 255, 255, 255], 0⟩ = .ok (2147483647, ⟨[], 4⟩) ∧
      (SignedHash.checksumOf 2147483647).toInt = -2147483546 := by
  have hread : Reader.length ⟨[127, 255, 255, 255], 0⟩ = .ok (2147483647, ⟨[], 4⟩) := by decide
  let unsigned : SignedHash := ⟨.zero, .ed25519, []⟩
  exact ⟨hread, (decode_headed_iff 0 [] ⟨[], unsigned, unsigned⟩).2.2 _ _ _ hread⟩

end SignatureFile

end SealedStream
