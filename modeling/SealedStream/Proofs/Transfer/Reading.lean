import SealedStream.Transfer.Source
import Mathlib.Tactic.Common

/-!
Reading a source to its end, and digesting it: the digest is that of the bytes read.
-/

namespace SealedStream.Source

open Sha2

lemma readToEnd_piece_cons (bs : Bytes) (h : bs ≠ []) (rest : Source) :
    readToEnd (.piece bs :: rest) = (readToEnd rest).map (bs ++ ·) := by
  cases bs with
  | nil => exact absurd rfl h
  | cons b bs => rfl

lemma readToEnd_read {size : ℕ} {s next : Source} {b : UInt8} {bs : Bytes}
    (h : s.read size = (.ok (b :: bs), next)) :
    s.readToEnd = next.readToEnd.map (b :: bs ++ ·) := by
  match s with
  | [] => simp [read] at h
  | .failure f :: rest => simp [read] at h
  | .piece xs :: rest =>
    simp only [read] at h
    split at h
    · simp only [Prod.mk.injEq, Except.ok.injEq] at h
      obtain ⟨rfl, rfl⟩ := h
      rfl
    · rename_i hlong
      simp only [Prod.mk.injEq, Except.ok.injEq] at h
      obtain ⟨htake, rfl⟩ := h
      have hx : xs ≠ [] := by rintro rfl; simp at hlong
      have hd : xs.drop size ≠ [] := by
        intro h0
        rw [List.drop_eq_nil_iff] at h0
        exact hlong h0
      rw [readToEnd_piece_cons _ hx, readToEnd_piece_cons _ hd, ← htake]
      cases readToEnd rest with
      | error e => rfl
      | ok c =>
        show Except.ok (xs ++ c) = Except.ok (xs.take size ++ (xs.drop size ++ c))
        rw [← List.append_assoc, List.take_append_drop]

lemma readToEnd_of_read_nil {size : ℕ} (hsize : 0 < size) {s next : Source}
    (h : s.read size = (.ok [], next)) : s.readToEnd = .ok [] := by
  match s with
  | [] => rfl
  | .failure f :: rest => simp [read] at h
  | .piece [] :: rest => rfl
  | .piece (x :: xs) :: rest =>
    simp only [read] at h
    split at h
    · simp at h
    · rename_i hlong
      simp only [Prod.mk.injEq, Except.ok.injEq] at h
      rw [List.take_eq_nil_iff] at h
      rcases h.1 with h0 | h0
      · omega
      · cases h0

lemma readToEnd_of_read_error {size : ℕ} {s next : Source} {f : Failure}
    (h : s.read size = (.error f, next)) :
    s.readToEnd = if f.kind = .interrupted then next.readToEnd else .error f := by
  match s with
  | [] => simp [read] at h
  | .failure g :: rest =>
    simp only [read, Prod.mk.injEq, Except.error.injEq] at h
    obtain ⟨rfl, rfl⟩ := h
    rfl
  | .piece xs :: rest =>
    simp only [read] at h
    split at h <;> simp at h

lemma feed_update (start : Hasher) (before : Bytes) (s : Source) :
    feed (start.update before) s = s.readToEnd.map fun bs => start.update (before ++ bs) := by
  have hsize : 0 < bufferSize := by decide
  generalize hh : start.update before = hasher
  induction hasher, s using feed.induct generalizing before with
  | case1 hasher => simp [feed, readToEnd, Except.map, ← hh]
  | case2 hasher r rest next h =>
    rw [feed, h, readToEnd_of_read_nil hsize h]
    simp [Except.map, ← hh]
  | case3 hasher r rest b bs next h ih =>
    rw [feed, h]
    simp only
    rw [ih (before ++ b :: bs) (by rw [← hh, Hasher.update_append]), readToEnd_read h]
    cases readToEnd next <;> simp [Except.map]
  | case4 hasher r rest f next h hf ih =>
    rw [feed, h, readToEnd_of_read_error h]
    simp only [hf, if_true]
    exact ih before hh
  | case5 hasher r rest f next h hf =>
    rw [feed, h, readToEnd_of_read_error h]
    simp only [hf, if_false]
    rfl

lemma new384_update_nil : Hasher.new384.update [] = Hasher.new384 := by
  simp [Hasher.new384, Hasher.update, Hasher.start,
    absorb_of_short (show [].length < blockSize by decide)]

/-- **A source is digested as what it yields.** -/
theorem digest_eq (s : Source) : s.digest = s.readToEnd.map Hash.digest := by
  have h := feed_update Hasher.new384 [] s
  rw [new384_update_nil] at h
  rw [digest, h]
  cases readToEnd s with
  | error e => rfl
  | ok bs => simp [Except.map, Hash.ofHasher_update]

end SealedStream.Source
