import Mathlib.Algebra.Group.Nat.Defs
import Mathlib.Data.List.Induction
import Mathlib.Tactic.Common
import SealedStream.Bytes
import SealedStream.Decimal

/-!
Numbers in bytes and in digits: what is written is read back.

A number written in `k` bytes keeps its value modulo `256 ^ k`, and `k` bytes are the only form of
the number they denote. A text of decimal digits says which number it is, and where it ends.
-/

namespace SealedStream

namespace Bytes

lemma toNatBE_append_singleton (bs : Bytes) (b : UInt8) :
    toNatBE (bs ++ [b]) = toNatBE bs * 256 + b.toNat := by
  simp [toNatBE, List.foldl_append]

lemma toNatBE_ofNatBE (k n : ℕ) : toNatBE (ofNatBE k n) = n % 256 ^ k := by
  induction k generalizing n with
  | zero => simp [ofNatBE, toNatBE, Nat.mod_one]
  | succ k ih =>
    calc toNatBE (ofNatBE k (n / 256) ++ [UInt8.ofNat n])
        = n / 256 % 256 ^ k * 256 + (UInt8.ofNat n).toNat := by rw [toNatBE_append_singleton, ih]
      _ = n % 256 + 256 * (n / 256 % 256 ^ k) := by rw [UInt8.toNat_ofNat']; omega
      _ = n % 256 ^ (k + 1) := by rw [Nat.pow_succ', Nat.mod_mul]

@[simp] lemma toInt32_ofInt32 (x : Int32) : toInt32 (ofInt32 x) = x := by
  have h : x.toUInt32.toNat % 256 ^ 4 = x.toUInt32.toNat :=
    Nat.mod_eq_of_lt (by have := x.toUInt32.toNat_lt; omega)
  rw [toInt32, ofInt32, toNatBE_ofNatBE, h]
  simp

@[simp] lemma toInt64_ofInt64 (x : Int64) : toInt64 (ofInt64 x) = x := by
  have h : x.toUInt64.toNat % 256 ^ 8 = x.toUInt64.toNat :=
    Nat.mod_eq_of_lt (by have := x.toUInt64.toNat_lt; omega)
  rw [toInt64, ofInt64, toNatBE_ofNatBE, h]
  simp

lemma toNatBE_lt (bs : Bytes) : toNatBE bs < 256 ^ bs.length := by
  induction bs using List.reverseRecOn with
  | nil => simp [toNatBE]
  | append_singleton bs b ih =>
    have := b.toNat_lt
    rw [toNatBE_append_singleton, List.length_append, List.length_singleton, Nat.pow_succ]
    omega

lemma ofNatBE_toNatBE (bs : Bytes) : ofNatBE bs.length (toNatBE bs) = bs := by
  induction bs using List.reverseRecOn with
  | nil => rfl
  | append_singleton bs b ih =>
    have hb := b.toNat_lt
    have hdiv : (toNatBE bs * 256 + b.toNat) / 256 = toNatBE bs := by omega
    have hlast : UInt8.ofNat (toNatBE bs * 256 + b.toNat) = b := by
      apply UInt8.toNat_inj.mp
      rw [UInt8.toNat_ofNat']
      omega
    rw [toNatBE_append_singleton, List.length_append, List.length_singleton, ofNatBE, hdiv, ih,
      hlast]

lemma ofInt32_toInt32 {bs : Bytes} (h : bs.length = 4) : ofInt32 (toInt32 bs) = bs := by
  have hlt := toNatBE_lt bs
  have hback := ofNatBE_toNatBE bs
  rw [h] at hlt hback
  have hvalue : (UInt32.ofNat (toNatBE bs)).toNat = toNatBE bs := by
    rw [UInt32.toNat_ofNat']
    omega
  rw [toInt32, ofInt32, UInt32.toUInt32_toInt32, hvalue, hback]

lemma ofInt64_toInt64 {bs : Bytes} (h : bs.length = 8) : ofInt64 (toInt64 bs) = bs := by
  have hlt := toNatBE_lt bs
  have hback := ofNatBE_toNatBE bs
  rw [h] at hlt hback
  have hvalue : (UInt64.ofNat (toNatBE bs)).toNat = toNatBE bs := by
    rw [UInt64.toNat_ofNat']
    omega
  rw [toInt64, ofInt64, UInt64.toUInt64_toInt64, hvalue, hback]

end Bytes

namespace Decimal

lemma toNat_digit (n : ℕ) : (digit n).toNat = 48 + n % 10 := by
  have h : n % 10 < 10 := Nat.mod_lt _ (by decide)
  unfold digit
  generalize n % 10 = d at h
  match d, h with
  | 0, _ | 1, _ | 2, _ | 3, _ | 4, _ | 5, _ | 6, _ | 7, _ | 8, _ | 9, _ => rfl

lemma value_fixed (w n : ℕ) : value (fixed w n) = n % 10 ^ w := by
  induction w generalizing n with
  | zero => simp [fixed, value, Nat.mod_one]
  | succ w ih =>
    calc value (fixed w (n / 10) ++ [digit n])
        = 10 * value (fixed w (n / 10)) + n % 10 := by
          simp [value, List.foldl_append, toNat_digit]
      _ = n % 10 + 10 * (n / 10 % 10 ^ w) := by rw [ih, Nat.add_comm]
      _ = n % 10 ^ (w + 1) := by rw [Nat.pow_succ', Nat.mod_mul]

lemma lt_pow_size (n : ℕ) : n < 10 ^ size n := by
  rw [size]
  split
  · simpa using ‹n < 10›
  · have := lt_pow_size (n / 10)
    rw [Nat.pow_succ]
    omega

lemma value_padded (width n : ℕ) : value (padded width n) = n := by
  rw [padded, value_fixed]
  apply Nat.mod_eq_of_lt
  exact Nat.lt_of_lt_of_le (lt_pow_size n) (Nat.pow_le_pow_right (by decide) (by omega))

lemma isDigit_digit (n : ℕ) : (digit n).isDigit = true := by
  have htoNat : (digit n).val.toNat = 48 + n % 10 := toNat_digit n
  simp only [Char.isDigit, Bool.and_eq_true, decide_eq_true_eq, ge_iff_le,
    UInt32.le_iff_toNat_le, htoNat]
  show 48 ≤ 48 + n % 10 ∧ 48 + n % 10 ≤ 57
  omega

lemma isDigit_fixed {w n : ℕ} {c : Char} (h : c ∈ fixed w n) : c.isDigit = true := by
  induction w generalizing n with
  | zero => simp [fixed] at h
  | succ w ih =>
    rw [fixed, List.mem_append, List.mem_singleton] at h
    rcases h with h | rfl
    · exact ih h
    · exact isDigit_digit n

lemma isDigit_padded {w n : ℕ} {c : Char} (h : c ∈ padded w n) : c.isDigit = true :=
  isDigit_fixed h

lemma length_padded (w n : ℕ) : (padded w n).length = max w (size n) := length_fixed _ _

lemma padded_eq_cons (w n : ℕ) : ∃ c cs, padded w n = c :: cs ∧ c.isDigit = true := by
  cases h : padded w n with
  | nil =>
    have hlen := length_padded w n
    rw [h, size] at hlen
    simp only [List.length_nil] at hlen
    split at hlen <;> omega
  | cons c cs => exact ⟨c, cs, rfl, isDigit_padded (by rw [h]; exact List.mem_cons_self)⟩

lemma size_le {n w : ℕ} (h : n < 10 ^ (w + 1)) : size n ≤ w + 1 := by
  induction w generalizing n with
  | zero =>
    have hsize : size n = 1 := by rw [size, if_pos (by simpa using h)]
    omega
  | succ w ih =>
    rw [size]
    split
    · omega
    · have := ih (n := n / 10) (by rw [Nat.pow_succ] at h; omega)
      omega

/-- A text that goes on with a digit goes on with more of the number. -/
def Ends (r : List Char) : Prop := ∀ c ∈ r.head?, c.isDigit = false

lemma ends_cons {c : Char} {r : List Char} (h : c.isDigit = false) : Ends (c :: r) := by
  simpa [Ends] using h

lemma append_inj_of_digits {xs ys r t : List Char} (hx : ∀ c ∈ xs, c.isDigit = true)
    (hy : ∀ c ∈ ys, c.isDigit = true) (hr : Ends r) (ht : Ends t) (h : xs ++ r = ys ++ t) :
    xs = ys ∧ r = t := by
  induction xs generalizing ys with
  | nil =>
    cases ys with
    | nil => exact ⟨rfl, h⟩
    | cons y ys =>
      have hd := hr y (by rw [List.nil_append] at h; rw [h]; rfl)
      rw [hy y List.mem_cons_self] at hd
      cases hd
  | cons x xs ih =>
    cases ys with
    | nil =>
      have hd := ht x (by rw [List.nil_append] at h; rw [← h]; rfl)
      rw [hx x List.mem_cons_self] at hd
      cases hd
    | cons y ys =>
      simp only [List.cons_append, List.cons.injEq] at h
      obtain ⟨rfl, h⟩ := h
      obtain ⟨rfl, hrt⟩ := ih (fun c hc => hx c (List.mem_cons_of_mem _ hc))
        (fun c hc => hy c (List.mem_cons_of_mem _ hc)) h
      exact ⟨rfl, hrt⟩

lemma padded_append_inj {w w' n m : ℕ} {r t : List Char} (hr : Ends r) (ht : Ends t)
    (h : padded w n ++ r = padded w' m ++ t) :
    n = m ∧ r = t ∧ (padded w n).length = (padded w' m).length := by
  obtain ⟨heq, hrt⟩ :=
    append_inj_of_digits (fun _ => isDigit_padded) (fun _ => isDigit_padded) hr ht h
  refine ⟨?_, hrt, congrArg List.length heq⟩
  rw [← value_padded w n, heq, value_padded]

end Decimal

end SealedStream
