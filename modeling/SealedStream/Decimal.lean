/-!
Decimal digits of natural numbers, padded with zeros on the left.
-/

namespace SealedStream.Decimal

def digit (n : Nat) : Char := Char.ofNat (48 + n % 10)

/-- The last `width` decimal digits of `n`. -/
def fixed : (width : Nat) → (n : Nat) → List Char
  | 0, _ => []
  | w + 1, n => fixed w (n / 10) ++ [digit n]

/-- How many digits `n` has; zero has one. -/
def size (n : Nat) : Nat := if n < 10 then 1 else size (n / 10) + 1

/-- The digits of `n`, at least `width` of them. -/
def padded (width n : Nat) : List Char := fixed (max width (size n)) n

@[simp] theorem length_fixed (w n : Nat) : (fixed w n).length = w := by
  induction w generalizing n with
  | zero => rfl
  | succ w ih => simp [fixed, ih]

/-- The number that a list of digits denotes. -/
def value (cs : List Char) : Nat := cs.foldl (fun n c => 10 * n + (c.toNat - 48)) 0

end SealedStream.Decimal
