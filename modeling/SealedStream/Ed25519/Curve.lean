import SealedStream.Bytes

/-!
The twisted Edwards curve `-x² + y² = 1 + d x² y²` over the integers modulo `2²⁵⁵ - 19`.

Points are in extended coordinates: `x = X / Z`, `y = Y / Z`, `x y = T / Z`. Coordinates are kept
below the modulus.
-/

namespace SealedStream.Ed25519

/-- The modulus of the field. -/
def modulus : Nat := Nat.pow 2 255 - 19

/-- The order of the base point. -/
def order : Nat := Nat.pow 2 252 + 27742317777372353535851937790883648493

namespace Residue

def add (a b : Nat) : Nat := (a + b) % modulus
def sub (a b : Nat) : Nat := (a + modulus - b) % modulus
def mul (a b : Nat) : Nat := a * b % modulus
def neg (a : Nat) : Nat := (modulus - a) % modulus

/-- `a ^ e`, by squaring. -/
def pow (a e : Nat) : Nat :=
  if e = 0 then 1
  else
    let half := pow (mul a a) (e / 2)
    if e % 2 = 1 then mul half a else half
termination_by e

/-- The inverse of `a`, and zero for zero. -/
def inv (a : Nat) : Nat := pow a (modulus - 2)

end Residue

/-- The constant of the curve, `-121665 / 121666`. -/
def curveD : Nat :=
  37095705934669439343138083508754565189542113879843219016388785533085940283555

/-- A square root of minus one. -/
def sqrtMinusOne : Nat :=
  19681161376707505956807079304988542015446066515923890162744021073123829784752

structure Point where
  x : Nat
  y : Nat
  z : Nat
  t : Nat
  deriving DecidableEq, Repr

namespace Point

open Residue

def zero : Point := ⟨0, 1, 1, 0⟩

def ofAffine (x y : Nat) : Point := ⟨x, y, 1, mul x y⟩

/-- The base point: the one with `y = 4 / 5` and an even `x`. -/
def base : Point :=
  ofAffine 15112221349535400772501151409588531511454012693041857206046113283949847762202
    46316835694926478169428394003475163141307993866256225615783033603165251855960

def neg (p : Point) : Point := ⟨Residue.neg p.x, p.y, p.z, Residue.neg p.t⟩

/-- The sum of any two points; the formula is complete on this curve. -/
def add (p q : Point) : Point :=
  let a := mul (sub p.y p.x) (sub q.y q.x)
  let b := mul (Residue.add p.y p.x) (Residue.add q.y q.x)
  let c := mul (mul (mul 2 curveD) p.t) q.t
  let d := mul (mul 2 p.z) q.z
  let e := sub b a
  let f := sub d c
  let g := Residue.add d c
  let h := Residue.add b a
  ⟨mul e f, mul g h, mul f g, mul e h⟩

/-- The lowest `width` binary digits of `n`, highest first. -/
def bits (width n : Nat) : List Bool := (List.range width).reverse.map n.testBit

/-- `n` times a point, for `n` below `2²⁵⁶`: double and add. -/
def scale (n : Nat) (p : Point) : Point :=
  (bits 256 n).foldl (fun q b => let q := add q q; if b then add q p else q) zero

/-- The 32 bytes of a point: `y`, little-endian, with the lowest bit of `x` on top. -/
def encode (p : Point) : Bytes :=
  let zInv := inv p.z
  let x := mul p.x zInv
  let y := mul p.y zInv
  Bytes.ofNatLE 32 (y + (x % 2) * Nat.pow 2 255)

/-- A root of `u / v`, if there is one. -/
def sqrtRatio (u v : Nat) : Option Nat :=
  let v3 := mul (mul v v) v
  let v7 := mul (mul v3 v3) v
  let r := mul (mul u v3) (pow (mul u v7) ((modulus - 5) / 8))
  let check := mul v (mul r r)
  if check = u then some r
  else if check = Residue.neg u then some (mul r sqrtMinusOne)
  else none

/-- The point of 32 bytes. The bytes need not be the ones that `encode` writes: `y` is taken
modulo the field, and the top bit chooses between `x` and `-x` even when both are zero. -/
def decode (bs : Bytes) : Option Point :=
  let n := Bytes.toNatLE bs
  let y := n % Nat.pow 2 255 % modulus
  let yy := mul y y
  match sqrtRatio (sub yy 1) (Residue.add (mul curveD yy) 1) with
  | none => none
  | some r =>
    let even := if r % 2 = 0 then r else Residue.neg r
    some (ofAffine (if n.testBit 255 then Residue.neg even else even) y)

end Point

end SealedStream.Ed25519
