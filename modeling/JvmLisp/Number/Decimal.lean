import JvmLisp.Number.Binary

/-! # The fewest decimal digits

A binary number is written with the fewest decimal digits that read back to it. All comparisons are
of natural numbers, so nothing is rounded on the way.
-/

namespace JvmLisp.Number

/-- The value `digits * 10 ^ exponent`. -/
structure Decimal where
  digits : Nat
  exponent : Int
deriving DecidableEq

/-- Compares `a * 10 ^ i` with `b * 2 ^ j`. -/
def compareScaled (a : Nat) (i : Int) (b : Nat) (j : Int) : Ordering :=
  compare (a * Nat.pow 10 i.toNat * Nat.pow 2 (-j).toNat)
    (b * Nat.pow 2 j.toNat * Nat.pow 10 (-i).toNat)

/-- The decimal is nearer to `x` than to the neighbours of `x`, or halfway to one of them and the
significand of `x` is even. -/
def Binary.readsBack (x : Binary) (d : Decimal) : Bool :=
  let low := if x.narrowBelow then 4 * x.significand - 1 else 4 * x.significand - 2
  let closed := x.significand % 2 == 0
  let below := compareScaled d.digits d.exponent low (x.exponent - 2)
  let above := compareScaled d.digits d.exponent (4 * x.significand + 2) (x.exponent - 2)
  (below == .gt || closed && below == .eq) && (above == .lt || closed && above == .eq)

/-- The multiple of `10 ^ e` next to `x` that reads back to it, if there is one. Of two the nearer
is taken, and the upper one if `x` is halfway. -/
def Binary.onGrid (x : Binary) (e : Int) : Option Decimal :=
  let num := x.significand * Nat.pow 2 x.exponent.toNat * Nat.pow 10 (-e).toNat
  let den := Nat.pow 2 (-x.exponent).toNat * Nat.pow 10 e.toNat
  let lower : Decimal := ⟨num / den, e⟩
  let upper : Decimal := ⟨num / den + 1, e⟩
  if x.readsBack lower then
    if x.readsBack upper && 2 * (num % den) ≥ den then some upper else some lower
  else if x.readsBack upper then some upper
  else none

/-- A power of ten at or above `x`, from its binary logarithm. -/
def Binary.ceiling (x : Binary) : Int :=
  ((x.significand.log2 + x.exponent + 1) * 30103).fdiv 100000 + 1

/-- All digits of `x`. -/
def Binary.exact (x : Binary) : Decimal :=
  if 0 ≤ x.exponent then ⟨x.significand * Nat.pow 2 x.exponent.toNat, 0⟩
  else ⟨x.significand * Nat.pow 5 (-x.exponent).toNat, x.exponent⟩

/-- Moves the trailing zeros of the digits into the exponent. -/
def Decimal.normalize (d : Decimal) : Decimal :=
  if d.digits ≠ 0 ∧ d.digits % 10 = 0 then Decimal.normalize ⟨d.digits / 10, d.exponent + 1⟩ else d
termination_by d.digits

/-- The fewest digits that read back: the coarsest of the decimal grids that has such a number. -/
def Binary.shortest (x : Binary) : Decimal :=
  let candidate := (List.range 20).findSome? fun (n : Nat) => x.onGrid (x.ceiling - n)
  (candidate.getD x.exact).normalize

/-- The decimal point set without an exponent, and left out if no digit follows it. -/
def Decimal.positional (d : Decimal) : String :=
  let digits := toString d.digits
  let places := (-d.exponent).toNat
  if d.exponent ≥ 0 then
    digits ++ "".pushn '0' d.exponent.toNat
  else if digits.length ≤ places then
    "0." ++ "".pushn '0' (places - digits.length) ++ digits
  else
    String.ofList (digits.toList.take (digits.length - places)) ++ "." ++
      String.ofList (digits.toList.drop (digits.length - places))

/-- The sign of a zero is written, the sign of NaN is not. -/
def Floating.text : Floating → String
  | .nan => "NaN"
  | .infinite negative => if negative then "-inf" else "inf"
  | .finite negative x =>
    let magnitude := if x.significand = 0 then "0" else x.shortest.positional
    if negative then "-" ++ magnitude else magnitude

end JvmLisp.Number
