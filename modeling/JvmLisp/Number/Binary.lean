/-! # Binary floating-point numbers

The bit patterns of the interchange formats, decoded into exact values. A finite number is
`significand * 2 ^ exponent` with a sign.
-/

namespace JvmLisp.Number

/-- Widths of the exponent and fraction fields; the sign stands above them. -/
structure Format where
  exponentBits : Nat
  fractionBits : Nat

def Format.single : Format := ⟨8, 23⟩

def Format.double : Format := ⟨11, 52⟩

structure Binary where
  significand : Nat
  exponent : Int
  /-- The next number below is half as far away as the next number above. -/
  narrowBelow : Bool
deriving DecidableEq

inductive Floating where
  | nan
  | infinite (negative : Bool)
  | finite (negative : Bool) (value : Binary)
deriving DecidableEq

/-- The exponent of the least significant bit of the smallest numbers. -/
def Format.lowest (f : Format) : Int :=
  2 - (1 <<< (f.exponentBits - 1) : Nat) - f.fractionBits

def Format.decode (f : Format) (bits : Nat) : Floating :=
  let fraction := bits % 1 <<< f.fractionBits
  let biased := bits >>> f.fractionBits % 1 <<< f.exponentBits
  let negative := bits >>> (f.fractionBits + f.exponentBits) % 2 == 1
  if biased + 1 = 1 <<< f.exponentBits then
    if fraction = 0 then .infinite negative else .nan
  else if biased = 0 then
    .finite negative ⟨fraction, f.lowest, false⟩
  else
    .finite negative
      ⟨1 <<< f.fractionBits + fraction, f.lowest + (biased - 1), fraction == 0 && biased != 1⟩

/-- Numeric equality: the two zeros are equal, and no number is equal to NaN. -/
def Floating.same : Floating → Floating → Bool
  | .nan, _ => false
  | _, .nan => false
  | .finite s x, .finite t y => x == y && (s == t || x.significand == 0)
  | a, b => a == b

end JvmLisp.Number
