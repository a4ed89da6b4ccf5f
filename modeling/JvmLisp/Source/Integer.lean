import JvmLisp.Error

/-! # Integer literals

An integer literal is an optional sign and decimal digits. Its value must fit a signed 64-bit word.
-/

namespace JvmLisp.Source

/-- Whether an atom starts with a minus sign, and the atom without its sign. -/
def splitSign : List Char → Bool × List Char
  | '-' :: digits => (true, digits)
  | '+' :: digits => (false, digits)
  | digits => (false, digits)

def digitsValue (digits : List Char) : Nat :=
  digits.foldl (fun n c => 10 * n + (c.toNat - '0'.toNat)) 0

/-- No value in range has more digits, leading zeros apart. -/
def maxDigits : Nat := 19

/-- The value of a sign and digits without leading zeros, if it is in range. -/
def signedValue? (negative : Bool) (digits : List Char) : Option Int64 :=
  if digits.length > maxDigits then none
  else
    let value : Int := if negative then -(digitsValue digits : Int) else digitsValue digits
    if Int64.minValue.toInt ≤ value ∧ value ≤ Int64.maxValue.toInt then some (Int64.ofInt value)
    else none

def readInteger (atom : List Char) : Except Malformed Int64 :=
  let (negative, digits) := splitSign atom
  if digits.isEmpty || !digits.all Char.isDigit then .error (.notALiteral (String.ofList atom))
  else
    match signedValue? negative (digits.dropWhile (· == '0')) with
    | some value => .ok value
    | none => .error (.outOfRange (String.ofList atom))

end JvmLisp.Source
