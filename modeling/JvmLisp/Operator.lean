/-! # Operators

The names that can open a form.
-/

namespace JvmLisp

inductive Operator where
  /-- Prints each operand, then ends the line. -/
  | print
  /-- The sum of 64-bit integers. -/
  | add
deriving DecidableEq

namespace Operator

def name : Operator → String
  | print => "print"
  | add => "+"

def ofName? (name : String) : Option Operator :=
  if name = "print" then some print else if name = "+" then some add else none

end Operator
end JvmLisp
