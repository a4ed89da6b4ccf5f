/-! # Types of expressions

The type of an expression is the kind of value that its code leaves on the operand stack.
-/

namespace JvmLisp

inductive ValueType where
  | void
  | text
  | long
deriving DecidableEq

namespace ValueType

def name : ValueType → String
  | void => "void"
  | text => "string"
  | long => "long"

/-- The words that a value of this type takes on the operand stack. -/
def width : ValueType → Nat
  | void => 0
  | text => 1
  | long => 2

end ValueType
end JvmLisp
