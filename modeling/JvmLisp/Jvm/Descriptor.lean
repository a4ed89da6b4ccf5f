/-! # Descriptors

The class-file format writes the types of fields and methods as short texts, such as
`Ljava/lang/String;` or `([Ljava/lang/String;)V`.
-/

namespace JvmLisp.Jvm

inductive FieldType where
  | byte
  | char
  | double
  | float
  | int
  | long
  | short
  | boolean
  /-- A class, by its internal name. -/
  | object (name : String)
  | array (element : FieldType)
deriving DecidableEq

namespace FieldType

/-- Writes the descriptor behind `start`: a bracket for each array level, then the innermost type. -/
def textAfter (start : String) : FieldType → String
  | byte => start ++ "B"
  | char => start ++ "C"
  | double => start ++ "D"
  | float => start ++ "F"
  | int => start ++ "I"
  | long => start ++ "J"
  | short => start ++ "S"
  | boolean => start ++ "Z"
  | object name => start ++ "L" ++ name ++ ";"
  | array element => textAfter (start ++ "[") element

def text (t : FieldType) : String :=
  t.textAfter ""

/-- Wide values take two words on the operand stack. -/
def isWide : FieldType → Bool
  | long | double => true
  | _ => false

end FieldType

structure MethodType where
  params : List FieldType
  /-- Nothing for a method without result. -/
  result : Option FieldType := none
deriving DecidableEq

namespace MethodType

def text (m : MethodType) : String :=
  String.join ("(" :: m.params.map FieldType.text) ++ ")" ++
    match m.result with
    | some t => t.text
    | none => "V"

/-- The words that the arguments take on the operand stack, without the receiver. -/
def argumentWords (m : MethodType) : Nat :=
  m.params.foldr (fun t words => (if t.isWide then 2 else 1) + words) 0

end MethodType
end JvmLisp.Jvm
