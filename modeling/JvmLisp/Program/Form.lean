import JvmLisp.Operator
import JvmLisp.Program.Build

/-! # Code of the forms

The code of a form is emitted while the form is read: a start behind its name, something before and
something after the code of each operand, and an end at the closing parenthesis.

`print` keeps the output stream on the stack below its operands and duplicates it for each of them.
`+` leaves its operands on the stack and adds them up at the end.
-/

namespace JvmLisp

/-- A form between its name and its closing parenthesis. -/
inductive Form where
  | print
  /-- With the number of operands on the stack. -/
  | add (operands : Nat)
deriving DecidableEq

namespace Form

open Jvm (FieldType MethodType)

def printStream : String := "java/io/PrintStream"

/-- Calls a method of the output stream. The effect is that of the call on the stack. -/
def invokeStream (name : String) (params : List FieldType) (effect : Int) : Build Unit := do
  let method ← Build.intern (.member .method printStream name (MethodType.text { params }))
  Build.emit (.invokevirtual method) effect

def pushLong (value : Int64) : Build Unit := do
  let index ← Build.intern (.long value)
  Build.emit (.ldc2 index) ValueType.long.width

def pushText (content : String) : Build Unit := do
  let index ← Build.intern (.string content)
  Build.emit (.ldc index) ValueType.text.width

def start : Operator → Build Form
  | .print => do
    let out ← Build.intern
      (.member .field "java/lang/System" "out" (FieldType.object printStream).text)
    Build.emit (.getstatic out) 1
    return .print
  | .add => return .add 0

/-- What is emitted before an operand. -/
def beginOperand : Form → Build Unit
  | print => Build.emit .dup 1
  | add _ => pure ()

/-- What is done with an operand of a type, or why the form refuses it. -/
def takeOperand : Form → ValueType → Except Cause (Build Form)
  | print, .void => .error (.unprintable .void)
  | print, .text => .ok do
    invokeStream "print" [.object "java/lang/String"] (-1 - ValueType.text.width)
    return print
  | print, .long => .ok do
    invokeStream "print" [.long] (-1 - ValueType.long.width)
    return print
  | add operands, .long => .ok (return add (operands + 1))
  | add _, type => .error (.mismatch .long type)

/-- What is emitted at the closing parenthesis, and the type of the form. -/
def finish : Form → Build ValueType
  | print => do
    invokeStream "println" [] (-1)
    return .void
  | add 0 => do
    pushLong 0
    return .long
  | add (n + 1) => do
    Build.emitTimes n .ladd (-ValueType.long.width)
    return .long

end Form
end JvmLisp
