import JvmLisp.Jvm.Constant

/-! # Journal

What the compiler reports about its work, as a sequence of events. Every event has a level and the
name of the part that it comes from.
-/

namespace JvmLisp

/-- From the fewest reports to the most. -/
inductive Level where
  | error
  | warn
  | info
  | debug
  | trace
deriving DecidableEq

namespace Level

def name : Level → String
  | error => "ERROR"
  | warn => "WARN"
  | info => "INFO"
  | debug => "DEBUG"
  | trace => "TRACE"

def rank : Level → Nat
  | error => 1
  | warn => 2
  | info => 3
  | debug => 4
  | trace => 5

end Level

inductive Event where
  | added (index : Nat) (constant : Jvm.Constant)
  | emitted (instruction : Jvm.Instruction) (effect : Int) (depth : Nat)
  | compiled (expressions instructions peak slots : Nat)
  | encoded (bytes slots methods : Nat)
  | readingFile (path : String)
  | readingInput
  | wrote (path : String) (bytes : Nat)
deriving DecidableEq

namespace Event

def level : Event → Level
  | added .. | emitted .. => .trace
  | compiled .. | encoded .. | readingFile _ | readingInput => .debug
  | wrote .. => .info

/-- The part that reports the event. -/
def origin : Event → String
  | added .. => "cafelisp_classfile::pool"
  | emitted .. => "cafelisp_classfile::code"
  | compiled .. => "cafelisp_language::compiler"
  | encoded .. => "cafelisp_classfile::class_file"
  | readingFile _ | readingInput | wrote .. => "cafelisp_runtime::driver"

/-- An integer with its sign, also a positive one. -/
def signed (n : Int) : String :=
  if n < 0 then toString n else "+" ++ toString n

def message : Event → String
  | added index constant => "constant #" ++ toString index ++ " = " ++ constant.text
  | emitted instruction effect depth =>
    instruction.text ++ " (" ++ signed effect ++ ") depth " ++ toString depth
  | compiled expressions instructions peak slots =>
    "compiled " ++ toString expressions ++ " expression(s): " ++ toString instructions ++
      " instruction(s), max stack " ++ toString peak ++ ", " ++ toString slots ++ " pool slot(s)"
  | encoded bytes slots methods =>
    "assembled class file: " ++ toString bytes ++ " bytes, " ++ toString slots ++
      " pool slots, " ++ toString methods ++ " method(s)"
  | readingFile path => "reading " ++ path
  | readingInput => "reading standard input"
  | wrote path bytes => "wrote " ++ path ++ " (" ++ toString bytes ++ " bytes)"

end Event
end JvmLisp
