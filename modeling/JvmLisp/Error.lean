import JvmLisp.Host.Fault
import JvmLisp.Jvm.Instruction
import JvmLisp.Source.Location
import JvmLisp.Text.Quoted
import JvmLisp.ValueType

/-! # Compile errors

An error is a cause and, where one is known, the place in the source text that it refers to. The
wording of all causes is in `Cause.message`.
-/

namespace JvmLisp

open Text (quote quoteChar)

/-- Malformed source text. -/
inductive Malformed where
  | unclosedForm
  | emptyForm
  | missingName
  | unknownForm (name : String)
  | strayClose
  | unterminatedText
  | invalidEscape (c : Char)
  | outOfRange (atom : String)
  | notALiteral (atom : String)
  /-- Anything else, in words. -/
  | other (message : String)
deriving DecidableEq

def Malformed.message : Malformed → String
  | unclosedForm => "unclosed form"
  | emptyForm => "empty form"
  | missingName => "expected a form name"
  | unknownForm name => "unknown form `" ++ name ++ "`"
  | strayClose => "unexpected `)`"
  | unterminatedText => "unterminated string"
  | invalidEscape c => "invalid escape sequence: \\" ++ c.toString
  | outOfRange atom => "integer literal `" ++ atom ++ "` is out of range"
  | notALiteral atom => "expected a literal, found `" ++ atom ++ "`"
  | other message => message

/-- Text that cannot stand in the constant pool, which holds one byte for each character. -/
inductive Unencodable where
  | nul (text : String)
  | notAscii (c : Char) (text : String)
  | emptyClassName
  /-- Anything else, in words. -/
  | other (message : String)
deriving DecidableEq

def Unencodable.message : Unencodable → String
  | nul text => "text " ++ quote text ++ " contains a null byte"
  | notAscii c text =>
    "character " ++ quoteChar c ++ " in " ++ quote text ++ " is outside the supported one-byte range"
  | emptyClassName => "class name is empty"
  | other message => message

/-- Limits of the class-file format, with the size that exceeds them. -/
inductive Limit where
  | poolSize
  | textLength (bytes : Nat)
  | codeLength (bytes : Nat)
  | stackDepth (words : Nat)
deriving DecidableEq

def Limit.message : Limit → String
  | poolSize => "constant pool is full (65535 slots)"
  | textLength bytes => "text constant of " ++ toString bytes ++ " bytes exceeds 65535"
  | codeLength bytes => "method body of " ++ toString bytes ++ " bytes exceeds 65535"
  | stackDepth words => "operand stack depth " ++ toString words ++ " exceeds 65535"

/-- Misuse of the class writer, which no source text can cause. -/
inductive Defect where
  | underflow (instruction : Jvm.Instruction) (effect : Int) (depth : Nat)
  | tooManyMethods
  /-- Anything else, in words. -/
  | other (message : String)
deriving DecidableEq

def Defect.message : Defect → String
  | underflow instruction effect depth =>
    instruction.text ++ " with stack effect " ++ toString effect ++ " underflows depth " ++
      toString depth
  | tooManyMethods => "more than 65535 methods"
  | other message => message

inductive Cause where
  | malformed (fault : Malformed)
  | mismatch (expected actual : ValueType)
  | unprintable (actual : ValueType)
  | unencodable (fault : Unencodable)
  | limit (exceeded : Limit)
  | unreadable (fault : Host.Fault)
  | defect (fault : Defect)
deriving DecidableEq

namespace Cause

def message : Cause → String
  | malformed fault => "syntax error: " ++ fault.message
  | mismatch expected actual =>
    "type mismatch: expected " ++ expected.name ++ ", got " ++ actual.name
  | unprintable actual => "type error: cannot print a value of type " ++ actual.name
  | unencodable fault => "invalid constant: " ++ fault.message
  | limit exceeded => "limit exceeded: " ++ exceeded.message
  | unreadable fault => "i/o error: " ++ fault.message
  | defect fault => "internal error: " ++ fault.message

def isMalformed : Cause → Bool
  | malformed _ => true
  | _ => false

/-- An operand has the wrong type. -/
def isTypeError : Cause → Bool
  | mismatch .. | unprintable _ => true
  | _ => false

def isUnencodable : Cause → Bool
  | unencodable _ => true
  | _ => false

def isDefect : Cause → Bool
  | defect _ => true
  | _ => false

end Cause

structure Error where
  cause : Cause
  location : Option Source.Location := none
deriving DecidableEq

namespace Error

/-- Attaches a location, in place of any other. -/
def locate (e : Error) (location : Source.Location) : Error :=
  ⟨e.cause, some location⟩

def message (e : Error) : String :=
  e.cause.message

/-- The blanks that bring a caret under a column of a line. Tabs stay tabs, so that the two lines
are aligned whatever the width of a tab. -/
def padding (line : List Char) (column : Nat) : List Char :=
  ((line.map fun c => if c = '\t' then '\t' else ' ') ++
    List.replicate (column - 1 - line.length) ' ').take (column - 1)

/-- The text for a terminal: place and message, then the quoted line with a caret under the place. -/
def render (e : Error) : String :=
  match e.location with
  | none => "error: " ++ e.message
  | some location =>
    location.position.text ++ ": " ++ e.message ++ "\n" ++ location.quoted ++ "\n" ++
      String.ofList (padding location.quoted.toList location.position.column) ++ "^"

end Error
end JvmLisp
