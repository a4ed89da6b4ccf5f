import JvmLisp.Command.Failure
import JvmLisp.Host.Path
import JvmLisp.Program.Naming

/-! # Command-line options

Arguments are read from left to right. An option that takes a value takes the next argument,
whatever it looks like, and the last of several values counts.
-/

namespace JvmLisp.Command

structure Options where
  /-- The source file. Without one the standard input is read. -/
  input : Option String := none
  outputDir : Option String := none
  className : Option String := none
  /-- Print a listing and write no file. -/
  dump : Bool := false
  verbose : Bool := false
  help : Bool := false
  version : Bool := false
deriving DecidableEq

namespace Options

/-- A second input is refused once a file is named. -/
def setInput (o : Options) (input : Option String) : Except Misuse Options :=
  if o.input.isSome then .error .secondInput else .ok { o with input }

def parseFrom (o : Options) : List String → Except Misuse Options
  | [] => .ok o
  | arg :: rest =>
    if arg = "-h" ∨ arg = "--help" then parseFrom { o with help := true } rest
    else if arg = "-V" ∨ arg = "--version" then parseFrom { o with version := true } rest
    else if arg = "-v" ∨ arg = "--verbose" then parseFrom { o with verbose := true } rest
    else if arg = "--dump" then parseFrom { o with dump := true } rest
    else if arg = "-o" ∨ arg = "--output-dir" then
      match rest with
      | [] => .error (.missingDirectory arg)
      | directory :: rest => parseFrom { o with outputDir := some directory } rest
    else if arg = "--class-name" then
      match rest with
      | [] => .error .missingName
      | name :: rest => parseFrom { o with className := some name } rest
    else if arg = "-" then
      match o.setInput none with
      | .ok o => parseFrom o rest
      | .error misuse => .error misuse
    else if arg.toList.head? = some '-' then .error (.unknownOption arg)
    else
      match o.setInput (some arg) with
      | .ok o => parseFrom o rest
      | .error misuse => .error misuse

def parse (args : List String) : Except Misuse Options :=
  parseFrom {} args

def naming (o : Options) : Naming :=
  match o.className with
  | some className => { className }
  | none => {}

/-- Where the class file goes. -/
def outputPath (o : Options) : String :=
  match o.outputDir with
  | some directory => Host.Path.join directory o.naming.fileName
  | none => o.naming.fileName

end Options
end JvmLisp.Command
