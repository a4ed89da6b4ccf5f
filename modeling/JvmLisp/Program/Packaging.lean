import JvmLisp.Host.ByteSource
import JvmLisp.Program.Compiler
import JvmLisp.Program.Naming

/-! # From a program to a class file

A program becomes the method `main` of a class of its own. The names that the class needs are added
to a copy of the program's constants, so all indices in its code keep their meaning.
-/

namespace JvmLisp

open Jvm (CodeAttribute FieldType MethodType)

/-- The arguments of the command line are the one parameter. -/
def mainType : MethodType :=
  { params := [.array (.object "java/lang/String")] }

def mainFlags : UInt16 :=
  Jvm.Flags.isPublic ||| Jvm.Flags.isStatic ||| Jvm.Flags.isSynthetic

def mainLocals : UInt16 := 1

namespace Program

def package (names : Naming) : Build (List UInt8) := do
  if names.className.isEmpty then
    throw { cause := .unencodable .emptyClassName }
  let c ← Build.interning (Jvm.Class.declare names.className names.superName)
  let code ← liftExcept (CodeAttribute.ofBody (← get).body mainLocals)
  let main ← Build.interning (Jvm.Method.declare mainFlags "main" mainType code)
  Build.encodeClass (c.addMethod main)

/-- The class file of a program. The state of the build is also given on failure. -/
def assemble (p : Program) (names : Naming) : Except Error (List UInt8) × Assembly :=
  package names { pool := p.pool, body := p.body }

/-- The class file of a program. -/
def classFile (p : Program) (names : Naming) : Except Error (List UInt8) :=
  (p.assemble names).1

end Program

/-- The class file of a source text with its program, and the events on the way. -/
def compileClass (source : String) (names : Naming) :
    Except Error (Program × List UInt8) × Array Event :=
  match Compiler.compile source.toList with
  | (.error e, compiled) => (.error e, compiled.journal)
  | (.ok program, compiled) =>
    let (result, assembled) := program.assemble names
    (result.map (program, ·), compiled.journal ++ assembled.journal)

/-- The class file of the source text in a stream, and the events on the way. -/
def compileStream (source : Host.ByteSource) (names : Naming) :
    Except Error (Program × List UInt8) × Array Event :=
  match source.read >>= Host.decode with
  | .ok source => compileClass source names
  | .error fault => (.error { cause := .unreadable fault }, #[])

end JvmLisp
