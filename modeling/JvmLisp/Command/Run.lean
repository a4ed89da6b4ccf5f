import JvmLisp.Command.Options
import JvmLisp.Host.Services
import JvmLisp.Program.Listing
import JvmLisp.Program.Packaging

/-! # Running the compiler

A run reads a source text, compiles it and writes the class file or a listing. Nothing is written
unless the whole class file has been made.
-/

namespace JvmLisp.Command

open Host (Fault Services)

inductive Outcome where
  | written (path : String)
  | dumped
deriving DecidableEq

variable {m : Type → Type} [Monad m] [Services m]

/-- An operation of the system, with its fault as a failure of the command. -/
@[inline] def attempt {α : Type} (failure : Fault → Failure) (operation : m (Except Fault α)) :
    ExceptT Failure m α :=
  ExceptT.mk ((·.mapError failure) <$> operation)

/-- Reads the source file, or else the standard input. -/
@[specialize] def readSource (report : Event → m Unit) : Option String → ExceptT Failure m String
  | some path => do
    report (.readingFile path)
    let bytes ← attempt (.read path) (Services.readFile path)
    liftExcept ((Host.decode bytes).mapError (Failure.read path))
  | none => do
    report .readingInput
    let bytes ← attempt (.read "<stdin>") Services.readInput
    liftExcept ((Host.decode bytes).mapError (Failure.read "<stdin>"))

/-- Writes a class file, or else the listing of its program. -/
@[specialize] def writeResult (report : Event → m Unit) (o : Options) (program : Program)
    (bytes : List UInt8) : ExceptT Failure m Outcome := do
  if o.dump then
    attempt (.write "<stdout>") (Services.writeOutput program.listing)
    return .dumped
  if let some directory := o.outputDir then
    attempt (.write directory) (Host.ensureDirectory directory)
  attempt (.write o.outputPath) (Services.writeFile o.outputPath bytes)
  report (.wrote o.outputPath bytes.length)
  return .written o.outputPath

@[specialize] def run (report : Event → m Unit) (o : Options) : ExceptT Failure m Outcome := do
  let source ← readSource report o.input
  let (result, events) := compileClass source o.naming
  events.forM fun event => (report event : m Unit)
  let (program, bytes) ← liftExcept (result.mapError Failure.compile)
  writeResult report o program bytes

end JvmLisp.Command
