import JvmLisp.Command.Log
import JvmLisp.Command.Run
import JvmLisp.Command.Usage

/-! # The command

The whole command: it reads its arguments, does what they ask for, and ends with an exit status.
-/

namespace JvmLisp.Command

open Host (Services)

variable {m : Type → Type} [Monad m] [Services m]

def success : UInt32 := 0

def failure : UInt32 := 1

/-- Writes to the output, whether or not anyone reads it. -/
@[specialize] def say (text : String) : m Unit :=
  discard (Services.writeOutput text)

@[specialize] def execute (named : Option String) (o : Options) : m UInt32 := do
  let shown := threshold named o.verbose
  let report (event : Event) : m Unit :=
    if isShown shown event then Services.writeError (logLine event) else pure ()
  match ← (run report o).run with
  | .ok (.written path) =>
    if o.verbose then Services.writeError ("wrote " ++ path ++ "\n")
    return success
  | .ok .dumped => return success
  | .error f =>
    Services.writeError (f.render ++ "\n")
    return failure

/-- Runs the command with the level that the user names for the log, if any. -/
@[specialize] def invoke (named : Option String) (args : List String) : m UInt32 := do
  match Options.parse args with
  | .error misuse =>
    Services.writeError ((Failure.usage misuse).render ++ "\n" ++ usageHint)
    return failure
  | .ok o =>
    if o.help then
      say helpText
      return success
    else if o.version then
      say versionText
      return success
    else execute named o

end JvmLisp.Command
