import JvmLisp.Error

/-! # Failures of the command

The command fails on arguments it does not understand, on a source text that does not compile, and
on files and streams that cannot be read or written.
-/

namespace JvmLisp.Command

open Host (Fault)

/-- Arguments that cannot be understood. -/
inductive Misuse where
  | missingDirectory (option : String)
  | missingName
  | unknownOption (option : String)
  | secondInput
  /-- Anything else, in words. -/
  | other (message : String)
deriving DecidableEq

def Misuse.message : Misuse → String
  | missingDirectory option => option ++ " requires a directory"
  | missingName => "--class-name requires a name"
  | unknownOption option => "unknown option: " ++ option
  | secondInput => "only one input file may be given"
  | other message => message

inductive Failure where
  | usage (misuse : Misuse)
  | compile (error : Error)
  | read (path : String) (fault : Fault)
  | write (path : String) (fault : Fault)
deriving DecidableEq

namespace Failure

def message : Failure → String
  | usage misuse => misuse.message
  | compile error => error.message
  | read path fault => "cannot read " ++ path ++ ": " ++ fault.message
  | write path fault => "cannot write " ++ path ++ ": " ++ fault.message

/-- The fault of the system behind a failure. -/
def fault? : Failure → Option Fault
  | read _ fault | write _ fault => some fault
  | usage _ | compile _ => none

/-- The text for a terminal. -/
def render : Failure → String
  | compile error => error.render
  | failure => "error: " ++ failure.message

end Failure
end JvmLisp.Command
