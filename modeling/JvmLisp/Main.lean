import JvmLisp.Command.Entry

/-! # The executable

The command on the system that the program runs on.
-/

namespace JvmLisp.Host

/-- Some system calls report their codes with a negative sign. -/
def errorCode (code : UInt32) : UInt32 :=
  if code < 0x80000000 then code else 0 - code

/-- The fault behind an error of the operating system. -/
def Fault.ofError : IO.Error → Fault
  | .noFileOrDirectory _ _ _ => .noSuchFile
  | .alreadyExists _ _ _ => .fileExists
  | .inappropriateType _ code _ => if errorCode code = 20 then .notADirectory else .isADirectory
  | .invalidArgument path code message =>
    if errorCode code = 36 then .nameTooLong
    else if errorCode code = 22 then .nulInName
    else .other (toString (IO.Error.invalidArgument path code message))
  | e => .other (toString e)

def attempt {α : Type} (action : IO α) : IO (Except Fault α) :=
  try return .ok (← action) catch e => return .error (Fault.ofError e)

instance : Services IO where
  readFile path := attempt do return (← IO.FS.readBinFile path).toList
  readInput := attempt do return (← (← IO.getStdin).readBinToEnd).toList
  writeFile path content := attempt (IO.FS.writeBinFile path ⟨content.toArray⟩)
  makeDirectory path := attempt (IO.FS.createDir path)
  isDirectory path := do
    match ← attempt (IO.FS.readBinFile path) with
    | .error .isADirectory => return true
    | _ => return false
  writeOutput text := attempt do
    let output ← IO.getStdout
    output.putStr text
    output.flush
  writeError text := IO.eprint text

end JvmLisp.Host

def main (args : List String) : IO UInt32 := do
  JvmLisp.Command.invoke (← IO.getEnv "RUST_LOG") args
