import JvmLisp.Host.ByteSource
import JvmLisp.Host.FileTree
import JvmLisp.Journal

/-! # Systems

The operations that the command needs of the system it runs on, and a system that is a value.
-/

namespace JvmLisp.Host

class Services (m : Type → Type) where
  readFile : String → m (Except Fault (List UInt8))
  readInput : m (Except Fault (List UInt8))
  writeFile : String → List UInt8 → m (Except Fault Unit)
  makeDirectory : String → m (Except Fault Unit)
  isDirectory : String → m Bool
  writeOutput : String → m (Except Fault Unit)
  writeError : String → m Unit

section

variable {m : Type → Type} [Monad m] [Services m]

/-- Makes a directory unless it exists. Nothing is to be done for the empty path. -/
def ensureLast (path : String) : m (Except Fault Unit) := do
  if path.isEmpty then return .ok ()
  match ← Services.makeDirectory path with
  | .ok () => return .ok ()
  | .error fault => if ← Services.isDirectory path then return .ok () else return .error fault

/-- Makes a directory unless it exists. If a directory on the way to it is missing, its ancestors
are made first. -/
def ensureFrom (path : String) : List String → m (Except Fault Unit)
  | [] => ensureLast path
  | parent :: ancestors => do
    match ← ensureLast path with
    | .error .noSuchFile =>
      match ← ensureFrom parent ancestors with
      | .ok () => ensureLast path
      | .error fault => return .error fault
    | result => return result

/-- Makes a directory and those that contain it, unless they exist. -/
def ensureDirectory (path : String) : m (Except Fault Unit) :=
  ensureFrom path (Path.ancestors path)

end

/-- A system that is a value. -/
structure World where
  files : FileTree := {}
  input : ByteSource := {}
  output : String := ""
  /-- The fault of every write to the output, if it has one. -/
  outputFault : Option Fault := none
  error : String := ""
  /-- The events recorded in this system. -/
  journal : Array Event := #[]

/-- Records an event. -/
def World.record (event : Event) : StateM World Unit :=
  modify fun world => { world with journal := world.journal.push event }

/-- Changes the files, unless that fails. -/
def World.change (operation : FileTree → Except Fault FileTree) : StateM World (Except Fault Unit) :=
  fun world =>
    match operation world.files with
    | .ok files => (.ok (), { world with files })
    | .error fault => (.error fault, world)

instance : Services (StateM World) where
  readFile path := do return (← get).files.readFile path
  readInput := do return (← get).input.read
  writeFile path content := World.change (·.writeFile path content)
  makeDirectory path := World.change (·.makeDirectory path)
  isDirectory path := do return (← get).files.isDirectory path
  writeOutput text := do
    let world ← get
    match world.outputFault with
    | some fault => return .error fault
    | none =>
      set { world with output := world.output ++ text }
      return .ok ()
  writeError text := modify fun world => { world with error := world.error ++ text }

end JvmLisp.Host
