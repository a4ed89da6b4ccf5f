import JvmLisp.Host.Fault
import JvmLisp.Host.Path

/-! # Files and directories

A file system as a value. Files and directories are found by the names that lead to them from the
root; relative paths start in the working directory.
-/

namespace JvmLisp.Host

inductive Node where
  | file (content : List UInt8)
  | directory
deriving DecidableEq

structure FileTree where
  nodes : List (List String × Node) := []
  /-- The working directory. -/
  here : List String := []
deriving DecidableEq

namespace FileTree

/-- The longest name, in bytes. -/
def maxName : Nat := 255

/-- No path is this long, in bytes. -/
def pathBound : Nat := 4096

def node? (t : FileTree) : List String → Option Node
  | [] => some .directory
  | names => t.nodes.lookup names

def put (t : FileTree) (names : List String) (node : Node) : FileTree :=
  { t with nodes := (names, node) :: t.nodes.filter (·.1 != names) }

/-- Follows the parts of a path. Every part but the last must lead to a directory. -/
def walk (t : FileTree) (current : List String) : List String → Except Fault (List String)
  | [] => .ok current
  | part :: rest =>
    match t.node? current with
    | none => .error .noSuchFile
    | some (.file _) => .error .notADirectory
    | some .directory =>
      if part = "" ∨ part = "." then walk t current rest
      else if part = ".." then walk t current.dropLast rest
      else if part.utf8ByteSize > maxName then .error .nameTooLong
      else walk t (current ++ [part]) rest

/-- The names to which the parts of a path lead. -/
def resolve (t : FileTree) (path : String) (parts : List String) : Except Fault (List String) :=
  if path.toList.contains '\x00' then .error .nulInName
  else if path.isEmpty then .error .noSuchFile
  else if path.utf8ByteSize ≥ pathBound then .error .nameTooLong
  else t.walk (if Path.isAbsolute path then [] else t.here) parts

def isDirectory (t : FileTree) (path : String) : Bool :=
  match t.resolve path (Path.parts path) with
  | .ok names => t.node? names == some .directory
  | .error _ => false

def readFile (t : FileTree) (path : String) : Except Fault (List UInt8) := do
  match t.node? (← t.resolve path (Path.parts path)) with
  | none => throw .noSuchFile
  | some .directory => throw .isADirectory
  | some (.file content) => return content

def writeFile (t : FileTree) (path : String) (content : List UInt8) : Except Fault FileTree := do
  let names ← t.resolve path (Path.parts path)
  if t.node? names = some .directory then throw .isADirectory
  return t.put names (.file content)

def makeDirectory (t : FileTree) (path : String) : Except Fault FileTree := do
  let names ← t.resolve path (Path.trimmedParts path)
  if (t.node? names).isSome then throw .fileExists
  return t.put names .directory

/-- What is in the working directory, by its path from there. -/
def contents (t : FileTree) : List (String × Node) :=
  let below := t.nodes.filter fun (names, _) =>
    t.here.isPrefixOf names && names.length > t.here.length
  below.map fun (names, node) => ("/".intercalate (names.drop t.here.length), node)

end FileTree
end JvmLisp.Host
