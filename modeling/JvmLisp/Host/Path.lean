/-! # Paths

A path is a text of names separated by slashes. It is absolute if it starts with a slash.
-/

namespace JvmLisp.Host.Path

def isAbsolute (path : String) : Bool :=
  path.toList.head? == some '/'

/-- The texts between the slashes. -/
def parts (path : String) : List String :=
  (path.toList.splitOn '/').map String.ofList

/-- One slash stands between a directory and a name, unless the directory is empty or already ends
with one. -/
def join (directory name : String) : String :=
  if directory.isEmpty || directory.toList.getLast? == some '/' then directory ++ name
  else directory ++ "/" ++ name

/-- The names of a path. The current directory counts only at the start of a relative path. -/
def names (path : String) : List String :=
  let leading := if (parts path).head? = some "." then ["."] else []
  leading ++ (parts path).filter fun part => part != "" && part != "."

/-- The directories that contain a path, the innermost first. -/
def ancestors (path : String) : List String :=
  let names := names path
  let root := if isAbsolute path then "/" else ""
  (List.range names.length).reverse.map fun n => root ++ "/".intercalate (names.take n)

/-- The path without slashes at its end. -/
def trimmedParts (path : String) : List String :=
  ((parts path).reverse.dropWhile (· == "")).reverse

end JvmLisp.Host.Path
