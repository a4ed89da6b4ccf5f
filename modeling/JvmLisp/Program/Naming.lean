/-! # Names of the generated class

Classes are named by their internal names, in which slashes separate the packages.
-/

namespace JvmLisp

structure Naming where
  className : String := "MyClass"
  superName : String := "java/lang/Object"
deriving DecidableEq

/-- The class goes into a file that is named without the package of the class. -/
def Naming.fileName (n : Naming) : String :=
  String.ofList (n.className.toList.reverse.takeWhile (· != '/')).reverse ++ ".class"

end JvmLisp
