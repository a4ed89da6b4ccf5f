/-! # Places in a source text

Lines and columns are counted from one. A location quotes the line it refers to.
-/

namespace JvmLisp.Source

structure Position where
  line : Nat
  column : Nat
deriving DecidableEq

def Position.text (p : Position) : String :=
  toString p.line ++ ":" ++ toString p.column

structure Location where
  position : Position
  /-- The line, as far as it has been read. -/
  quoted : String
deriving DecidableEq

end JvmLisp.Source
