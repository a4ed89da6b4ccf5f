import JvmLisp.Error

/-! # Method bodies

A method body under construction: its instructions and an account of the operand stack. Every
instruction is appended together with its effect on the stack, in words.
-/

namespace JvmLisp.Jvm

structure Body where
  instructions : Array Instruction := #[]
  /-- The words on the stack after the last instruction. -/
  depth : Nat := 0
  /-- The most words on the stack after any instruction. -/
  peak : Nat := 0
deriving DecidableEq

namespace Body

/-- Depths are counted in 64 bits. -/
def depthBound : Nat := UInt64.size

def append (body : Body) (i : Instruction) (depth : Nat) : Body :=
  ⟨body.instructions.push i, depth, max body.peak depth⟩

/-- Appends an instruction. If the depth would leave its bounds, the body stays as it is. -/
def emit (i : Instruction) (effect : Int) : ExceptT Error (StateM Body) Unit :=
  fun body =>
    let depth := body.depth + effect
    if 0 ≤ depth ∧ depth < depthBound then (.ok (), body.append i depth.toNat)
    else (.error { cause := .defect (.underflow i effect body.depth) }, body)

def encode (body : Body) : List UInt8 :=
  body.instructions.toList.flatMap Instruction.encode

end Body
end JvmLisp.Jvm
