import JvmLisp.Program.Compiler

/-! # Listings

A listing shows the constants of a program with their indices and its instructions with their byte
offsets.
-/

namespace JvmLisp

namespace Listing

/-- Fills up with spaces on the right. -/
def padRight (width : Nat) (text : String) : String :=
  text.pushn ' ' (width - text.length)

/-- Fills up with spaces on the left. -/
def padLeft (width : Nat) (text : String) : String :=
  "".pushn ' ' (width - text.length) ++ text

def constantLine (entry : Nat × Jvm.Constant) : String :=
  "  #" ++ padRight 5 (toString entry.1) ++ " " ++ entry.2.text ++ "\n"

/-- One line for each instruction, the first of which is at the given offset. -/
def instructionLines (offset : Nat) (lines : Array String) : List Jvm.Instruction → List String
  | [] => lines.toList
  | i :: rest =>
    let line := "  " ++ padLeft 5 (toString offset) ++ ": " ++ i.text ++ "\n"
    instructionLines (offset + i.size) (lines.push line) rest

end Listing

open Listing

def Program.listing (p : Program) : String :=
  "Constant pool:\n" ++ String.join (p.pool.entries.map constantLine) ++
    "Code (max stack " ++ toString p.body.peak ++ ", " ++ toString p.body.encode.length ++
    " bytes):\n" ++ String.join (instructionLines 0 #[] p.body.instructions.toList)

end JvmLisp
