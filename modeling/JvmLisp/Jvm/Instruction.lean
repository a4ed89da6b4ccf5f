import JvmLisp.Bytes

/-! # Instructions

The instructions of a method body. Each is an opcode byte followed by its operand, an index into the
constant pool. Loading a one-word constant has a short form for the first 256 indices.
-/

namespace JvmLisp.Jvm

inductive Instruction where
  | ldc (index : UInt16)
  | ldc2 (index : UInt16)
  | getstatic (index : UInt16)
  | getfield (index : UInt16)
  | invokestatic (index : UInt16)
  | invokevirtual (index : UInt16)
  | ret
  | dup
  | ladd
deriving DecidableEq

namespace Instruction

def opcode : Instruction → UInt8
  | ldc index => if index < 256 then 0x12 else 0x13
  | ldc2 _ => 0x14
  | dup => 0x59
  | ladd => 0x61
  | ret => 0xB1
  | getstatic _ => 0xB2
  | getfield _ => 0xB4
  | invokevirtual _ => 0xB6
  | invokestatic _ => 0xB8

def mnemonic : Instruction → String
  | ldc index => if index < 256 then "ldc" else "ldc_w"
  | ldc2 _ => "ldc2_w"
  | getstatic _ => "getstatic"
  | getfield _ => "getfield"
  | invokestatic _ => "invokestatic"
  | invokevirtual _ => "invokevirtual"
  | ret => "return"
  | dup => "dup"
  | ladd => "ladd"

def operand : Instruction → Option UInt16
  | ldc index | ldc2 index | getstatic index | getfield index | invokestatic index
  | invokevirtual index => some index
  | ret | dup | ladd => none

/-- The number of bytes that the instruction takes in a method body. -/
def size : Instruction → Nat
  | ldc index => if index < 256 then 2 else 3
  | ret | dup | ladd => 1
  | _ => 3

def encode (i : Instruction) : List UInt8 :=
  i.opcode :: match i with
    | ldc index => if index < 256 then [index.toUInt8] else Bytes.ofUInt16 index
    | ldc2 index | getstatic index | getfield index | invokestatic index | invokevirtual index =>
      Bytes.ofUInt16 index
    | ret | dup | ladd => []

def text (i : Instruction) : String :=
  match i.operand with
  | some index => i.mnemonic ++ " #" ++ toString index.toNat
  | none => i.mnemonic

end Instruction
end JvmLisp.Jvm
