import JvmLisp.Proofs.Jvm.Decoding
import JvmLisp.Proofs.Jvm.Operation

/-! # The machine

The instructions that the compiler uses, run from the bytes of a class file. Operands are looked up
in the constants of the file. The machine is stuck at an unknown instruction, at an operand that is
not a constant of the right kind, and where the stack does not hold what an instruction needs.
-/

namespace JvmLisp.Jvm

open Reader (u1 u2 shrinks_failure shrinks_pure shrinks_u1 shrinks_u2)

namespace Instruction

/-- Reads what follows an opcode. -/
def readOperand : UInt8 → Reader Instruction
  | 0x12 => return .ldc (← u1).toUInt16
  | 0x13 => return .ldc (← u2)
  | 0x14 => return .ldc2 (← u2)
  | 0x59 => return .dup
  | 0x61 => return .ladd
  | 0xB1 => return .ret
  | 0xB2 => return .getstatic (← u2)
  | 0xB4 => return .getfield (← u2)
  | 0xB6 => return .invokevirtual (← u2)
  | 0xB8 => return .invokestatic (← u2)
  | _ => failure

def read : Reader Instruction :=
  u1 >>= readOperand

/-- An instruction is read back, also a short load. -/
theorem read_append (i : Instruction) (rest : List UInt8) :
    read (i.encode ++ rest) = some (i, rest) := by
  cases i with
  | ldc index =>
    by_cases hshort : index < 256
    · have hindex : index.toUInt8.toUInt16 = index := by
        apply UInt16.toNat.inj
        have hlt : index.toNat < 256 := hshort
        simp
        omega
      simp [read, readOperand, encode, opcode, hshort, hindex]
    · simp [read, readOperand, encode, opcode, hshort]
  | _ => simp [read, readOperand, encode, opcode]

theorem shrinks_readOperand (b : UInt8) : (readOperand b).Shrinks := by
  unfold readOperand
  split
  case h_1 => exact shrinks_u1.bind fun _ => shrinks_pure _
  case h_4 | h_5 | h_6 => exact shrinks_pure _
  case h_11 => exact shrinks_failure
  all_goals exact shrinks_u2.bind fun _ => shrinks_pure _

theorem read_length_lt {i : Instruction} {code rest : List UInt8}
    (h : read code = some (i, rest)) : rest.length < code.length := by
  obtain ⟨p, hp, h⟩ := Option.bind_eq_some_iff.1 h
  exact (shrinks_readOperand p.1 p.2 _ h).trans_lt (Reader.u1_length_lt hp)

end Instruction

inductive Value where
  /-- The standard output stream. -/
  | stream
  | text (content : String)
  | long (value : Int64)
deriving DecidableEq

structure Machine where
  /-- The top comes first. -/
  stack : List Value := []
  output : String := ""
deriving DecidableEq

def Operation.exec : Operation → Machine → Option Machine
  | getstatic "java/lang/System" "out" "Ljava/io/PrintStream;", ⟨stack, output⟩ =>
    some ⟨.stream :: stack, output⟩
  | loadText content, ⟨stack, output⟩ => some ⟨.text content :: stack, output⟩
  | loadLong value, ⟨stack, output⟩ => some ⟨.long value :: stack, output⟩
  | dup, ⟨.long _ :: _, _⟩ => none
  | dup, ⟨v :: stack, output⟩ => some ⟨v :: v :: stack, output⟩
  | ladd, ⟨.long b :: .long a :: stack, output⟩ => some ⟨.long (a + b) :: stack, output⟩
  | invokevirtual "java/io/PrintStream" "print" "(Ljava/lang/String;)V",
      ⟨.text content :: .stream :: stack, output⟩ => some ⟨stack, output ++ content⟩
  | invokevirtual "java/io/PrintStream" "print" "(J)V",
      ⟨.long value :: .stream :: stack, output⟩ => some ⟨stack, output ++ toString value.toInt⟩
  | invokevirtual "java/io/PrintStream" "println" "()V", ⟨.stream :: stack, output⟩ =>
    some ⟨stack, output ++ "\n"⟩
  | _, _ => none

namespace Operation

variable (stack : List Value) (out : String)

@[simp] theorem exec_getstatic_out :
    (getstatic "java/lang/System" "out" "Ljava/io/PrintStream;").exec ⟨stack, out⟩ =
      some ⟨.stream :: stack, out⟩ :=
  rfl

@[simp] theorem exec_loadText (content : String) :
    (loadText content).exec ⟨stack, out⟩ = some ⟨.text content :: stack, out⟩ :=
  rfl

@[simp] theorem exec_loadLong (value : Int64) :
    (loadLong value).exec ⟨stack, out⟩ = some ⟨.long value :: stack, out⟩ :=
  rfl

@[simp] theorem exec_dup_stream :
    dup.exec ⟨.stream :: stack, out⟩ = some ⟨.stream :: .stream :: stack, out⟩ :=
  rfl

@[simp] theorem exec_ladd (a b : Int64) :
    ladd.exec ⟨.long b :: .long a :: stack, out⟩ = some ⟨.long (a + b) :: stack, out⟩ :=
  rfl

@[simp] theorem exec_printText (content : String) :
    (invokevirtual "java/io/PrintStream" "print" "(Ljava/lang/String;)V").exec
      ⟨.text content :: .stream :: stack, out⟩ = some ⟨stack, out ++ content⟩ :=
  rfl

@[simp] theorem exec_printLong (value : Int64) :
    (invokevirtual "java/io/PrintStream" "print" "(J)V").exec
      ⟨.long value :: .stream :: stack, out⟩ = some ⟨stack, out ++ toString value.toInt⟩ :=
  rfl

@[simp] theorem exec_println :
    (invokevirtual "java/io/PrintStream" "println" "()V").exec ⟨.stream :: stack, out⟩ =
      some ⟨stack, out ++ "\n"⟩ :=
  rfl

end Operation

def Operation.execAll (ops : List Operation) (m : Machine) : Option Machine :=
  ops.foldlM (fun m op => op.exec m) m

namespace Machine

/-- Runs code up to a return. The bytes behind the return are also given. -/
def run (get : Lookup) (code : List UInt8) (m : Machine) : Option (Machine × List UInt8) :=
  match _h : Instruction.read code with
  | none => none
  | some (i, rest) =>
    match i.operation? get with
    | none => none
    | some .ret => some (m, rest)
    | some op => (op.exec m).bind (run get rest)
termination_by code.length
decreasing_by exact Instruction.read_length_lt _h

theorem run_ret (get : Lookup) (rest : List UInt8) (m : Machine) :
    run get (Instruction.ret.encode ++ rest) m = some (m, rest) := by
  rw [run, Instruction.read_append]
  rfl

theorem run_of_exec {get : Lookup} {i : Instruction} {op : Operation} {m m' : Machine}
    (hop : i.operation? get = some op) (hexec : op.exec m = some m') (rest : List UInt8) :
    run get (i.encode ++ rest) m = run get rest m' := by
  have hne : op ≠ .ret := by
    rintro rfl
    cases hexec
  rw [run, Instruction.read_append]
  simp only [hop, hexec, Option.bind_some]

/-- The operations of a list of instructions are executed one after another. -/
theorem run_of_execAll {get : Lookup} {is : List Instruction} {ops : List Operation}
    (h : List.Forall₂ (fun i op => i.operation? get = some op) is ops) {m m' : Machine}
    (hexec : Operation.execAll ops m = some m') (rest : List UInt8) :
    run get (is.flatMap Instruction.encode ++ rest) m = run get rest m' := by
  induction h generalizing m with
  | nil =>
    cases hexec
    rfl
  | cons hop _ ih =>
    rw [Operation.execAll, List.foldlM_cons] at hexec
    obtain ⟨m₁, hexec, hmore⟩ := Option.bind_eq_some_iff.1 hexec
    rw [List.flatMap_cons, List.append_assoc, run_of_exec hop hexec]
    exact ih hmore

/-- Runs the method `main` of a class file: what it prints, and the bytes behind its return. -/
def runMain (bytes : List UInt8) : Option (String × List UInt8) := do
  let image ← Image.read.all? bytes
  let main ← image.method? "main" "([Ljava/lang/String;)V"
  let code ← image.code? main
  (run image.get code.code {}).map fun (m, rest) => (m.output, rest)

end Machine

end JvmLisp.Jvm
