import JvmLisp.Proofs.Pool.Catalogue

/-! # Operations

An operation is an instruction with the constant that its operand stands for in place of the index.
Which operation an instruction is depends on the table in which the index is looked up; a table that
has grown gives the same operation.
-/

namespace JvmLisp.Jvm

inductive Operation where
  | loadText (content : String)
  | loadLong (value : Int64)
  | getstatic (owner name descriptor : String)
  | invokevirtual (owner name descriptor : String)
  | dup
  | ladd
  | ret
deriving DecidableEq

namespace Operation

/-- The constant that the operation needs. -/
def item? : Operation → Option Item
  | loadText content => some (.string content)
  | loadLong value => some (.long value)
  | getstatic owner name descriptor => some (.member .field owner name descriptor)
  | invokevirtual owner name descriptor => some (.member .method owner name descriptor)
  | dup | ladd | ret => none

/-- The instruction for the operation, with the index of its constant. -/
def instruction : Operation → UInt16 → Instruction
  | loadText _, i => .ldc i
  | loadLong _, i => .ldc2 i
  | getstatic .., i => .getstatic i
  | invokevirtual .., i => .invokevirtual i
  | dup, _ => .dup
  | ladd, _ => .ladd
  | ret, _ => .ret

end Operation

/-- The operation that an instruction stands for, if its operand is a constant of the right kind. -/
def Instruction.operation? (get : Lookup) : Instruction → Option Operation
  | ldc i => match get.resolve i with
    | some (.string content) => some (.loadText content)
    | _ => none
  | ldc2 i => match get.resolve i with
    | some (.long value) => some (.loadLong value)
    | _ => none
  | getstatic i => match get.resolve i with
    | some (.member .field owner name descriptor) => some (.getstatic owner name descriptor)
    | _ => none
  | invokevirtual i => match get.resolve i with
    | some (.member .method owner name descriptor) => some (.invokevirtual owner name descriptor)
    | _ => none
  | dup => some .dup
  | ladd => some .ladd
  | ret => some .ret
  | getfield _ | invokestatic _ => none

theorem Instruction.length_encode_le (i : Instruction) : i.encode.length ≤ 3 := by
  cases i with
  | ldc index => by_cases hshort : index < 256 <;> simp [encode, hshort, Bytes.ofUInt16]
  | _ => simp [encode, Bytes.ofUInt16]

theorem Instruction.operation?_eq_ret {get : Lookup} {i : Instruction} :
    i.operation? get = some .ret ↔ i = .ret := by
  cases i <;> simp [operation?] <;> split <;> simp

/-- The instruction for an operation is read back as the operation. -/
theorem Operation.operation?_instruction {get : Lookup} {i : UInt16} {op : Operation}
    (h : ∀ x, op.item? = some x → get.resolve i = some x) :
    (op.instruction i).operation? get = some op := by
  cases op with
  | loadText | loadLong | getstatic | invokevirtual =>
    simp [instruction, Instruction.operation?, h _ rfl]
  | dup | ladd | ret => rfl

/-- Only the instruction for an operation is read as the operation. -/
theorem Instruction.exists_eq_instruction {get : Lookup} {i : Instruction} {op : Operation}
    (h : i.operation? get = some op) :
    ∃ j, i = op.instruction j ∧ ∀ x, op.item? = some x → get.resolve j = some x := by
  cases i with
  | ldc j | ldc2 j | getstatic j | invokevirtual j =>
    simp only [operation?] at h
    split at h
    · rename_i hj
      obtain rfl := Option.some.inj h
      exact ⟨j, rfl, fun x hx => hj.trans hx⟩
    · cases h
  | dup | ladd | ret =>
    obtain rfl := Option.some.inj h
    exact ⟨0, rfl, by simp [Operation.item?]⟩
  | getfield | invokestatic => cases h

theorem Instruction.operation?_mono {get get' : Lookup} (h : get.Sub get') {i : Instruction}
    {op : Operation} (hop : i.operation? get = some op) : i.operation? get' = some op := by
  obtain ⟨j, rfl, hj⟩ := exists_eq_instruction hop
  exact Operation.operation?_instruction fun x hx => h.resolve (hj x hx)

end JvmLisp.Jvm
