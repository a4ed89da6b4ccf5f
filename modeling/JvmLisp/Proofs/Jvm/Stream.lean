import JvmLisp.Jvm.Body
import JvmLisp.Proofs.Jvm.Machine

/-! # Streams of instructions

The bytes of a body are read from the first to the last as the instructions that it holds, each at
the offset that the sizes of those before it add up to. An instruction says by its opcode how many
bytes follow, so no two lists of instructions have the same bytes.
-/

namespace JvmLisp.Jvm

namespace Instruction

theorem size_ldc (index : UInt16) : (ldc index).size = if index < 256 then 2 else 3 := rfl

theorem length_encode (i : Instruction) : i.encode.length = i.size := by
  cases i with
  | ldc index =>
    rw [size_ldc]
    by_cases hshort : index < 256 <;> simp [encode, hshort, Bytes.ofUInt16]
  | _ => rfl

theorem encode_ne_nil (i : Instruction) : i.encode ≠ [] :=
  List.cons_ne_nil _ _

theorem length_flatMap_encode (is : List Instruction) :
    (is.flatMap encode).length = (is.map size).sum := by
  rw [List.length_flatMap]
  congr 1
  exact List.map_congr_left fun i _ => i.length_encode

/-- Only a load of one of the first 256 constants has a short operand. -/
theorem size_of_operand {i : Instruction} {index : UInt16} (h : i.operand = some index) :
    i.size = if i = .ldc index ∧ index < 256 then 2 else 3 := by
  cases i with
  | ldc index' =>
    obtain rfl := Option.some.inj h
    simp [size_ldc]
  | ret | dup | ladd => cases h
  | _ =>
    rw [if_neg (by simp)]
    rfl

/-- Instructions from an offset on, each with its own offset. -/
def placed : Nat → List Instruction → List (Nat × Instruction)
  | _, [] => []
  | n, i :: is => (n, i) :: placed (n + i.size) is

theorem getElem?_placed (n : Nat) (is : List Instruction) (k : Nat) :
    (placed n is)[k]? = is[k]?.map fun i => (n + ((is.take k).map size).sum, i) := by
  induction is generalizing n k with
  | nil => simp [placed]
  | cons i is ih =>
    cases k with
    | zero => simp [placed]
    | succ k => simp [placed, ih, Nat.add_assoc]

theorem map_snd_placed (n : Nat) (is : List Instruction) : (placed n is).map Prod.snd = is := by
  induction is generalizing n with
  | nil => rfl
  | cons i is ih => simp [placed, ih]

theorem length_placed (n : Nat) (is : List Instruction) : (placed n is).length = is.length := by
  simpa using congrArg List.length (map_snd_placed n is)

/-- Reads bytes to the last as instructions, each with the offset of its first byte. -/
def readAll (offset : Nat) (bytes : List UInt8) : Option (List (Nat × Instruction)) :=
  if bytes = [] then some [] else
    match _h : read bytes with
    | none => none
    | some (i, rest) =>
      (readAll (offset + (bytes.length - rest.length)) rest).map ((offset, i) :: ·)
termination_by bytes.length
decreasing_by exact read_length_lt _h

theorem readAll_encode_append (n : Nat) (i : Instruction) (rest : List UInt8) :
    readAll n (i.encode ++ rest) = (readAll (n + i.size) rest).map ((n, i) :: ·) := by
  have hread := i.read_append rest
  have hne : i.encode ++ rest ≠ [] := List.append_ne_nil_of_left_ne_nil i.encode_ne_nil rest
  have hconsumed : (i.encode ++ rest).length - rest.length = i.size := by
    rw [List.length_append, i.length_encode, Nat.add_sub_cancel]
  rw [readAll, if_neg hne]
  split
  · rename_i hnone
    rw [hread] at hnone
    cases hnone
  · rename_i i' rest' hsome
    rw [hread] at hsome
    cases hsome
    rw [hconsumed]

/-- Encoded instructions are read back where they are placed. -/
theorem readAll_flatMap_encode (n : Nat) (is : List Instruction) :
    readAll n (is.flatMap encode) = some (placed n is) := by
  induction is generalizing n with
  | nil =>
    rw [List.flatMap_nil, readAll]
    rfl
  | cons i is ih => rw [List.flatMap_cons, readAll_encode_append, ih, Option.map_some, placed]

theorem flatMap_encode_split {is : List Instruction} {k : Nat} {i : Instruction}
    (h : is[k]? = some i) :
    is.flatMap encode =
      (is.take k).flatMap encode ++ (i.encode ++ (is.drop (k + 1)).flatMap encode) := by
  obtain ⟨hk, rfl⟩ := List.getElem?_eq_some_iff.1 h
  rw [← List.flatMap_cons, ← List.drop_eq_getElem_cons, ← List.flatMap_append,
    List.take_append_drop]

/-- The bytes at the offset of an instruction are its own. -/
theorem encode_prefix_drop {is : List Instruction} {k : Nat} {i : Instruction}
    (h : is[k]? = some i) :
    i.encode <+: (is.flatMap encode).drop ((is.take k).map size).sum := by
  rw [flatMap_encode_split h, ← length_flatMap_encode, List.drop_left]
  exact List.prefix_append ..

end Instruction

namespace Body

theorem readAll_encode (body : Body) :
    Instruction.readAll 0 body.encode = some (Instruction.placed 0 body.instructions.toList) :=
  Instruction.readAll_flatMap_encode 0 _

/-- The bytes of a body are read back to the last as its instructions, and each instruction is found
at the sum of the sizes before it, where its own bytes stand. A load of one of the first 256
constants takes two bytes, and every other instruction with an operand takes three. So bodies with
equal bytes have equal instructions. -/
theorem encode_decodable (body : Body) :
    let is := body.instructions.toList
    (∃ found, Instruction.readAll 0 body.encode = some found ∧ found.map Prod.snd = is ∧
      ∀ k i, is[k]? = some i →
        found[k]? = some (((is.take k).map Instruction.size).sum, i) ∧
        i.encode <+: body.encode.drop ((is.take k).map Instruction.size).sum) ∧
    (∀ i ∈ is, ∀ index, i.operand = some index →
      i.encode.length = if i = .ldc index ∧ index < 256 then 2 else 3) ∧
    ∀ body', encode body' = body.encode → body'.instructions = body.instructions := by
  intro is
  refine ⟨⟨_, body.readAll_encode, Instruction.map_snd_placed 0 is, ?_⟩, ?_, ?_⟩
  · intro k i hi
    constructor
    · rw [Instruction.getElem?_placed, hi, Option.map_some, Nat.zero_add]
    · exact Instruction.encode_prefix_drop hi
  · intro i _ index hindex
    rw [i.length_encode, Instruction.size_of_operand hindex]
  · intro body' hbytes
    have hplaced := body'.readAll_encode
    rw [hbytes, body.readAll_encode, Option.some.injEq] at hplaced
    apply Array.toList_inj.1
    rw [← Instruction.map_snd_placed 0 body'.instructions.toList, ← hplaced,
      Instruction.map_snd_placed]

end Body

end JvmLisp.Jvm
