import JvmLisp.Proofs.Pool.Refusal
import JvmLisp.Proofs.Program.Acceptance

/-! # What the code uses

The pool of a program holds what its code uses and nothing else. Every operand is the index of a
constant of the kind that the instruction takes, and every constant is such an operand, or is led to
by references from one.
-/

namespace JvmLisp

open Jvm (Instruction Item Lookup)

/-! ### Operands -/

namespace Jvm

/-- The operand is the index of a constant that the code of a program uses with the instruction. -/
def Instruction.OperandFits (get : Lookup) : Instruction → Prop
  | ldc i => ∃ content, get.resolve i = some (.string content)
  | ldc2 i => ∃ value, get.resolve i = some (.long value)
  | getstatic i =>
    get.resolve i = some (.member .field "java/lang/System" "out" "Ljava/io/PrintStream;")
  | invokevirtual i => ∃ name descriptor,
    get.resolve i = some (.member .method "java/io/PrintStream" name descriptor) ∧
      (name, descriptor) ∈
        [("print", "(Ljava/lang/String;)V"), ("print", "(J)V"), ("println", "()V")]
  | getfield _ | invokestatic _ => False
  | dup | ladd | ret => True

theorem Operation.operand_instruction {op : Operation} {x : Item} (h : op.item? = some x)
    (j : UInt16) : (op.instruction j).operand = some j := by
  cases op with
  | loadText | loadLong | getstatic | invokevirtual => rfl
  | dup | ladd | ret => cases h

end Jvm

/-- An instruction that performs an emission of a program has an operand that fits. -/
theorem Expr.operandFits_of_mem_program {es : List Expr} {y : Emission} {get : Lookup}
    {i : Instruction} (hy : y ∈ program es) (h : i.operation? get = some y.operation) :
    i.OperandFits get := by
  obtain ⟨j, rfl, hj⟩ := Instruction.exists_eq_instruction h
  rcases List.mem_append.1 hy with hy | hy
  · obtain ⟨e, -, hy⟩ := List.mem_flatMap.1 hy
    rcases mem_emissions hy with ⟨content, -, rfl⟩ | ⟨value, rfl⟩ | hy
    · exact ⟨content, hj _ rfl⟩
    · exact ⟨value, hj _ rfl⟩
    · simp only [Operator.emissions, List.mem_cons, List.not_mem_nil, or_false] at hy
      rcases hy with rfl | rfl | rfl | rfl | rfl | rfl | rfl
      · exact hj _ rfl
      · trivial
      · exact ⟨_, _, hj _ rfl, by simp⟩
      · exact ⟨_, _, hj _ rfl, by simp⟩
      · exact ⟨_, _, hj _ rfl, by simp⟩
      · exact ⟨0, hj _ rfl⟩
      · trivial
  · obtain rfl := List.mem_singleton.1 hy
    trivial

/-! ### Integers -/

/-- An empty sum stands for zero. -/
def Operator.implied : Operator → Nat → List Int64
  | add, 0 => [0]
  | _, _ => []

namespace Expr

mutual

/-- The integers in a tree, with those of empty sums. -/
def integers : Expr → List Int64
  | text _ => []
  | integer value => [value]
  | form op operands => op.implied operands.length ++ integersOfAll operands

def integersOfAll : List Expr → List Int64
  | [] => []
  | e :: es => e.integers ++ integersOfAll es

end

theorem mem_integersOfAll {value : Int64} {es : List Expr} :
    value ∈ integersOfAll es ↔ ∃ e ∈ es, value ∈ e.integers := by
  induction es with
  | nil => simp [integersOfAll]
  | cons e es ih => simp [integersOfAll, ih]

theorem long_mem_needs {value : Int64} {e : Expr} : .long value ∈ e.needs ↔ value ∈ e.integers := by
  induction e with
  | text content => simp [needs, integers]
  | integer value => simp [needs, integers]
  | form op es ih =>
    have hop : .long value ∈ op.needs (es.map type) ↔ value ∈ op.implied es.length := by
      cases op with
      | print =>
        have hprinter (type : ValueType) : type.printer? ≠ some (.long value) := by
          cases type <;> simp [ValueType.printer?]
        simp [Operator.needs, Operator.implied, hprinter]
      | add => cases es <;> simp [Operator.needs, Operator.implied]
    simp only [needs, integers, List.mem_append, hop, mem_needsOfAll, mem_integersOfAll]
    grind

end Expr

/-! ### Constants -/

/-- The value of an integer of two words. -/
def Jvm.Constant.long? : Constant → Option Int64
  | long value => some value
  | _ => none

namespace Jvm.Pool

variable {pool : Pool}

/-- The integers of two words in a pool. -/
def longs (pool : Pool) : List Int64 :=
  pool.entries.filterMap fun e => e.2.long?

theorem Valid.longs_eq (h : pool.Valid) : pool.longs = pool.constants.filterMap Constant.long? := by
  rw [← Constant.map_snd_numbered 1 pool.constants, ← h.entries_eq, List.filterMap_map]
  rfl

theorem Valid.mem_longs (h : pool.Valid) {value : Int64} :
    value ∈ pool.longs ↔ .long value ∈ pool.items := by
  have hlong (c : Constant) : c.long? = some value ↔ c = .long value := by
    cases c <;> simp [Constant.long?]
  rw [h.longs_eq, h.long_mem_items, ← h.mem_constants]
  simp only [List.mem_filterMap, hlong, exists_eq_right]

theorem Valid.nodup_longs (h : pool.Valid) : pool.longs.Nodup := by
  rw [h.longs_eq]
  apply h.nodup.filterMap
  intro c d value hc hd
  cases c <;> cases d <;> simp_all [Constant.long?]

end Jvm.Pool

namespace Assembly.Holds

variable {a : Assembly} {es : List Expr}

theorem mem_items (h : a.Holds (Expr.program es)) {x : Item} :
    x ∈ a.pool.items ↔ ∃ y ∈ Expr.needsOfAll es, x ∈ y.parts := by
  rw [Jvm.mem_of_absorb h.absorbs, Emission.flatMap_parts, List.mem_flatMap]
  simp [Expr.mem_items_program]

theorem toFinset_longs (h : a.Holds (Expr.program es)) :
    a.pool.longs.toFinset = (Expr.integersOfAll es).toFinset := by
  ext value
  have hparts (y : Item) : .long value ∈ y.parts ↔ y = .long value := by
    cases y <;> simp [Item.parts, eq_comm]
  simp only [List.mem_toFinset, h.valid.mem_longs, h.mem_items, hparts, exists_eq_right]
  simp only [Expr.mem_needsOfAll, Expr.long_mem_needs, Expr.mem_integersOfAll]

/-- From the operands of the code, references lead to every constant. -/
theorem exists_operand_leads (h : a.Holds (Expr.program es)) {i : UInt16} {c : Jvm.Constant}
    (hc : a.pool.get? i = some c) : ∃ x ∈ a.body.instructions.toList, ∃ j,
      x.operand = some j ∧ Relation.ReflTransGen (Lookup.Refers a.pool.get?) j i := by
  obtain ⟨x, -, hx⟩ := h.valid.resolve_of_get? hc
  obtain ⟨y, hy, hxy⟩ := h.mem_items.1 (h.valid.mem_items.2 ⟨i, hx⟩)
  obtain ⟨e, he, hey⟩ := List.mem_filterMap.1 (Expr.mem_items_program.2 hy)
  obtain ⟨ins, hins, hop⟩ := List.mem_map.1 (h.map_operation? ▸ List.mem_map_of_mem he)
  obtain ⟨j, rfl, hj⟩ := Instruction.exists_eq_instruction hop
  obtain ⟨k, hk, hkx⟩ := Lookup.leads_of_mem_parts (hj y hey) hxy
  obtain rfl := h.valid.resolve_inj hkx hx
  exact ⟨_, hins, j, Jvm.Operation.operand_instruction hey j, hk⟩

end Assembly.Holds

namespace Compiler

/-- The pool of a compiled text is what its code uses: every operand is the index of a text, a number
or a member that prints, as its instruction takes it; from these indices references lead to every
constant; no constant is there twice, and no two indices mean the same; and there are as many numbers
as the text has different ones, with zero for empty sums. -/
theorem compile_pool_used {source : List Char} {p : Program} (h : (compile source).1 = .ok p) :
    ∃ es, (∀ es', SpelledProgram es' source ↔ es' = es) ∧
      (∀ x ∈ p.body.instructions.toList, x.OperandFits p.pool.get?) ∧
      (∀ i c, p.pool.get? i = some c → ∃ x ∈ p.body.instructions.toList, ∃ j,
        x.operand = some j ∧ Relation.ReflTransGen (Lookup.Refers p.pool.get?) j i) ∧
      (p.pool.entries.map Prod.snd).Nodup ∧
      (∀ i j x, p.pool.resolve i = some x → p.pool.resolve j = some x → i = j) ∧
      p.pool.longs.length = (Expr.integersOfAll es).toFinset.card := by
  obtain ⟨a, hcompile⟩ : ∃ a, compile source = (.ok p, a) := ⟨_, Prod.ext h rfl⟩
  obtain ⟨rfl, es, hspelled, -, hholds⟩ := compile_sound hcompile
  have hunique (es' : List Expr) : SpelledProgram es' source ↔ es' = es :=
    ⟨fun h' => h'.unique hspelled, fun h' => h' ▸ hspelled⟩
  refine ⟨es, hunique, ?_, ?_, ?_, ?_, ?_⟩
  · intro x hx
    obtain ⟨y, hy, hop⟩ := List.mem_map.1 (hholds.map_operation? ▸ List.mem_map_of_mem hx)
    exact Expr.operandFits_of_mem_program hy hop.symm
  · exact fun i c => hholds.exists_operand_leads
  · rw [hholds.valid.entries_eq, Jvm.Constant.map_snd_numbered]
    exact hholds.valid.nodup
  · exact fun i j x => hholds.valid.resolve_inj
  · rw [← List.toFinset_card_of_nodup hholds.valid.nodup_longs, hholds.toFinset_longs]

/-- Two numbers are printed as a sum, so the pool holds two. -/
theorem compile_pool_used_print_sum : ∃ p, (compile "(print \"a\" (+ 1 2))".toList).1 = .ok p ∧
    (∀ x ∈ p.body.instructions.toList, x.OperandFits p.pool.get?) ∧ p.pool.longs.length = 2 := by
  obtain ⟨p, a, hcompile⟩ := exists_compile_print_sum
  have h := congrArg Prod.fst hcompile
  obtain ⟨es, hspelled, hfits, -, -, -, hlongs⟩ := compile_pool_used h
  obtain rfl := (hspelled _).1 spelled_print_sum
  exact ⟨p, h, hfits, hlongs⟩

end Compiler

end JvmLisp
