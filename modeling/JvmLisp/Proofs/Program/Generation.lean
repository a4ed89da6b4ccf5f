import JvmLisp.Proofs.Program.Verification

/-! # Code by recursion on trees

A code generator that follows the structure of a tree and threads one constant pool through it. The
compiler, which keeps a list of open forms instead and never sees a tree, leaves the instructions and
the pool of the generator. So what it makes of a text depends only on the trees that the text spells,
not on how it spells them.
-/

namespace JvmLisp

open Jvm (Instruction Interning Item Operation Pool)
open Source (Scan)

/-- Loads the output stream. -/
def generateStream : Interning (List Instruction) := do
  let out ← Pool.intern (.member .field "java/lang/System" "out" "Ljava/io/PrintStream;")
  return [.getstatic out]

/-- Calls a method of the output stream. -/
def generateCall (name descriptor : String) : Interning (List Instruction) := do
  let method ← Pool.intern (.member .method "java/io/PrintStream" name descriptor)
  return [.invokevirtual method]

/-- Prints the value on the stack. Nothing is there for `void`. -/
def ValueType.generatePrint : ValueType → Interning (List Instruction)
  | void => return []
  | text => generateCall "print" "(Ljava/lang/String;)V"
  | long => generateCall "print" "(J)V"

namespace Expr

mutual

def generate : Expr → Interning (List Instruction)
  | text content => do
    let index ← Pool.intern (.string content)
    return [.ldc index]
  | integer value => do
    let index ← Pool.intern (.long value)
    return [.ldc2 index]
  | form .add [] => do
    let index ← Pool.intern (.long 0)
    return [.ldc2 index]
  | form .add (e :: es) => do
    let first ← e.generate
    let more ← generateAll es
    return first ++ more ++ List.replicate es.length .ladd
  | form .print es => do
    let stream ← generateStream
    let code ← generatePrinted es
    let newline ← generateCall "println" "()V"
    return stream ++ code ++ newline

/-- The code of trees, one after another. -/
def generateAll : List Expr → Interning (List Instruction)
  | [] => return []
  | e :: es => do
    let code ← e.generate
    let more ← generateAll es
    return code ++ more

/-- Prints trees, one after another, each with a copy of the output stream. -/
def generatePrinted : List Expr → Interning (List Instruction)
  | [] => return []
  | e :: es => do
    let code ← e.generate
    let print ← e.type.generatePrint
    let more ← generatePrinted es
    return .dup :: code ++ print ++ more

end

def generateProgram (es : List Expr) : Interning (List Instruction) := do
  let code ← generateAll es
  return code ++ [.ret]

end Expr

/-! ### Performing what the generator generates -/

namespace Build

variable {a a' : Assembly}

theorem emit_eq_ok {i : Instruction} {effect : Int} (h : emit i effect a = (.ok (), a')) :
    a'.pool = a.pool ∧ a'.body.instructions = a.body.instructions.push i := by
  have hbounds : 0 ≤ a.body.depth + effect ∧ a.body.depth + effect < Jvm.Body.depthBound := by
    by_contra hbounds
    exact emit_ne_ok a a' hbounds h
  obtain ⟨a₁, hemit, hpool, hbody, -⟩ := emit_apply i effect a hbounds
  cases hemit.symm.trans h
  exact ⟨hpool, by rw [hbody, Jvm.Body.append]⟩

end Build

/-- Where the emissions can be performed, the generator yields their instructions and leaves the
same pool. -/
def Generates (g : Interning (List Instruction)) (es : List Emission) : Prop :=
  ∀ a a', Build.performAll es a = (.ok (), a') → ∃ code, g a.pool = (.ok code, a'.pool) ∧
    a'.body.instructions.toList = a.body.instructions.toList ++ code

theorem generates_nil : Generates (return []) [] := by
  intro a a' h
  cases h
  exact ⟨[], rfl, by simp⟩

theorem Generates.append {g g' : Interning (List Instruction)} {es es' : List Emission}
    (h : Generates g es) (h' : Generates g' es') :
    Generates (do let code ← g; let more ← g'; return code ++ more) (es ++ es') := by
  intro a a' hperform
  obtain ⟨a₁, hes, hes'⟩ := Build.performAll_append_ok.1 hperform
  obtain ⟨code, hg, hcode⟩ := h a a₁ hes
  obtain ⟨more, hg', hmore⟩ := h' a₁ a' hes'
  refine ⟨code ++ more, ?_, by rw [hmore, hcode, List.append_assoc]⟩
  exact Jvm.bind_eq_ok.2 ⟨code, a₁.pool, hg, Jvm.bind_eq_ok.2 ⟨more, a'.pool, hg', rfl⟩⟩

theorem generates_plain {op : Operation} (effect : Int) (h : op.item? = none) :
    Generates (return [op.instruction 0]) [⟨op, effect⟩] := by
  intro a a' hperform
  rw [Build.performAll_singleton, Build.perform_eq_emit h] at hperform
  obtain ⟨hpool, hinstructions⟩ := Build.emit_eq_ok hperform
  exact ⟨_, by rw [hpool]; rfl, by simp [hinstructions]⟩

theorem generates_item {op : Operation} {x : Item} (effect : Int) (h : op.item? = some x) :
    Generates (do let i ← Pool.intern x; return [op.instruction i]) [⟨op, effect⟩] := by
  intro a a' hperform
  rw [Build.performAll_singleton] at hperform
  obtain ⟨i, a₁, hlocate, hemit⟩ := Jvm.bind_eq_ok.1 hperform
  rw [Build.locate, h] at hlocate
  obtain ⟨a₂, hintern, hpool, hbody, -⟩ := Build.interning_apply (Pool.intern x) a
  obtain ⟨hi, rfl⟩ := Prod.mk.inj (hintern.symm.trans hlocate)
  obtain ⟨hpool', hinstructions⟩ := Build.emit_eq_ok hemit
  refine ⟨[op.instruction i], Jvm.bind_eq_ok.2 ⟨i, a₂.pool, Prod.ext hi hpool.symm, ?_⟩, ?_⟩
  · rw [hpool']
    rfl
  · simp [hinstructions, hbody]

theorem generates_ladd (n : Nat) :
    Generates (return List.replicate n .ladd) (List.replicate n ⟨.ladd, -2⟩) := by
  induction n with
  | zero => exact generates_nil
  | succ n ih =>
    have hladd : Generates (return [.ladd]) [⟨.ladd, -2⟩] := generates_plain (-2) rfl
    simpa [List.replicate_succ] using hladd.append ih

theorem generates_stream : Generates generateStream Operator.print.opens :=
  generates_item 1 rfl

theorem generates_call (name descriptor : String) (effect : Int) :
    Generates (generateCall name descriptor) [.call name descriptor effect] :=
  generates_item effect rfl

theorem generates_print (type : ValueType) :
    Generates type.generatePrint (Operator.print.after type) := by
  cases type with
  | void => exact generates_nil
  | text => exact generates_call _ _ _
  | long => exact generates_call _ _ _

namespace Expr

theorem emissionsOfAll_add (es : List Expr) : emissionsOfAll .add es = es.flatMap emissions := by
  induction es with
  | nil => rfl
  | cons e es ih => simp [emissionsOfAll, Operator.before, Operator.after, ih]

theorem generates_all {es : List Expr} (h : ∀ e ∈ es, Generates e.generate e.emissions) :
    Generates (generateAll es) (es.flatMap emissions) := by
  induction es with
  | nil => exact generates_nil
  | cons e es ih =>
    rw [List.forall_mem_cons] at h
    rw [generateAll, List.flatMap_cons]
    exact h.1.append (ih h.2)

theorem generates_printed {es : List Expr} (h : ∀ e ∈ es, Generates e.generate e.emissions) :
    Generates (generatePrinted es) (emissionsOfAll .print es) := by
  induction es with
  | nil => exact generates_nil
  | cons e es ih =>
    rw [List.forall_mem_cons] at h
    have hdup : Generates (return [.dup]) Operator.print.before := generates_plain 1 rfl
    have hoperand := hdup.append (h.1.append (generates_print e.type))
    simpa [generatePrinted, emissionsOfAll] using hoperand.append (ih h.2)

/-- The generator and the emissions of a tree agree. -/
theorem generates (e : Expr) : Generates e.generate e.emissions := by
  induction e with
  | text content =>
    rw [generate, emissions]
    exact generates_item 1 rfl
  | integer value =>
    rw [generate, emissions]
    exact generates_item 2 rfl
  | form op es ih =>
    cases op with
    | print =>
      have hprint := generates_stream.append
        ((generates_printed ih).append (generates_call "println" "()V" (-1)))
      simpa [generate, emissions, Operator.closes] using hprint
    | add =>
      cases es with
      | nil =>
        rw [generate, emissions]
        exact generates_item 2 rfl
      | cons e es =>
        rw [List.forall_mem_cons] at ih
        have hsum := (ih.1.append (generates_all ih.2)).append (generates_ladd es.length)
        simpa [generate, emissions, emissionsOfAll_add, Operator.opens, Operator.closes] using hsum

theorem generates_program (es : List Expr) : Generates (generateProgram es) (program es) := by
  have hall := generates_all fun e (_ : e ∈ es) => e.generates
  have hret : Generates (return [.ret]) [⟨.ret, 0⟩] := generates_plain 0 rfl
  simpa [generateProgram, program] using hall.append hret

end Expr

namespace Compiler

/-- What compiling performs, from the start to the return. -/
theorem compile_performs {source : List Char} {p : Program}
    (h : (compile source).1 = .ok p) :
    ∃ es a, SpelledProgram es source ∧ Build.performAll (Expr.program es) {} = (.ok (), a) ∧
      p = ⟨a.pool, a.body⟩ := by
  obtain ⟨c, hrun, hfinish⟩ := compile_eq_ok.1 (Prod.ext h rfl)
  obtain ⟨es, hspelled, -, hes⟩ := run_source_eq_ok.1 ⟨c, hrun, rfl⟩
  obtain ⟨a, hret, rfl, -⟩ := finish_eq_ok.1 hfinish
  rw [← Build.performAll_singleton] at hret
  exact ⟨es, a, hspelled, Build.performAll_append_ok.2 ⟨_, hes, hret⟩, rfl⟩

/-- A text that compiles spells one list of trees. The program has the instructions and the pool
that the generator gives for them, and every text of the same trees that compiles gives this
program. -/
theorem compile_generates {source : List Char} {p : Program} (h : (compile source).1 = .ok p) :
    ∃ es, (∀ es', SpelledProgram es' source ↔ es' = es) ∧
      Expr.generateProgram es {} = (.ok p.body.instructions.toList, p.pool) ∧
      ∀ source' p', SpelledProgram es source' → (compile source').1 = .ok p' → p' = p := by
  obtain ⟨es, a, hspelled, hperform, rfl⟩ := compile_performs h
  refine ⟨es, fun es' => ⟨fun h' => h'.unique hspelled, fun h' => h' ▸ hspelled⟩, ?_, ?_⟩
  · obtain ⟨code, hgenerate, hcode⟩ := Expr.generates_program es {} a hperform
    rw [hcode]
    exact hgenerate
  · intro source' p' hspelled' h'
    obtain ⟨es', a', hes', hperform', rfl⟩ := compile_performs h'
    obtain rfl := hes'.unique hspelled'
    cases hperform'.symm.trans hperform
    rfl

/-- The same trees with a comment, with other white space and with longer numerals. -/
theorem spelled_print_sum_apart :
    SpelledProgram [.form .print [.text "a", .form .add [.integer 1, .integer 2]]]
      "; sum\r\n( print\t\"a\"(+ +1 002) )".toList := by
  apply spelledProgram_iff.2
  refine ⟨[], ?_, .done []⟩
  apply Scan.of_read rfl
  apply Scan.of_read rfl
  apply Scan.of_read rfl
  apply Scan.of_read rfl
  apply Scan.of_read rfl
  apply Scan.of_closing rfl
  apply Scan.of_closing rfl
  exact .nil []

theorem compile_generates_print_sum :
    ∃ p, (compile "(print \"a\" (+ 1 2))".toList).1 = .ok p ∧
      Expr.generateProgram [.form .print [.text "a", .form .add [.integer 1, .integer 2]]] {} =
        (.ok p.body.instructions.toList, p.pool) ∧
      (compile "; sum\r\n( print\t\"a\"(+ +1 002) )".toList).1 = .ok p := by
  obtain ⟨p, a, hcompile⟩ := exists_compile_print_sum
  obtain ⟨p', a', hcompile'⟩ := compile_complete spelled_print_sum_apart wellTyped_print_sum
    (by decide) fun _ hxs => spelled_print_sum_apart.depth_bounds (by decide) wellTyped_print_sum hxs
  obtain ⟨es, hes, hgenerate, hsame⟩ := compile_generates (congrArg Prod.fst hcompile)
  rw [← (hes _).1 spelled_print_sum] at hgenerate hsame
  refine ⟨p, congrArg Prod.fst hcompile, hgenerate, ?_⟩
  rw [← hsame _ p' spelled_print_sum_apart (congrArg Prod.fst hcompile')]
  exact congrArg Prod.fst hcompile'

end Compiler

end JvmLisp
