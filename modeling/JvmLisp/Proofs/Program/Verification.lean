import JvmLisp.Proofs.Jvm.Descriptor
import JvmLisp.Proofs.Program.Simulation

/-! # Verification

An interpretation of operations over a stack of types. The code of a well-typed tree succeeds on
every stack and leaves the type of the tree on top; while a form is open, the stack holds the output
stream for `print` and the operands read so far for `+`. Each stated effect is the change in words,
so the depth that a compiled body declares is the most that its code ever uses.
-/

namespace JvmLisp

open Jvm (FieldType Instruction Lookup MethodType Operation)
open Source (Scan)

namespace Jvm

/-- The words that values of these types take on the stack. -/
def words (stack : List FieldType) : Nat :=
  (stack.map fun t => if t.isWide then 2 else 1).sum

@[simp] theorem words_nil : words [] = 0 := rfl

@[simp] theorem words_cons (t : FieldType) (stack : List FieldType) :
    words (t :: stack) = (if t.isWide then 2 else 1) + words stack := by
  simp [words]

@[simp] theorem words_append (stack stack' : List FieldType) :
    words (stack ++ stack') = words stack + words stack' := by
  simp [words]

def FieldType.stream : FieldType := .object "java/io/PrintStream"

def FieldType.string : FieldType := .object "java/lang/String"

/-- The stack behind an operation, the top first, if the operation finds the values that it needs:
`dup` an output stream, `ladd` two longs, and a call its arguments above the output stream. -/
def Operation.verify : Operation → List FieldType → Option (List FieldType)
  | loadText _, stack => some (.string :: stack)
  | loadLong _, stack => some (.long :: stack)
  | getstatic _ _ descriptor, stack => match FieldType.read descriptor.toList with
    | some (t, []) => some (t :: stack)
    | _ => none
  | invokevirtual owner _ descriptor, stack => do
    let m ← MethodType.read descriptor.toList
    let arguments := m.params.reverse ++ [.object owner]
    if FieldType.object owner = .stream ∧ arguments <+: stack then
      some (m.result.toList ++ stack.drop arguments.length)
    else none
  | dup, t :: stack => if t = .stream then some (t :: t :: stack) else none
  | ladd, .long :: .long :: stack => some (.long :: stack)
  | ret, stack => some stack
  | dup, [] => none
  | ladd, _ => none

def Instruction.verify (get : Lookup) (stack : List FieldType) (i : Instruction) :
    Option (List FieldType) :=
  (i.operation? get).bind (·.verify stack)

/-- The stack behind a list of instructions, if each of them succeeds. -/
def verifyAll (get : Lookup) (is : List Instruction) (stack : List FieldType) :
    Option (List FieldType) :=
  is.foldlM (Instruction.verify get) stack

end Jvm

namespace Emission

/-- Verification that also compares the stated effect with the change in words. -/
def verify (stack : List FieldType) (e : Emission) : Option (List FieldType) :=
  (e.operation.verify stack).filter fun stack' =>
    (Jvm.words stack' : Int) = Jvm.words stack + e.effect

def verifyAll (es : List Emission) (stack : List FieldType) : Option (List FieldType) :=
  es.foldlM verify stack

variable {e : Emission} {es es' : List Emission} {stack stack' : List FieldType}

theorem verify_eq_some :
    e.verify stack = some stack' ↔ e.operation.verify stack = some stack' ∧
      (Jvm.words stack' : Int) = Jvm.words stack + e.effect := by
  simp [verify, Option.filter_eq_some_iff]

@[simp] theorem verifyAll_nil : verifyAll [] stack = some stack := rfl

@[simp] theorem verifyAll_cons :
    verifyAll (e :: es) stack = (verify stack e).bind (verifyAll es) := by
  simp [verifyAll]
  rfl

theorem verifyAll_append :
    verifyAll (es ++ es') stack = (verifyAll es stack).bind (verifyAll es') := by
  simp [verifyAll, List.foldlM_append]
  rfl

theorem words_of_verifyAll (h : verifyAll es stack = some stack') :
    (Jvm.words stack' : Int) = Jvm.words stack + depth es := by
  induction es generalizing stack with
  | nil =>
    cases h
    simp
  | cons e es ih =>
    rw [verifyAll_cons, Option.bind_eq_some_iff] at h
    obtain ⟨stack₁, he, hes⟩ := h
    rw [ih hes, (verify_eq_some.1 he).2, depth_cons]
    omega

theorem verifyAll_of_prefix (h : (verifyAll es stack).isSome) (hes : es' <+: es) :
    (verifyAll es' stack).isSome := by
  obtain ⟨more, rfl⟩ := hes
  rw [verifyAll_append] at h
  exact Option.isSome_of_isSome_bind h

/-- A call without result removes its arguments and the output stream. -/
theorem verify_call {name descriptor : String} (params : List FieldType) {effect : Int}
    (hdescriptor : MethodType.text { params } = descriptor) (hparams : ∀ t ∈ params, t.Plain)
    (heffect : effect = -1 - MethodType.argumentWords { params }) (stack : List FieldType) :
    (call name descriptor effect).verify (params.reverse ++ .stream :: stack) = some stack := by
  have hread : MethodType.read descriptor.toList = some { params } := by
    rw [← hdescriptor]
    exact MethodType.read_text hparams (by simp)
  have hwords : Jvm.words params.reverse = MethodType.argumentWords { params } := by
    rw [Jvm.words, List.map_reverse, List.sum_reverse, List.sum_eq_foldr, List.foldr_map]
    rfl
  have hverify : (call name descriptor effect).operation.verify
      (params.reverse ++ [.stream] ++ stack) = some stack := by
    change Option.bind (MethodType.read descriptor.toList) _ = _
    rw [hread]
    simp [FieldType.stream, -List.append_assoc]
  rw [verify_eq_some, List.append_cons]
  constructor
  · exact hverify
  · simp [hwords, call, heffect, FieldType.stream, FieldType.isWide]
    omega

theorem verify_getstatic {owner name descriptor : String} {t : FieldType}
    (hread : FieldType.read descriptor.toList = some (t, [])) (hwide : t.isWide = false)
    (stack : List FieldType) :
    verify stack ⟨.getstatic owner name descriptor, 1⟩ = some (t :: stack) := by
  rw [verify_eq_some]
  constructor
  · simp [Operation.verify, hread]
  · simp [hwide]
    omega

theorem verify_loadText (content : String) (stack : List FieldType) :
    verify stack ⟨.loadText content, 1⟩ = some (.string :: stack) := by
  simp [verify_eq_some, Operation.verify, FieldType.string, FieldType.isWide, add_comm]

theorem verify_loadLong (value : Int64) (stack : List FieldType) :
    verify stack ⟨.loadLong value, 2⟩ = some (.long :: stack) := by
  simp [verify_eq_some, Operation.verify, FieldType.isWide, add_comm]

theorem verify_dup (stack : List FieldType) :
    verify (.stream :: stack) ⟨.dup, 1⟩ = some (.stream :: .stream :: stack) := by
  simp [verify_eq_some, Operation.verify, FieldType.stream, FieldType.isWide, add_comm]

theorem verify_ladd (stack : List FieldType) :
    verify (.long :: .long :: stack) ⟨.ladd, -2⟩ = some (.long :: stack) := by
  simp only [verify_eq_some, Operation.verify, Jvm.words_cons, FieldType.isWide, true_and, if_true]
  omega

theorem verify_ret (stack : List FieldType) : verify stack ⟨.ret, 0⟩ = some stack := by
  simp [verify_eq_some, Operation.verify]

theorem verify_printText (stack : List FieldType) :
    verify (.string :: .stream :: stack) (call "print" "(Ljava/lang/String;)V" (-2)) =
      some stack :=
  verify_call [.string] (by decide) (by simp [FieldType.Plain, FieldType.string]) rfl stack

theorem verify_printLong (stack : List FieldType) :
    verify (.long :: .stream :: stack) (call "print" "(J)V" (-3)) = some stack :=
  verify_call [.long] (by decide) (by simp [FieldType.Plain]) rfl stack

theorem verify_println (stack : List FieldType) :
    verify (.stream :: stack) (call "println" "()V" (-1)) = some stack :=
  verify_call [] (by decide) (by simp) rfl stack

end Emission

/-! ### Trees -/

/-- What a value of the type is on the stack. -/
def ValueType.stack : ValueType → List FieldType
  | void => []
  | text => [.string]
  | long => [.long]

/-- What an open form holds on the stack behind a number of operands. -/
def Operator.held : Operator → Nat → List FieldType
  | print, _ => [.stream]
  | add, n => List.replicate n .long

/-- What an operator has put on the stack before an operand. -/
def Operator.pending : Operator → List FieldType
  | print => [.stream]
  | add => []

open Emission (verifyAll verifyAll_append)

theorem Operator.verify_opens (op : Operator) (stack : List FieldType) :
    verifyAll op.opens stack = some (op.held 0 ++ stack) := by
  cases op with
  | print =>
    have hread : FieldType.read "Ljava/io/PrintStream;".toList = some (.stream, []) := by decide
    simp [opens, held, Emission.verify_getstatic hread rfl]
  | add => rfl

theorem Operator.verify_before (op : Operator) (n : Nat) (stack : List FieldType) :
    verifyAll op.before (op.held n ++ stack) = some (op.pending ++ (op.held n ++ stack)) := by
  cases op with
  | print => simp [before, held, pending, Emission.verify_dup]
  | add => rfl

theorem Operator.verify_after {op : Operator} {type : ValueType} (htakes : op.Takes type) (n : Nat)
    (stack : List FieldType) :
    verifyAll (op.after type) (type.stack ++ (op.pending ++ (op.held n ++ stack))) =
      some (op.held (n + 1) ++ stack) := by
  cases op with
  | print =>
    cases type with
    | void => exact absurd rfl htakes
    | text => simp [after, held, pending, ValueType.stack, Emission.verify_printText]
    | long => simp [after, held, pending, ValueType.stack, Emission.verify_printLong]
  | add =>
    obtain rfl : type = .long := htakes
    rfl

theorem Operator.verify_operand {op : Operator} {type : ValueType} (htakes : op.Takes type)
    {es : List Emission} (hes : ∀ stack, verifyAll es stack = some (type.stack ++ stack)) (n : Nat)
    (stack : List FieldType) :
    verifyAll (op.before ++ (es ++ op.after type)) (op.held n ++ stack) =
      some (op.held (n + 1) ++ stack) := by
  rw [verifyAll_append, op.verify_before, Option.bind_some, verifyAll_append, hes, Option.bind_some,
    Operator.verify_after htakes]

theorem Emission.verifyAll_ladd (n : Nat) (stack : List FieldType) :
    verifyAll (List.replicate n ⟨.ladd, -2⟩) (List.replicate (n + 1) .long ++ stack) =
      some (.long :: stack) := by
  induction n with
  | zero => rfl
  | succ n ih =>
    simp only [List.replicate_succ, List.cons_append, Emission.verifyAll_cons,
      Emission.verify_ladd, Option.bind_some] at ih ⊢
    exact ih

theorem Operator.verify_closes (op : Operator) (n : Nat) (stack : List FieldType) :
    verifyAll (op.closes n) (op.held n ++ stack) = some (op.type.stack ++ stack) := by
  match op, n with
  | print, _ => simp [closes, held, type, ValueType.stack, Emission.verify_println]
  | add, 0 => simp [closes, held, type, ValueType.stack, Emission.verify_loadLong]
  | add, n + 1 => exact Emission.verifyAll_ladd n stack

namespace Expr

/-- The code of operands of an open form counts them up. -/
theorem verify_emissionsOfAll {op : Operator} {es : List Expr} (htakes : ∀ e ∈ es, op.Takes e.type)
    (hes : ∀ e ∈ es, ∀ stack, verifyAll e.emissions stack = some (e.type.stack ++ stack))
    (n : Nat) (stack : List FieldType) :
    verifyAll (emissionsOfAll op es) (op.held n ++ stack) =
      some (op.held (n + es.length) ++ stack) := by
  induction es generalizing n with
  | nil => rfl
  | cons e es ih =>
    rw [List.forall_mem_cons] at htakes hes
    rw [emissionsOfAll, verifyAll_append, Operator.verify_operand htakes.1 hes.1, Option.bind_some,
      ih htakes.2 hes.2, List.length_cons, Nat.add_assoc, Nat.add_comm 1]

/-- The code of a well-typed tree leaves the type of the tree on the stack. -/
theorem WellTyped.verify_emissions {e : Expr} (h : e.WellTyped) (stack : List FieldType) :
    verifyAll e.emissions stack = some (e.type.stack ++ stack) := by
  induction h generalizing stack with
  | text content => simp [emissions, type, ValueType.stack, Emission.verify_loadText]
  | integer value => simp [emissions, type, ValueType.stack, Emission.verify_loadLong]
  | @form op es _ htakes ih =>
    have hes := verify_emissionsOfAll htakes ih 0 stack
    rw [Nat.zero_add] at hes
    rw [emissions, verifyAll_append, op.verify_opens, Option.bind_some, verifyAll_append, hes,
      Option.bind_some, op.verify_closes, type]

theorem verify_program {es : List Expr} (h : ∀ e ∈ es, e.WellTyped) :
    (verifyAll (program es) []).isSome := by
  have hall (stack : List FieldType) : (verifyAll (es.flatMap emissions) stack).isSome := by
    induction es generalizing stack with
    | nil => rfl
    | cons e es ih =>
      rw [List.forall_mem_cons] at h
      rw [List.flatMap_cons, verifyAll_append, h.1.verify_emissions]
      exact ih h.2 _
  obtain ⟨stack, hstack⟩ := Option.isSome_iff_exists.1 (hall [])
  simp [program, verifyAll_append, hstack, Emission.verify_ret]

theorem operation_ne_ret {e : Expr} {x : Emission} (hx : x ∈ e.emissions) : x.operation ≠ .ret := by
  have hfixed : ∀ x ∈ Operator.emissions, x.operation ≠ .ret := by decide
  rcases mem_emissions hx with ⟨content, -, rfl⟩ | ⟨value, rfl⟩ | hx
  · simp
  · simp
  · exact hfixed x hx

end Expr

/-! ### Depth -/

namespace Expr

theorem effect_le {es : List Expr} {x : Emission} (hx : x ∈ program es) : x.effect ≤ 2 := by
  have hfixed : ∀ x ∈ Operator.emissions, x.effect ≤ 2 := by decide
  rcases List.mem_append.1 hx with hx | hx
  · obtain ⟨e, -, hx⟩ := List.mem_flatMap.1 hx
    rcases mem_emissions hx with ⟨content, -, rfl⟩ | ⟨value, rfl⟩ | hx
    · simp
    · simp
    · exact hfixed x hx
  · obtain rfl := List.mem_singleton.1 hx
    simp

theorem length_emissionsOfAll_le (op : Operator) {es : List Expr}
    (h : ∀ e ∈ es, e.emissions.length + 3 ≤ 4 * e.tokens.length) :
    (emissionsOfAll op es).length + es.length ≤ 4 * (tokensOfAll es).length := by
  have hbefore : op.before.length ≤ 1 := by cases op <;> decide
  have hafter (type : ValueType) : (op.after type).length ≤ 1 := by
    cases op <;> cases type <;> decide
  induction es with
  | nil => simp [emissionsOfAll]
  | cons e es ih =>
    rw [List.forall_mem_cons] at h
    have htail := ih h.2
    have hafter := hafter e.type
    simp only [emissionsOfAll, tokensOfAll, List.length_append, List.length_cons]
    omega

theorem length_emissions_le (e : Expr) : e.emissions.length + 3 ≤ 4 * e.tokens.length := by
  induction e with
  | text | integer => simp [emissions, tokens]
  | form op es ih =>
    have hopens : op.opens.length ≤ 1 := by cases op <;> decide
    have hcloses : (op.closes es.length).length ≤ es.length + 1 := by
      rcases op with _ | _ <;> rcases es.length with _ | n <;> simp [Operator.closes]
      omega
    have hes := length_emissionsOfAll_le op ih
    simp only [emissions, tokens, List.length_append, List.length_cons, List.length_nil]
    omega

theorem length_program_le (es : List Expr) :
    (program es).length ≤ 4 * (tokensOfAll es).length + 1 := by
  induction es with
  | nil => simp [program]
  | cons e es ih =>
    have he := e.length_emissions_le
    simp only [program, tokensOfAll, List.flatMap_cons, List.length_append, List.length_cons,
      List.length_nil] at ih ⊢
    omega

end Expr

theorem Emission.depth_le {xs : List Emission} (h : ∀ x ∈ xs, x.effect ≤ 2) :
    depth xs ≤ 2 * xs.length := by
  induction xs with
  | nil => simp
  | cons x xs ih =>
    rw [List.forall_mem_cons] at h
    have htail := ih h.2
    have hhead := h.1
    rw [depth_cons, List.length_cons]
    omega

theorem Assembly.Holds.peak_le {a : Assembly} {es : List Expr} (h : a.Holds (Expr.program es)) :
    a.body.peak ≤ 2 * (Expr.program es).length := by
  obtain ⟨xs, hxs, hdepth⟩ := h.peak.1
  have hle := Emission.depth_le fun x hx => Expr.effect_le (hxs.subset hx)
  have hprefix := hxs.length_le
  omega

/-- In a text of less than `2 ^ 32` characters, no prefix of the code can leave the bounds. -/
theorem SpelledProgram.depth_bounds {es : List Expr} {source : List Char}
    (h : SpelledProgram es source) (hlength : source.length < 2 ^ 32)
    (htyped : ∀ e ∈ es, e.WellTyped) {xs : List Emission} (hxs : xs <+: Expr.program es) :
    0 ≤ Emission.depth xs ∧ Emission.depth xs < Jvm.Body.depthBound := by
  obtain ⟨stack, hstack⟩ := Option.isSome_iff_exists.1
    (Emission.verifyAll_of_prefix (Expr.verify_program htyped) hxs)
  have hwords : (Jvm.words stack : Int) = Emission.depth xs := by
    simpa using Emission.words_of_verifyAll hstack
  obtain ⟨r, hscan, -⟩ := spelledProgram_iff.1 h
  have htokens := hscan.length_le
  have hprogram := Expr.length_program_le es
  have hprefix := hxs.length_le
  have hdepth := Emission.depth_le fun x hx => Expr.effect_le (hxs.subset hx)
  simp only [Jvm.Body.depthBound, UInt64.size]
  omega

namespace Compiler

theorem verifyAll_of_reads {get : Lookup} {ps : List (Instruction × Int)} {es : List Emission}
    {stack stack' : List FieldType} (h : List.Forall₂ (fun p (e : Emission) => e.Reads get p) ps es)
    (hes : verifyAll es stack = some stack') :
    Jvm.verifyAll get (ps.map Prod.fst) stack = some stack' := by
  induction h generalizing stack with
  | nil => exact hes
  | cons hp _ ih =>
    rw [Emission.verifyAll_cons, Option.bind_eq_some_iff] at hes
    obtain ⟨stack₁, he, hes⟩ := hes
    rw [List.map_cons, Jvm.verifyAll, List.foldlM_cons, Instruction.verify, hp.1]
    simp only [Option.bind_some, (Emission.verify_eq_some.1 he).1, Option.bind_eq_bind]
    exact ih hes

theorem sum_of_reads {get : Lookup} {ps : List (Instruction × Int)} {es : List Emission}
    (h : List.Forall₂ (fun p (e : Emission) => e.Reads get p) ps es) :
    (ps.map Prod.snd).sum = Emission.depth es := by
  induction h with
  | nil => rfl
  | cons hp _ ih => rw [List.map_cons, List.sum_cons, ih, hp.2, Emission.depth_cons]

/-- The only return is the last instruction. -/
theorem ret_of_reads {get : Lookup} {ps : List (Instruction × Int)} {es : List Emission}
    (hne : ∀ x ∈ es, x.operation ≠ .ret)
    (h : List.Forall₂ (fun p (e : Emission) => e.Reads get p) ps (es ++ [⟨.ret, 0⟩])) :
    ∃ code, ps.map Prod.fst = code ++ [.ret] ∧ .ret ∉ code := by
  obtain ⟨ps₁, p, rfl, hret, hes⟩ := Emission.exists_of_reads_concat h
  refine ⟨ps₁.map Prod.fst, by simp [Instruction.operation?_eq_ret.1 hret.1], ?_⟩
  clear h
  induction hes with
  | nil => simp
  | cons hp _ ih =>
    rw [List.forall_mem_cons] at hne
    rw [List.map_cons, List.mem_cons, not_or]
    refine ⟨fun hpret => hne.1 ?_, ih hne.2⟩
    exact Option.some.inj (hp.1.symm.trans (Instruction.operation?_eq_ret.2 hpret.symm))

/-- Compiled code is verified at every instruction, its stated effects are the changes of the stack
in words, and the declared depth is the greatest that is reached. -/
theorem compile_verified {source : List Char} {p : Program} {a : Assembly}
    (h : compile source = (.ok p, a)) :
    p.body.instructions.toList = a.emitted.map Prod.fst ∧
    (∀ k, ∃ stack, Jvm.verifyAll p.pool.get? (p.body.instructions.toList.take k) [] = some stack ∧
      (Jvm.words stack : Int) = ((a.emitted.take k).map Prod.snd).sum) ∧
    IsGreatest {w | ∃ k stack,
      Jvm.verifyAll p.pool.get? (p.body.instructions.toList.take k) [] = some stack ∧
        w = Jvm.words stack} p.body.peak ∧
    ∃ code, p.body.instructions.toList = code ++ [.ret] ∧ .ret ∉ code := by
  obtain ⟨rfl, es, -, htyped, hholds⟩ := compile_sound h
  have hprefix (k : Nat) : ∃ stack,
      Jvm.verifyAll a.pool.get? (a.body.instructions.toList.take k) [] = some stack ∧
        (Jvm.words stack : Int) = Emission.depth ((Expr.program es).take k) := by
    obtain ⟨stack, hstack⟩ := Option.isSome_iff_exists.1
      (Emission.verifyAll_of_prefix (Expr.verify_program htyped) (List.take_prefix k _))
    refine ⟨stack, ?_, by simpa using Emission.words_of_verifyAll hstack⟩
    rw [hholds.instructions, ← List.map_take]
    exact verifyAll_of_reads (List.forall₂_take k hholds.operations) hstack
  refine ⟨hholds.instructions, ?_, ?_, ?_⟩
  · intro k
    rw [sum_of_reads (List.forall₂_take k hholds.operations)]
    exact hprefix k
  · have hpeak := hholds.peak
    constructor
    · obtain ⟨es', hes', hdepth⟩ := hpeak.1
      obtain ⟨stack, hstack, hwords⟩ := hprefix es'.length
      rw [← List.prefix_iff_eq_take.1 hes', hdepth] at hwords
      exact ⟨_, stack, hstack, by exact_mod_cast hwords.symm⟩
    · rintro w ⟨k, stack, hstack, rfl⟩
      obtain ⟨stack', hstack', hwords⟩ := hprefix k
      obtain rfl := Option.some.inj (hstack.symm.trans hstack')
      have hle := hpeak.2 ⟨_, List.take_prefix k _, rfl⟩
      rw [← hwords] at hle
      exact_mod_cast hle
  · rw [hholds.instructions]
    apply ret_of_reads _ hholds.operations
    intro x hx
    obtain ⟨e, -, hx⟩ := List.mem_flatMap.1 hx
    exact Expr.operation_ne_ret hx

/-- A text, a sum and the output of both. -/
theorem spelled_print_sum :
    SpelledProgram [.form .print [.text "a", .form .add [.integer 1, .integer 2]]]
      "(print \"a\" (+ 1 2))".toList := by
  apply spelledProgram_iff.2
  refine ⟨[], ?_, .done []⟩
  apply Scan.of_read rfl
  apply Scan.of_read rfl
  apply Scan.of_read rfl
  apply Scan.of_read rfl
  apply Scan.of_read rfl
  apply Scan.of_closing rfl
  apply Scan.of_closing rfl
  exact .nil []

theorem wellTyped_print_sum :
    ∀ e ∈ [Expr.form .print [.text "a", .form .add [.integer 1, .integer 2]]], e.WellTyped := by
  have hsum : (Expr.form .add [.integer 1, .integer 2]).WellTyped :=
    .form (by simp [Expr.WellTyped.integer]) (by simp [Expr.type, Operator.Takes])
  intro e he
  obtain rfl := List.mem_singleton.1 he
  exact .form (by simp [Expr.WellTyped.text, hsum])
    (by simp [Expr.type, Operator.Takes, Operator.type])

theorem exists_compile_print_sum : ∃ p a, compile "(print \"a\" (+ 1 2))".toList = (.ok p, a) :=
  compile_complete spelled_print_sum wellTyped_print_sum (by decide)
    fun _ hxs => spelled_print_sum.depth_bounds (by decide) wellTyped_print_sum hxs

theorem compile_verified_print_sum :
    ∃ p a, compile "(print \"a\" (+ 1 2))".toList = (.ok p, a) ∧
      p.body.instructions.toList = a.emitted.map Prod.fst ∧
      IsGreatest {w | ∃ k stack,
        Jvm.verifyAll p.pool.get? (p.body.instructions.toList.take k) [] = some stack ∧
          w = Jvm.words stack} p.body.peak := by
  obtain ⟨p, a, h⟩ := exists_compile_print_sum
  obtain ⟨hemitted, -, hpeak, -⟩ := compile_verified h
  exact ⟨p, a, h, hemitted, hpeak⟩

end Compiler

end JvmLisp
