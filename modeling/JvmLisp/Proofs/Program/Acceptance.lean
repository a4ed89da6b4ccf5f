import JvmLisp.Proofs.Program.Verification

/-! # Acceptance

The language of the compiler: a source text compiles exactly if it spells well-typed trees, its
texts can be encoded, and the constants of the trees fit into a pool.
-/

namespace JvmLisp

open Jvm (Storable Item)

/-! ### Constants -/

/-- The method that prints a value of the type. -/
def ValueType.printer? : ValueType → Option Item
  | void => none
  | text => some (.member .method "java/io/PrintStream" "print" "(Ljava/lang/String;)V")
  | long => some (.member .method "java/io/PrintStream" "print" "(J)V")

/-- The constants that a form needs, by the types of its operands. -/
def Operator.needs : Operator → List ValueType → List Item
  | print, types =>
    .member .field "java/lang/System" "out" "Ljava/io/PrintStream;" ::
      .member .method "java/io/PrintStream" "println" "()V" :: types.filterMap ValueType.printer?
  | add, [] => [.long 0]
  | add, _ :: _ => []

namespace Expr

mutual

/-- The constants that a tree needs, without those that they refer to. -/
def needs : Expr → List Item
  | text content => [.string content]
  | integer value => [.long value]
  | form op operands => op.needs (operands.map type) ++ needsOfAll operands

def needsOfAll : List Expr → List Item
  | [] => []
  | e :: es => e.needs ++ needsOfAll es

end

theorem mem_needsOfAll {x : Item} {es : List Expr} :
    x ∈ needsOfAll es ↔ ∃ e ∈ es, x ∈ e.needs := by
  induction es with
  | nil => simp [needsOfAll]
  | cons e es ih => simp [needsOfAll, ih]

end Expr

/-- The constants that emissions need. -/
def Emission.items (xs : List Emission) : List Item :=
  xs.filterMap (·.operation.item?)

@[simp] theorem Emission.items_append (xs ys : List Emission) :
    items (xs ++ ys) = items xs ++ items ys :=
  List.filterMap_append

theorem Emission.flatMap_parts (xs : List Emission) :
    xs.flatMap parts = (items xs).flatMap Item.parts := by
  induction xs with
  | nil => rfl
  | cons x xs ih =>
    rw [List.flatMap_cons, ih, items, items, List.filterMap_cons, parts]
    cases x.operation.item? <;> rfl

theorem Operator.mem_needs {x : Item} {op : Operator} {types : List ValueType} :
    x ∈ op.needs types ↔ x ∈ Emission.items op.opens ∨
      (∃ type ∈ types, x ∈ Emission.items op.before ∨ x ∈ Emission.items (op.after type)) ∨
      x ∈ Emission.items (op.closes types.length) := by
  cases op with
  | print =>
    have hafter (type : ValueType) :
        x ∈ Emission.items (after print type) ↔ type.printer? = some x := by
      cases type <;>
        simp [Emission.items, after, Emission.call, Jvm.Operation.item?, ValueType.printer?,
          eq_comm]
    simp only [needs, hafter, opens, before, closes, List.mem_cons, List.mem_filterMap]
    simp [Emission.items, Emission.call, Jvm.Operation.item?, or_comm]
  | add =>
    cases types with
    | nil => simp [needs, Emission.items, opens, closes, Jvm.Operation.item?]
    | cons type types =>
      simp [needs, Emission.items, opens, before, after, closes, Jvm.Operation.item?]

namespace Expr

theorem mem_items_emissionsOfAll {x : Item} {op : Operator} {es : List Expr} :
    x ∈ Emission.items (emissionsOfAll op es) ↔ ∃ e ∈ es, x ∈ Emission.items op.before ∨
      x ∈ Emission.items e.emissions ∨ x ∈ Emission.items (op.after e.type) := by
  induction es with
  | nil => simp [emissionsOfAll, Emission.items]
  | cons e es ih => simp [emissionsOfAll, ih, or_assoc]

theorem mem_needs {x : Item} {e : Expr} : x ∈ e.needs ↔ x ∈ Emission.items e.emissions := by
  induction e with
  | text content => simp [needs, emissions, Emission.items, Jvm.Operation.item?]
  | integer value => simp [needs, emissions, Emission.items, Jvm.Operation.item?]
  | form op es ih =>
    simp only [needs, List.mem_append, Operator.mem_needs, emissions, Emission.items_append,
      mem_items_emissionsOfAll, mem_needsOfAll, List.length_map, List.mem_map]
    grind

theorem mem_items_program {x : Item} {es : List Expr} :
    x ∈ Emission.items (program es) ↔ x ∈ needsOfAll es := by
  have hret : Emission.items [⟨.ret, 0⟩] = [] := rfl
  rw [program, Emission.items_append, hret, List.append_nil, mem_needsOfAll, Emission.items,
    List.filterMap_flatMap, List.mem_flatMap]
  simp only [mem_needs, Emission.items]

/-- If the literals can be encoded, all texts of a program can. -/
theorem check_of_mem_parts {es : List Expr} (h : ∀ content ∈ literalsOfAll es, Storable content)
    {y : Emission} (hy : y ∈ program es) {x : Item} (hx : x ∈ y.parts) : x.check = .ok () := by
  rcases List.mem_append.1 hy with hy | hy
  · obtain ⟨e, he, hy⟩ := List.mem_flatMap.1 hy
    rcases mem_emissions hy with ⟨content, hcontent, rfl⟩ | ⟨value, rfl⟩ | hy
    · rcases List.mem_pair.1 hx with rfl | rfl
      · exact Jvm.Pool.checkText_eq_ok.2 (h content (mem_literalsOfAll.2 ⟨e, he, hcontent⟩))
      · rfl
    · obtain rfl := List.mem_singleton.1 hx
      rfl
    · exact Operator.check_parts (List.Subset.refl _) y hy x hx
  · obtain rfl := List.mem_singleton.1 hy
    cases hx

/-- The pool takes the constants of a program exactly if its texts can be encoded and the constants,
with those that they refer to, fit. -/
theorem absorb_program {es : List Expr} :
    (Jvm.absorb ((program es).flatMap Emission.parts) []).1 = .ok () ↔
      (∀ content ∈ literalsOfAll es, Storable content) ∧
        ∑ x ∈ ((needsOfAll es).flatMap Item.parts).toFinset, x.width ≤ 65534 := by
  have hsame : (((program es).flatMap Emission.parts).toFinset : Finset Item) =
      ((needsOfAll es).flatMap Item.parts).toFinset := by
    ext x
    simp only [Emission.flatMap_parts, List.mem_toFinset, List.mem_flatMap,
      mem_items_program]
  rw [Jvm.absorb_ok_iff, hsame]
  apply and_congr_left'
  constructor
  · intro h content hcontent
    obtain ⟨e, he, hcontent⟩ := mem_literalsOfAll.1 hcontent
    have hmem : ⟨.loadText content, 1⟩ ∈ program es :=
      List.mem_append_left _ (List.mem_flatMap.2 ⟨e, he, loadText_mem_emissions hcontent⟩)
    apply Jvm.Pool.checkText_eq_ok.1
    exact h (.utf8 content) (List.mem_flatMap.2 ⟨_, hmem, List.mem_cons_self⟩)
  · intro h x hx
    obtain ⟨y, hy, hx⟩ := List.mem_flatMap.1 hx
    exact check_of_mem_parts h hy hx

end Expr

namespace Compiler

/-- The compiler accepts exactly the texts that spell well-typed trees with texts that can be
encoded and with constants that fit. -/
theorem compile_ok_iff {source : List Char} (hlength : source.length < 2 ^ 32) :
    (∃ p, (compile source).1 = .ok p) ↔ ∃ es, SpelledProgram es source ∧
      (∀ e ∈ es, e.WellTyped) ∧ (∀ content ∈ Expr.literalsOfAll es, Storable content) ∧
      ∑ x ∈ ((Expr.needsOfAll es).flatMap Item.parts).toFinset, x.width ≤ 65534 := by
  constructor
  · rintro ⟨p, hp⟩
    obtain ⟨-, es, hspelled, htyped, hholds⟩ := compile_sound (Prod.ext hp rfl)
    exact ⟨es, hspelled, htyped, Expr.absorb_program.1 (by rw [hholds.absorbs])⟩
  · rintro ⟨es, hspelled, htyped, hneeds⟩
    obtain ⟨p, a, hcompile⟩ := compile_complete hspelled htyped (Expr.absorb_program.2 hneeds)
      fun xs hxs => hspelled.depth_bounds hlength htyped hxs
    exact ⟨p, by rw [hcompile]⟩

theorem compile_ok_print_sum :
    "(print \"a\" (+ 1 2))".toList.length < 2 ^ 32 ∧
      ∃ p, (compile "(print \"a\" (+ 1 2))".toList).1 = .ok p :=
  ⟨by decide, (compile_ok_iff (by decide)).2
    ⟨_, spelled_print_sum, wellTyped_print_sum, by decide, by decide⟩⟩

end Compiler

end JvmLisp
