import JvmLisp.Proofs.Jvm.Account
import JvmLisp.Proofs.Program.Generation

/-! # Depth by recursion on trees

How deep the stack of a program gets follows from its trees alone. What the compiler keeps is one
count over the whole code, and no tree; but the code of a tree adds the width of its type and rises
in between by the peak of the tree, wherever it starts. Trees in a row stand on the values of those
before them, the operands of `print` on the output stream and its copy.
-/

namespace JvmLisp

open Jvm (highWater highWater_append)

/-- The greatest of some numbers, or zero if there are none. -/
def highest (ns : List Nat) : Nat :=
  ns.foldr max 0

@[simp] theorem highest_nil : highest [] = 0 := rfl

@[simp] theorem highest_cons (n : Nat) (ns : List Nat) : highest (n :: ns) = max n (highest ns) := rfl

/-- The peak of a form, by the peaks of its operands. -/
def Operator.peak : Operator → List Nat → Nat
  | print, peaks => max 1 (highest (peaks.map fun peak => 2 + peak))
  | add, [] => 2
  | add, peaks => highest (peaks.mapIdx fun j peak => 2 * j + peak)

namespace Expr

mutual

/-- The most words that the code of a tree puts on the stack. -/
def peak : Expr → Nat
  | text _ => 1
  | integer _ => 2
  | form op operands => op.peak (peaks operands)

def peaks : List Expr → List Nat
  | [] => []
  | e :: es => e.peak :: peaks es

end

theorem peaks_eq_map (es : List Expr) : peaks es = es.map peak := by
  induction es with
  | nil => rfl
  | cons e es ih => rw [peaks, ih, List.map_cons]

/-- The words that the values of trees take, one above the other. -/
def widths (es : List Expr) : Nat :=
  (es.map fun e => e.type.width).sum

@[simp] theorem widths_nil : widths [] = 0 := rfl

@[simp] theorem widths_cons (e : Expr) (es : List Expr) :
    widths (e :: es) = e.type.width + widths es := by
  simp [widths]

end Expr

/-! ### Emissions -/

namespace Emission

/-- How far emissions raise the stack above where it was. -/
def peak (es : List Emission) : Int :=
  highWater (es.map effect)

@[simp] theorem peak_nil : peak [] = 0 := rfl

@[simp] theorem peak_singleton (e : Emission) : peak [e] = max 0 e.effect := by
  simp [peak, highWater]

@[simp] theorem peak_append (es es' : List Emission) :
    peak (es ++ es') = max (peak es) (depth es + peak es') := by
  simp [peak, depth]

theorem depth_le_peak (es : List Emission) : depth es ≤ peak es :=
  Jvm.sum_le_highWater _

theorem peak_replicate_ladd (n : Nat) : peak (List.replicate n ⟨.ladd, -2⟩) = 0 := by
  induction n with
  | zero => rfl
  | succ n ih =>
    have hdepth := depth_le_peak (List.replicate n ⟨.ladd, -2⟩)
    simp only [List.replicate_succ', peak_append, peak_singleton]
    omega

/-- The depths behind all prefixes are what emissions raise the stack to. -/
theorem isGreatest_peak (es : List Emission) :
    IsGreatest {d | ∃ es', es' <+: es ∧ depth es' = d} (peak es) := by
  obtain ⟨⟨ds, hds, hsum⟩, hmax⟩ := Jvm.isGreatest_highWater (es.map effect)
  constructor
  · obtain ⟨es', hes', rfl⟩ := List.prefix_map_iff.1 hds
    exact ⟨es', hes', hsum⟩
  · rintro d ⟨es', hes', rfl⟩
    exact hmax ⟨es'.map effect, hes'.map effect, rfl⟩

end Emission

theorem Assembly.Holds.peak_eq {a : Assembly} {es : List Emission} (h : a.Holds es) :
    (a.body.peak : Int) = Emission.peak es :=
  h.peak.unique (Emission.isGreatest_peak es)

/-! ### Trees -/

theorem ValueType.words_stack (type : ValueType) : Jvm.words type.stack = type.width := by
  cases type <;> rfl

/-- After an operand, `print` removes it with the copy of the output stream. -/
theorem Operator.depth_after_print {type : ValueType} (h : print.Takes type) :
    Emission.depth (print.after type) = -1 - type.width ∧ Emission.peak (print.after type) = 0 := by
  cases type with
  | void => exact absurd rfl h
  | text | long => exact ⟨rfl, rfl⟩

namespace Expr

theorem WellTyped.depth_emissions {e : Expr} (h : e.WellTyped) :
    Emission.depth e.emissions = e.type.width := by
  have hwords := Emission.words_of_verifyAll (h.verify_emissions [])
  rw [List.append_nil, ValueType.words_stack] at hwords
  simpa using hwords.symm

/-- The emissions of a tree rise by its peak. -/
def Rises (e : Expr) : Prop :=
  Emission.depth e.emissions = e.type.width ∧ Emission.peak e.emissions = e.peak

theorem Rises.width_le {e : Expr} (h : e.Rises) : e.type.width ≤ e.peak := by
  have hle := Emission.depth_le_peak e.emissions
  rw [h.1, h.2] at hle
  exact_mod_cast hle

theorem depth_flatMap {es : List Expr} (h : ∀ e ∈ es, e.Rises) :
    Emission.depth (es.flatMap emissions) = widths es := by
  induction es with
  | nil => rfl
  | cons e es ih =>
    rw [List.forall_mem_cons] at h
    rw [List.flatMap_cons, Emission.depth_append, h.1.1, ih h.2, widths_cons, Nat.cast_add]

/-- Trees in a row, from any number of words on. Each stands on the values of those before it. -/
theorem peak_flatMap {es : List Expr} (h : ∀ e ∈ es, e.Rises) (n : Nat) :
    n + Emission.peak (es.flatMap emissions) =
      max n (highest (es.mapIdx fun i e => n + widths (es.take i) + e.peak)) := by
  induction es generalizing n with
  | nil => simp
  | cons e es ih =>
    rw [List.forall_mem_cons] at h
    have hwidth := h.1.width_le
    have hrest := ih h.2 (n + e.type.width)
    have hrow : ((e :: es).mapIdx fun i e' => n + widths ((e :: es).take i) + e'.peak) =
        (n + e.peak) :: es.mapIdx fun i e' => n + e.type.width + widths (es.take i) + e'.peak := by
      simp [List.mapIdx_cons, Nat.add_assoc]
    rw [hrow, List.flatMap_cons, Emission.peak_append, h.1.1, h.1.2, highest_cons]
    push_cast at hrest ⊢
    omega

/-- Operands of `print`, above the output stream. -/
theorem peak_emissionsOfAll_print {es : List Expr} (h : ∀ e ∈ es, e.Rises)
    (htakes : ∀ e ∈ es, Operator.print.Takes e.type) :
    Emission.depth (emissionsOfAll .print es) = 0 ∧
      1 + Emission.peak (emissionsOfAll .print es) =
        max 1 (highest ((peaks es).map fun peak => 2 + peak)) := by
  induction es with
  | nil => exact ⟨rfl, rfl⟩
  | cons e es ih =>
    rw [List.forall_mem_cons] at h htakes
    obtain ⟨hdepth, hpeak⟩ := ih h.2 htakes.2
    obtain ⟨hafter, hafter'⟩ := Operator.depth_after_print htakes.1
    have hwidth := h.1.width_le
    have hbefore : Emission.depth Operator.print.before = 1 ∧
        Emission.peak Operator.print.before = 1 := ⟨rfl, rfl⟩
    simp only [emissionsOfAll, peaks, List.map_cons, highest_cons, Emission.depth_append,
      Emission.peak_append, hdepth, hafter, hafter', hbefore, h.1.1, h.1.2]
    constructor <;> omega

theorem peak_emissions_print {es : List Expr} (h : ∀ e ∈ es, e.Rises)
    (htakes : ∀ e ∈ es, Operator.print.Takes e.type) :
    Emission.peak (form .print es).emissions = (form .print es).peak := by
  obtain ⟨hdepth, hpeak⟩ := peak_emissionsOfAll_print h htakes
  have hopens : Emission.depth Operator.print.opens = 1 ∧
      Emission.peak Operator.print.opens = 1 := ⟨rfl, rfl⟩
  have hcloses : Emission.depth (Operator.print.closes es.length) = -1 ∧
      Emission.peak (Operator.print.closes es.length) = 0 := ⟨rfl, rfl⟩
  simp only [emissions, peak, Operator.peak, Emission.peak_append, hopens, hcloses, hdepth]
  omega

theorem widths_of_long {es : List Expr} (h : ∀ e ∈ es, e.type = .long) :
    widths es = 2 * es.length := by
  induction es with
  | nil => rfl
  | cons e es ih =>
    rw [List.forall_mem_cons] at h
    rw [widths_cons, h.1, ih h.2, List.length_cons, ValueType.width]
    omega

/-- Operands of a sum are trees in a row, with two words each. -/
theorem mapIdx_peaks {es : List Expr} (h : ∀ e ∈ es, e.type = .long) :
    (peaks es).mapIdx (fun j peak => 2 * j + peak) =
      es.mapIdx fun i e => 0 + widths (es.take i) + e.peak := by
  apply List.ext_getElem?
  intro i
  rw [peaks_eq_map, List.getElem?_mapIdx, List.getElem?_mapIdx, List.getElem?_map, Option.map_map]
  by_cases hi : i < es.length
  · have hlong : ∀ e ∈ es.take i, e.type = .long := fun e he => h e (List.mem_of_mem_take he)
    rw [widths_of_long hlong, List.length_take_of_le hi.le, Nat.zero_add]
    rfl
  · rw [List.getElem?_eq_none (Nat.le_of_not_lt hi)]
    rfl

theorem peak_emissions_add {es : List Expr} (h : ∀ e ∈ es, e.Rises)
    (htakes : ∀ e ∈ es, e.type = .long) :
    Emission.peak (form .add es).emissions = (form .add es).peak := by
  cases es with
  | nil => rfl
  | cons e es =>
    have hrow := peak_flatMap h 0
    rw [← mapIdx_peaks htakes] at hrow
    have hclosing := Emission.peak_replicate_ladd es.length
    have hbelow := Emission.depth_le_peak ((e :: es).flatMap emissions)
    have hpeak : (form .add (e :: es)).peak =
        highest ((peaks (e :: es)).mapIdx fun j peak => 2 * j + peak) := by
      rw [peak, peaks, Operator.peak]
      simp
    simp only [hpeak, emissions, Operator.opens, Operator.closes, List.nil_append,
      emissionsOfAll_add, List.length_cons, Emission.peak_append, hclosing]
    push_cast at hrow ⊢
    omega

theorem WellTyped.rises {e : Expr} (h : e.WellTyped) : e.Rises := by
  induction h with
  | text content => exact ⟨rfl, rfl⟩
  | integer value => exact ⟨rfl, rfl⟩
  | @form op es hoperands htakes ih =>
    refine ⟨(WellTyped.form hoperands htakes).depth_emissions, ?_⟩
    cases op with
    | print => exact peak_emissions_print ih htakes
    | add => exact peak_emissions_add ih htakes

theorem depth_program {es : List Expr} (h : ∀ e ∈ es, e.Rises) :
    Emission.depth (program es) = widths es := by
  rw [program, Emission.depth_append, depth_flatMap h]
  simp

theorem peak_program {es : List Expr} (h : ∀ e ∈ es, e.Rises) :
    Emission.peak (program es) = highest (es.mapIdx fun i e => widths (es.take i) + e.peak) := by
  have hrow := peak_flatMap h 0
  have hret : Emission.peak [⟨.ret, 0⟩] = 0 := rfl
  have hbelow := Emission.depth_le_peak (es.flatMap emissions)
  simp only [Nat.zero_add] at hrow
  rw [program, Emission.peak_append, hret]
  omega

end Expr

namespace Compiler

/-- The stack of a compiled text ends with the values of its trees. Its greatest depth is reached
within a tree, above the values of those before it. -/
theorem compile_depth {source : List Char} {p : Program} (h : (compile source).1 = .ok p) :
    ∃ es, (∀ es', SpelledProgram es' source ↔ es' = es) ∧
      p.body.depth = (es.map fun e => e.type.width).sum ∧
      p.body.peak =
        highest (es.mapIdx fun i e => ((es.take i).map fun e => e.type.width).sum + e.peak) := by
  obtain ⟨hp, es, hspelled, htyped, hholds⟩ := compile_sound (Prod.ext h rfl)
  have hrises : ∀ e ∈ es, e.Rises := fun e he => (htyped e he).rises
  refine ⟨es, fun es' => ⟨fun h' => h'.unique hspelled, fun h' => h' ▸ hspelled⟩, ?_, ?_⟩
  · have hdepth := hholds.depth
    rw [Expr.depth_program hrises] at hdepth
    rw [hp]
    exact_mod_cast hdepth
  · have hpeak := hholds.peak_eq
    rw [Expr.peak_program hrises] at hpeak
    rw [hp]
    exact_mod_cast hpeak

/-- The sum is printed above the output stream and its copy, so six words are used. -/
theorem compile_depth_print_sum : ∃ p, (compile "(print \"a\" (+ 1 2))".toList).1 = .ok p ∧
    p.body.depth = 0 ∧ p.body.peak = 6 := by
  obtain ⟨p, a, hcompile⟩ := exists_compile_print_sum
  have h := congrArg Prod.fst hcompile
  obtain ⟨es, hspelled, hdepth, hpeak⟩ := compile_depth h
  obtain rfl := (hspelled _).1 spelled_print_sum
  exact ⟨p, h, hdepth, hpeak⟩

end Compiler

end JvmLisp
