import JvmLisp.Proofs.Jvm.Machine
import JvmLisp.Proofs.Program.Translation

/-! # Evaluation

What a program prints, by recursion on its trees, and that its emissions make the machine print the
same. The code of a sum adds from the last operand to the first, and each addition wraps around; the
sum of a tree is reduced once, so the two agree as residues modulo `2 ^ 64`.
-/

namespace JvmLisp

open Jvm (Machine Operation Value)

namespace Expr

mutual

/-- The integer that a tree stands for. A sum is reduced to 64 bits and read as signed. -/
def value : Expr → Int
  | integer value => value.toInt
  | form .add operands => (sum operands).bmod (2 ^ 64)
  | _ => 0

def sum : List Expr → Int
  | [] => 0
  | e :: es => e.value + sum es

end

/-- What `print` makes of an operand. -/
def shown : Expr → String
  | text content => content
  | e => toString e.value

/-- What an expression prints that is not an operand. -/
def printed : Expr → String
  | form .print operands => String.join (operands.map shown) ++ "\n"
  | _ => ""

/-- What a program prints. -/
def output (es : List Expr) : String :=
  String.join (es.map printed)

/-- The value that the code of a tree leaves on the stack. -/
def result : Expr → List Value
  | text content => [.text content]
  | integer value => [.long value]
  | form .print _ => []
  | form .add operands => [.long (.ofInt (sum operands))]

theorem sum_eq (es : List Expr) : sum es = (es.map value).sum := by
  induction es with
  | nil => rfl
  | cons e es ih => rw [sum, ih, List.map_cons, List.sum_cons]

theorem ofInt_bmod (n : Int) : Int64.ofInt (n.bmod (2 ^ 64)) = Int64.ofInt n := by
  apply Int64.toInt.inj
  rw [Int64.toInt_ofInt, Int64.toInt_ofInt]
  exact Int.bmod_bmod

/-- A tree of type `long` leaves its value, and prints nothing by itself. -/
theorem of_type_long {e : Expr} (h : e.type = .long) :
    e.result = [.long (.ofInt e.value)] ∧ e.printed = "" ∧
      e.shown = toString (Int64.ofInt e.value).toInt := by
  match e, h with
  | .integer n, _ => simp only [result, value, printed, shown, Int64.ofInt_toInt, and_self]
  | .form .add es, _ =>
    have htoInt : (Int64.ofInt (sum es)).toInt = (sum es).bmod (2 ^ 64) := Int64.toInt_ofInt
    simp only [result, value, printed, shown, ofInt_bmod, htoInt, and_self]

theorem exists_of_type_text {e : Expr} (h : e.type = .text) : ∃ content, e = .text content := by
  cases e with
  | text content => exact ⟨content, rfl⟩
  | integer value => cases h
  | form op es => cases op <;> cases h

end Expr

namespace Emission

def execAll (es : List Emission) (m : Machine) : Option Machine :=
  Operation.execAll (es.map operation) m

@[simp] theorem execAll_nil (m : Machine) : execAll [] m = some m := rfl

@[simp] theorem execAll_cons (e : Emission) (es : List Emission) (m : Machine) :
    execAll (e :: es) m = (e.operation.exec m).bind (execAll es) := by
  simp [execAll, Operation.execAll]
  rfl

theorem execAll_append (es es' : List Emission) (m : Machine) :
    execAll (es ++ es') m = (execAll es m).bind (execAll es') := by
  simp [execAll, Operation.execAll, List.foldlM_append]
  rfl

/-- Additions from the top of the stack, with the integers not yet reduced. -/
theorem execAll_ladd {vs : List Int} {n : Nat} (hn : vs.length = n + 1) (stack : List Value)
    (out : String) :
    execAll (List.replicate n ⟨.ladd, -2⟩) ⟨vs.map (fun v => .long (.ofInt v)) ++ stack, out⟩ =
      some ⟨.long (.ofInt vs.sum) :: stack, out⟩ := by
  induction n generalizing vs with
  | zero =>
    obtain ⟨v, rfl⟩ := List.length_eq_one_iff.1 hn
    simp
  | succ n ih =>
    match vs, hn with
    | x :: y :: vs, hn =>
      have hlength : ((y + x) :: vs).length = n + 1 := by simpa using hn
      have hsum : (x :: y :: vs).sum = ((y + x) :: vs).sum := by
        simp only [List.sum_cons]
        ring
      rw [List.replicate_succ, execAll_cons, hsum, ← ih hlength]
      simp

end Emission

namespace Expr

open Emission (execAll execAll_append)

variable {es : List Expr} {stack : List Value} {out : String}

/-- The code of a tree leaves its result and prints what the tree prints. -/
def Executed (e : Expr) : Prop :=
  ∀ stack out, execAll e.emissions ⟨stack, out⟩ = some ⟨e.result ++ stack, out ++ e.printed⟩

theorem execAll_printed (htakes : ∀ e ∈ es, Operator.print.Takes e.type)
    (hes : ∀ e ∈ es, e.Executed) :
    execAll (emissionsOfAll .print es) ⟨.stream :: stack, out⟩ =
      some ⟨.stream :: stack, out ++ String.join (es.map shown)⟩ := by
  induction es generalizing out with
  | nil => simp [emissionsOfAll, String.join]
  | cons e es ih =>
    rw [List.forall_mem_cons] at htakes hes
    have hprint : execAll (Operator.print.before ++ (e.emissions ++ Operator.print.after e.type))
        ⟨.stream :: stack, out⟩ = some ⟨.stream :: stack, out ++ e.shown⟩ := by
      have he := hes.1 (.stream :: .stream :: stack) out
      cases htype : e.type with
      | void => exact absurd htype htakes.1
      | text =>
        obtain ⟨content, rfl⟩ := exists_of_type_text htype
        simp [Operator.before, Operator.after, execAll_append, he, Emission.call, result, shown,
          printed]
      | long =>
        obtain ⟨hresult, hprinted, hshown⟩ := of_type_long htype
        rw [hresult, hprinted] at he
        simp [Operator.before, Operator.after, execAll_append, he, Emission.call, hshown]
    rw [emissionsOfAll, execAll_append, hprint, Option.bind_some, ih htakes.2 hes.2, List.map_cons,
      String.join_cons, String.append_assoc]

theorem execAll_summed (htakes : ∀ e ∈ es, Operator.add.Takes e.type)
    (hes : ∀ e ∈ es, e.Executed) :
    execAll (emissionsOfAll .add es) ⟨stack, out⟩ =
      some ⟨(es.map value).reverse.map (fun v => .long (.ofInt v)) ++ stack, out⟩ := by
  induction es generalizing stack with
  | nil => simp [emissionsOfAll]
  | cons e es ih =>
    rw [List.forall_mem_cons] at htakes hes
    obtain ⟨hresult, hprinted, -⟩ := of_type_long htakes.1
    have he := hes.1 stack out
    rw [hresult, hprinted] at he
    simp [emissionsOfAll, Operator.before, Operator.after, execAll_append, he, ih htakes.2 hes.2]

theorem WellTyped.executed {e : Expr} (h : e.WellTyped) : e.Executed := by
  induction h with
  | text content => intro stack out; simp [emissions, result, printed]
  | integer value => intro stack out; simp [emissions, result, printed]
  | @form op es _ htakes ih =>
    intro stack out
    cases op with
    | print =>
      simp [emissions, execAll_append, Operator.opens, execAll_printed htakes ih, Operator.closes,
        Emission.call, result, printed, String.append_assoc]
    | add =>
      have hprinted : (Expr.form .add es).printed = "" := (of_type_long rfl).2.1
      rw [emissions, Operator.opens, List.nil_append, execAll_append, execAll_summed htakes ih,
        Option.bind_some, result, hprinted, String.append_empty, sum_eq, ← List.sum_reverse]
      cases es with
      | nil => simp [Operator.closes]
      | cons e es => exact Emission.execAll_ladd (by simp) stack out

/-- The code of a program prints the output of the program. -/
theorem execAll_program (h : ∀ e ∈ es, e.WellTyped) (stack : List Value) (out : String) :
    ∃ stack', execAll (es.flatMap emissions) ⟨stack, out⟩ = some ⟨stack', out ++ output es⟩ := by
  induction es generalizing stack out with
  | nil => exact ⟨stack, by simp [output, String.join]⟩
  | cons e es ih =>
    rw [List.forall_mem_cons] at h
    obtain ⟨stack', hes⟩ := ih h.2 (e.result ++ stack) (out ++ e.printed)
    refine ⟨stack', ?_⟩
    rw [List.flatMap_cons, execAll_append, h.1.executed, Option.bind_some, hes, output, output,
      List.map_cons, String.join_cons, String.append_assoc]

end Expr

end JvmLisp
