import JvmLisp.Proofs.Program.Simulation

/-! # Expression by expression

The compiler as two loops: one over the expressions of a text, and one over the steps inside an
expression, which needs an error for a text that ends before the expression has begun. The outer
loop looks for the end of the text first, so this error is never given, and the two loops do what
the single loop does.
-/

namespace JvmLisp

open Source (Cursor Solid)

theorem Source.Cursor.skipLayout_of_solid {c : Cursor} (h : Solid c.rest) : c.skipLayout = c := by
  rcases c with ⟨before, _ | ⟨d, rest⟩⟩
  · rfl
  · obtain ⟨hblank, hcomment⟩ := h d rfl
    simp [Cursor.skipLayout, Cursor.skipLayoutFrom, hblank, hcomment]

namespace Compiler

def skipLayout (c : Compiler) : Compiler :=
  { c with cursor := c.cursor.skipLayout }

/-- A step inside an expression. -/
def stepExpression (c : Compiler) : Step :=
  match c.skipLayout.cursor.rest, c.forms with
  | [], [] => fail c.skipLayout c.skipLayout.cursor (.malformed (.other "unexpected end of input"))
  | _, _ => step c

variable {c c' : Compiler}

theorem stepExpression_of_ne (h : c.skipLayout.cursor.rest ≠ [] ∨ c.forms ≠ []) :
    stepExpression c = step c := by
  rw [stepExpression]
  split
  · simp_all
  · rfl

theorem stepExpression_of_end (hrest : c.cursor.skipLayout.rest = []) (hforms : c.forms = []) :
    stepExpression c =
      fail c.skipLayout c.skipLayout.cursor (.malformed (.other "unexpected end of input")) := by
  simp only [stepExpression, skipLayout, hrest, hforms]

theorem step_of_stepExpression (h : stepExpression c = .next c') : step c = .next c' := by
  rw [stepExpression] at h
  split at h
  · cases h
  · exact h

/-- Compiles an expression, up to where no form is open. -/
def runExpression (c : Compiler) : Except Error Unit × Compiler :=
  match _h : stepExpression c with
  | .stop result c => (result, c)
  | .next c =>
    match c.forms with
    | [] => (.ok (), c)
    | _ :: _ => runExpression c
termination_by c.cursor.rest.length
decreasing_by exact step_length_lt (step_of_stepExpression _h)

theorem runExpression_of_stop {result : Except Error Unit}
    (h : stepExpression c = .stop result c') : runExpression c = (result, c') := by
  rw [runExpression]
  split <;> simp_all

theorem runExpression_of_next (h : stepExpression c = .next c') :
    runExpression c = if c'.forms.isEmpty then (.ok (), c') else runExpression c' := by
  rw [runExpression]
  split
  · simp_all
  · rename_i c₁ hstep
    obtain rfl := Step.next.inj (hstep.symm.trans h)
    split <;> simp_all

/-- A step inside an expression never ends the text. -/
theorem stepExpression_ne_stop (c c' : Compiler) : stepExpression c ≠ .stop (.ok ()) c' := by
  intro h
  rw [stepExpression] at h
  split at h
  · cases h
  · rename_i hne
    obtain ⟨hlayout, hforms, -⟩ := step_stops.1 ⟨c', h, rfl⟩
    exact hne (Cursor.skipLayout_rest hlayout Source.solid_nil) hforms

/-- An expression that is compiled to its end has consumed a character, and leaves no form open. -/
theorem runExpression_eq_ok (h : runExpression c = (.ok (), c')) :
    c'.forms = [] ∧ c'.cursor.rest.length < c.cursor.rest.length := by
  induction c using runExpression.induct with
  | case1 c result c₁ hstep =>
    rw [runExpression_of_stop hstep] at h
    cases h
    exact absurd hstep (stepExpression_ne_stop c c')
  | case2 c c₁ hstep hforms =>
    have hlt := step_length_lt (step_of_stepExpression hstep)
    rw [runExpression_of_next hstep, hforms] at h
    cases h
    exact ⟨hforms, hlt⟩
  | case3 c c₁ hstep f outer hforms ih =>
    have hlt := step_length_lt (step_of_stepExpression hstep)
    rw [runExpression_of_next hstep, hforms] at h
    obtain ⟨hnil, hlt'⟩ := ih h
    exact ⟨hnil, hlt'.trans hlt⟩

/-- Compiles expressions to the end of the text. -/
def runExpressions (c : Compiler) : Except Error Unit × Compiler :=
  match c.skipLayout.cursor.rest with
  | [] => (.ok (), c.skipLayout)
  | _ :: _ =>
    match _h : runExpression c.skipLayout with
    | (.error e, c) => (.error e, c)
    | (.ok (), c) => runExpressions c
termination_by c.cursor.rest.length
decreasing_by exact (runExpression_eq_ok _h).2.trans_le (Cursor.skipLayout_length_le _)

theorem runExpressions_of_nil (h : c.skipLayout.cursor.rest = []) :
    runExpressions c = (.ok (), c.skipLayout) := by
  rw [runExpressions, h]

theorem runExpressions_of_ne (h : c.skipLayout.cursor.rest ≠ []) :
    runExpressions c = match runExpression c.skipLayout with
      | (.ok (), c) => runExpressions c
      | (.error e, c) => (.error e, c) := by
  rw [runExpressions]
  split
  · contradiction
  · split <;> simp_all

/-- Expressions are compiled up to the end of the text. -/
theorem runExpressions_eq_ok (h : runExpressions c = (.ok (), c')) : c'.cursor.rest = [] := by
  induction c using runExpressions.induct with
  | case1 c hrest =>
    rw [runExpressions_of_nil hrest] at h
    cases h
    exact hrest
  | case2 c d s hrest e c₁ hrun =>
    rw [runExpressions_of_ne (by simp [hrest]), hrun] at h
    cases h
  | case3 c d s hrest c₁ hrun ih =>
    rw [runExpressions_of_ne (by simp [hrest]), hrun] at h
    exact ih h

/-! ### The two loops as one -/

theorem skipLayout_skipLayout (c : Compiler) : c.skipLayout.skipLayout = c.skipLayout := by
  have hskip := Cursor.skipLayout_of_solid c.cursor.solid_skipLayout
  simp only [skipLayout, hskip]

theorem step_skipLayout (c : Compiler) : step c.skipLayout = step c := by
  have hskip := Cursor.skipLayout_of_solid c.cursor.solid_skipLayout
  rcases c with ⟨cursor, forms, n, a⟩
  simp only [skipLayout, step, hskip]

theorem run_skipLayout (c : Compiler) : run c.skipLayout = run c := by
  cases hstep : step c with
  | next c₁ => rw [run_of_next hstep, run_of_next ((step_skipLayout c).trans hstep)]
  | stop result c₁ => rw [run_of_stop hstep, run_of_stop ((step_skipLayout c).trans hstep)]

/-- A run goes through the expression at hand first. -/
theorem run_of_ne (h : c.skipLayout.cursor.rest ≠ [] ∨ c.forms ≠ []) :
    run c = match runExpression c with
      | (.ok (), c) => run c
      | (.error e, c) => (.error e, c) := by
  induction c using runExpression.induct with
  | case1 c result c₁ hstep =>
    rw [runExpression_of_stop hstep]
    cases result with
    | error e => rw [run_of_stop ((stepExpression_of_ne h).symm.trans hstep)]
    | ok => exact absurd hstep (stepExpression_ne_stop c c₁)
  | case2 c c₁ hstep hforms =>
    rw [runExpression_of_next hstep, hforms, run_of_next (step_of_stepExpression hstep)]
    rfl
  | case3 c c₁ hstep f outer hforms ih =>
    rw [runExpression_of_next hstep, run_of_next (step_of_stepExpression hstep),
      ih (.inr (by simp [hforms])), hforms]
    rfl

/-- The two loops do what the single loop does. -/
theorem runExpressions_eq_run (h : c.forms = []) : runExpressions c = run c := by
  induction c using runExpressions.induct with
  | case1 c hrest =>
    have hstep : step c = .stop (.ok ()) c.skipLayout := by
      rcases c with ⟨cursor, forms, n, a⟩
      obtain rfl : forms = [] := h
      simp only [skipLayout] at hrest
      simp only [step, hrest, skipLayout]
    rw [runExpressions_of_nil hrest, run_of_stop hstep]
  | case2 c d s hrest e c₁ hrun =>
    have hne : c.skipLayout.cursor.rest ≠ [] := by simp [hrest]
    rw [runExpressions_of_ne hne, ← run_skipLayout,
      run_of_ne (.inl ((skipLayout_skipLayout c).symm ▸ hne)), hrun]
  | case3 c d s hrest c₁ hrun ih =>
    have hne : c.skipLayout.cursor.rest ≠ [] := by simp [hrest]
    rw [runExpressions_of_ne hne, ← run_skipLayout,
      run_of_ne (.inl ((skipLayout_skipLayout c).symm ▸ hne)), hrun]
    exact ih (runExpression_eq_ok hrun).1

end Compiler

end JvmLisp
