import JvmLisp.Proofs.Program.Safety
import JvmLisp.Proofs.Source.Place

/-! # Progress through the source text

A step is decided by what stands behind layout: a closing parenthesis, the start of a lexeme, or the
end of the text. Whatever it finds, it leaves the cursor in the same text and not further back, and
so does a run. A text that does not compile is refused in one of these steps.
-/

namespace JvmLisp.Compiler

open Source (Cursor Lexeme)

def Step.compiler : Step → Compiler
  | next c | stop _ c => c

variable {α : Type} {c c' : Compiler} {mark : Cursor} {action : Build α}
  {next : α → Compiler → Step} {d : Char} {s : List Char}

theorem build_of_ok {cursor : Cursor} {opened : List OpenForm} {n : Nat} {a a' : Assembly} {x : α}
    (h : action a = (.ok x, a')) :
    build mark action next ⟨cursor, opened, n, a⟩ = next x ⟨cursor, opened, n, a'⟩ := by
  simp only [build, h]

/-- A build step leaves the cursor alone if what comes after it does. -/
theorem cursor_build {behind : Cursor} (hfail : c.cursor = behind)
    (hnext : ∀ x a, (next x { c with assembly := a }).compiler.cursor = behind) :
    (build mark action next c).compiler.cursor = behind := by
  rw [build]
  split
  · exact hnext _ _
  · exact hfail

theorem cursor_deliver (start : Cursor) (type : ValueType) (c : Compiler) :
    (deliver start type c).compiler.cursor = c.cursor := by
  rw [deliver.eq_def]
  split
  · rfl
  · split
    · rfl
    · exact cursor_build rfl fun _ _ => rfl

/-- The cursor stands behind what was read, whatever is built from it. -/
theorem cursor_readOperand (c : Compiler) :
    (readOperand c).compiler.cursor = (Lexeme.read c.cursor).2 := by
  rcases c with ⟨start, forms, n, a⟩
  rcases hread : Lexeme.read start with ⟨e | l | l | l, cursor⟩
  · simp [readOperand, hread, Step.compiler]
  · simp only [readOperand, hread]
    exact cursor_build rfl fun _ _ => rfl
  · simp only [readOperand, hread]
    exact cursor_build rfl fun _ _ => cursor_deliver _ _ _
  · simp only [readOperand, hread]
    exact cursor_build rfl fun _ _ => cursor_deliver _ _ _

/-! ### Steps by what stands behind layout -/

theorem step_of_lexeme (hrest : c.cursor.skipLayout.rest = d :: s) (hd : d ≠ ')') :
    step c = build c.cursor.skipLayout (beginOperand c.forms) (fun _ => readOperand)
      { c with cursor := c.cursor.skipLayout } := by
  rcases c with ⟨start, forms, n, a⟩
  simp only at hrest
  simp only [step, hrest]
  split <;> simp_all

theorem step_of_stray (hrest : c.cursor.skipLayout.rest = ')' :: s) (hforms : c.forms = []) :
    step c = fail { c with cursor := c.cursor.skipLayout } c.cursor.skipLayout
      (.malformed .strayClose) := by
  rcases c with ⟨start, forms, n, a⟩
  obtain rfl : forms = [] := hforms
  simp only at hrest
  simp only [step, hrest]

theorem step_of_closing {f : Form} {opening : Cursor} {outer : List OpenForm}
    (hrest : c.cursor.skipLayout.rest = ')' :: s) (hforms : c.forms = ⟨f, opening⟩ :: outer) :
    step c = build c.cursor.skipLayout.advance f.finish (fun type => deliver opening type)
      { c with cursor := c.cursor.skipLayout.advance, forms := outer } := by
  rcases c with ⟨start, forms, n, a⟩
  obtain rfl : forms = ⟨f, opening⟩ :: outer := hforms
  simp only at hrest
  simp only [step, hrest]

theorem step_of_unclosed {innermost : OpenForm} {outer : List OpenForm}
    (hrest : c.cursor.skipLayout.rest = []) (hforms : c.forms = innermost :: outer) :
    step c = fail { c with cursor := c.cursor.skipLayout } innermost.opening
      (.malformed .unclosedForm) := by
  rcases c with ⟨start, forms, n, a⟩
  obtain rfl : forms = innermost :: outer := hforms
  simp only at hrest
  simp only [step, hrest]

theorem step_of_end (hrest : c.cursor.skipLayout.rest = []) (hforms : c.forms = []) :
    step c = .stop (.ok ()) { c with cursor := c.cursor.skipLayout } := by
  rcases c with ⟨start, forms, n, a⟩
  obtain rfl : forms = [] := hforms
  simp only at hrest
  simp only [step, hrest]

/-- A step goes on from behind layout. -/
theorem leads_step_skipLayout (c : Compiler) :
    c.cursor.skipLayout.Leads (step c).compiler.cursor := by
  rcases hrest : c.cursor.skipLayout.rest with _ | ⟨d, s⟩
  · rcases hforms : c.forms with _ | ⟨innermost, outer⟩
    · rw [step_of_end hrest hforms]
      exact .refl _
    · rw [step_of_unclosed hrest hforms]
      exact .refl _
  · by_cases hd : d = ')'
    · subst hd
      rcases hforms : c.forms with _ | ⟨⟨f, opening⟩, outer⟩
      · rw [step_of_stray hrest hforms]
        exact .refl _
      · rw [step_of_closing hrest hforms, cursor_build rfl fun _ _ => cursor_deliver _ _ _]
        exact Cursor.leads_advance _
    · rw [step_of_lexeme hrest hd, build]
      split
      · rw [cursor_readOperand]
        exact Lexeme.leads_read _
      · exact .refl _

theorem leads_step (c : Compiler) : c.cursor.Leads (step c).compiler.cursor :=
  c.cursor.leads_skipLayout.trans (leads_step_skipLayout c)

/-! ### Runs -/

theorem leads_run (c : Compiler) : c.cursor.Leads (run c).2.cursor := by
  induction c using run.induct with
  | case1 c result c' hstep =>
    have hleads := leads_step c
    rw [hstep] at hleads
    rwa [run_of_stop hstep]
  | case2 c c' hstep ih =>
    have hleads := leads_step c
    rw [hstep] at hleads
    rw [run_of_next hstep]
    exact hleads.trans ih

variable {source : List Char}

theorem compile_of_run_error {e : Error}
    (h : run { cursor := Cursor.ofText source } = (.error e, c)) : (compile source).1 = .error e := by
  rw [compile, h]

/-- Compiling fails only in a step: the return at the end can always be appended. -/
theorem exists_stop_of_error {e : Error} (hlength : source.length < 2 ^ 32)
    (he : (compile source).1 = .error e) :
    ∃ c c', Visits source c ∧ step c = .stop (.error e) c' := by
  obtain ⟨c, hvisits, hstop⟩ := exists_visits_stop source
  rcases hrun : run { cursor := Cursor.ofText source } with ⟨e' | _, c'⟩
  · obtain rfl := Except.error.inj ((compile_of_run_error hrun).symm.trans he)
    rw [hrun] at hstop
    exact ⟨c, c', hvisits, hstop⟩
  · obtain ⟨a, ha⟩ := exists_emit_ret hlength hrun
    have hret : Build.perform ⟨.ret, 0⟩ c'.assembly = (.ok (), a) := by
      rw [Build.perform_eq_emit rfl]
      exact ha
    rw [compile_eq_ok.2 ⟨c', hrun, finish_eq_ok.2 ⟨a, hret, rfl, rfl⟩⟩] at he
    cases he

end JvmLisp.Compiler
