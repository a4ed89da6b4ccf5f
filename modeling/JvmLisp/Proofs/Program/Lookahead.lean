import JvmLisp.Proofs.Program.Progress
import JvmLisp.Proofs.Source.Lookahead

/-! # Errors are final

The compiler reads its text once and looks one character ahead. Two compilers whose texts begin
alike go through the same states, apart from the text that is still ahead of them, for as long as
they stay in front of the point where the texts differ. So an error that is found in front of the
end of a text is found, with the same line quoted, in every text that goes on differently behind the
current character.
-/

namespace JvmLisp

open Source (Cursor Lexeme)
open Source.Cursor (Beside)

/-- The same form, opened at the same place. -/
structure OpenForm.Same (f f' : OpenForm) : Prop where
  form_eq : f'.form = f.form
  before_eq : f'.opening.before = f.opening.before

namespace Compiler

/-- Two compilers differ only in how their texts go on behind a point that neither has reached. -/
structure Alike (w w' : List Char) (c c' : Compiler) : Prop where
  cursor : Beside w w' c.cursor c'.cursor
  forms : List.Forall₂ OpenForm.Same c.forms c'.forms
  expressions_eq : c'.expressions = c.expressions
  assembly_eq : c'.assembly = c.assembly

inductive Step.Alike (w w' : List Char) : Step → Step → Prop
  | next {c c' : Compiler} : Compiler.Alike w w' c c' → Step.Alike w w' (.next c) (.next c')
  | stop {c c' : Compiler} (result : Except Error Unit) : Compiler.Alike w w' c c' →
    Step.Alike w w' (.stop result c) (.stop result c')

variable {α : Type} {w w' : List Char} {c c' : Compiler} {start start' mark mark' : Cursor}

theorem Alike.fail (h : Alike w w' c c') (hmark : mark'.before = mark.before) (cause : Cause) :
    Step.Alike w w' (fail c mark cause) (fail c' mark' cause) := by
  rw [Compiler.fail, Compiler.fail, h.cursor.errorAt_eq hmark]
  exact .stop _ h

/-- The same action is built in both. It is enough to look at what follows a success. -/
theorem Alike.build {action : Build α} {next next' : α → Compiler → Step} (h : Alike w w' c c')
    (hmark : mark'.before = mark.before)
    (hnext : ∀ x a, build mark action next c = next x { c with assembly := a } →
      Alike w w' { c with assembly := a } { c' with assembly := a } →
      Step.Alike w w' (next x { c with assembly := a }) (next' x { c' with assembly := a })) :
    Step.Alike w w' (build mark action next c) (build mark' action next' c') := by
  rcases c with ⟨cursor, forms, n, a⟩
  rcases c' with ⟨cursor', forms', n', a'⟩
  obtain rfl : a' = a := h.assembly_eq
  have halike (a₁ : Assembly) : Alike w w' ⟨cursor, forms, n, a₁⟩ ⟨cursor', forms', n', a₁⟩ :=
    ⟨h.cursor, h.forms, h.expressions_eq, rfl⟩
  rcases haction : action a' with ⟨e | x, a₁⟩
  · simp only [Compiler.build, haction]
    exact (halike a₁).fail hmark e.cause
  · rw [build_of_ok haction, build_of_ok haction]
    exact hnext x a₁ (build_of_ok haction) (halike a₁)

theorem Alike.deliver (h : Alike w w' c c') (hstart : start'.before = start.before)
    (type : ValueType) : Step.Alike w w' (deliver start type c) (deliver start' type c') := by
  rcases c with ⟨cursor, forms, n, a⟩
  rcases c' with ⟨cursor', forms', n', a'⟩
  rcases h with ⟨hcursor, hforms, hexpressions, hassembly⟩
  obtain rfl : n' = n := hexpressions
  obtain rfl : a' = a := hassembly
  rcases hforms with _ | ⟨⟨hform, hopening⟩, houter⟩
  · exact .next ⟨hcursor, .nil, rfl, rfl⟩
  · rename_i f f' outer outer'
    rcases f with ⟨f, opening⟩
    rcases f' with ⟨f', opening'⟩
    obtain rfl : f' = f := hform
    rw [Compiler.deliver, Compiler.deliver]
    cases f'.takeOperand type with
    | error cause =>
      exact Alike.fail ⟨hcursor, .cons ⟨rfl, hopening⟩ houter, rfl, rfl⟩ hstart cause
    | ok action =>
      refine Alike.build ⟨hcursor, houter, rfl, rfl⟩ hcursor.before_eq ?_
      intro f a _ _
      exact .next ⟨hcursor, .cons ⟨rfl, hopening⟩ houter, rfl, rfl⟩

theorem Alike.readOperand (h : Alike w w' c c')
    (hin : w.length < (readOperand c).compiler.cursor.rest.length) :
    Step.Alike w w' (readOperand c) (readOperand c') := by
  rw [cursor_readOperand] at hin
  have hstart := h.cursor.before_eq
  obtain ⟨hresult, hbehind⟩ := Lexeme.read_agree h.cursor hin
  rcases c with ⟨start, forms, n, a⟩
  rcases c' with ⟨start', forms', n', a'⟩
  have hread : Lexeme.read start' = ((Lexeme.read start).1, (Lexeme.read start').2) :=
    Prod.ext hresult rfl
  rw [Compiler.readOperand, Compiler.readOperand, hread]
  rcases hfirst : Lexeme.read start with ⟨e | op | content | value, cursor⟩
  all_goals
    rw [hfirst] at hbehind
    have halike : Alike w w' ⟨cursor, forms, n, a⟩ ⟨(Lexeme.read start').2, forms', n', a'⟩ :=
      ⟨hbehind, h.forms, h.expressions_eq, h.assembly_eq⟩
  · exact .stop _ halike
  · refine halike.build hbehind.before_eq ?_
    intro f a _ _
    exact .next ⟨hbehind, .cons ⟨rfl, hstart⟩ h.forms, h.expressions_eq, rfl⟩
  · refine halike.build hstart ?_
    intro _ a _ hnext
    exact hnext.deliver hstart _
  · refine halike.build hbehind.before_eq ?_
    intro _ a _ hnext
    exact hnext.deliver hstart _

theorem beginOperand_same {forms forms' : List OpenForm}
    (h : List.Forall₂ OpenForm.Same forms forms') : beginOperand forms' = beginOperand forms := by
  rcases h with _ | ⟨hform, _⟩
  · rfl
  · rw [beginOperand, beginOperand, hform.form_eq]

/-- A step that stays in front of the point is the same for both. -/
theorem Alike.step (h : Alike w w' c c')
    (hin : w.length < (step c).compiler.cursor.rest.length) :
    Step.Alike w w' (step c) (step c') := by
  have hskip := h.cursor.skipLayout (hin.trans_le (leads_step_skipLayout c).length_le)
  have halike : Alike w w' { c with cursor := c.cursor.skipLayout }
      { c' with cursor := c'.cursor.skipLayout } :=
    ⟨hskip, h.forms, h.expressions_eq, h.assembly_eq⟩
  obtain ⟨before, d, u, heq, heq'⟩ := hskip.exists_eq
  have hrest : c.cursor.skipLayout.rest = d :: (u ++ w) := by rw [heq]
  have hrest' : c'.cursor.skipLayout.rest = d :: (u ++ w') := by rw [heq']
  by_cases hd : d = ')'
  · subst hd
    have hforms := h.forms
    rcases hf : c.forms with _ | ⟨⟨f, opening⟩, outer⟩
    · rw [hf, List.forall₂_nil_left_iff] at hforms
      rw [step_of_stray hrest hf, step_of_stray hrest' hforms]
      exact halike.fail hskip.before_eq _
    · rw [hf, List.forall₂_cons_left_iff] at hforms
      obtain ⟨⟨f', opening'⟩, outer', ⟨hform, hopening⟩, houter, hf'⟩ := hforms
      obtain rfl : f' = f := hform
      rw [step_of_closing hrest hf] at hin ⊢
      rw [step_of_closing hrest' hf']
      rw [cursor_build rfl fun _ _ => cursor_deliver _ _ _] at hin
      have hadvance := hskip.advance hin
      refine Alike.build ⟨hadvance, houter, h.expressions_eq, h.assembly_eq⟩
        hadvance.before_eq ?_
      intro type a _ hnext
      exact hnext.deliver hopening type
  · rw [step_of_lexeme hrest hd] at hin ⊢
    rw [step_of_lexeme hrest' hd, beginOperand_same h.forms]
    refine halike.build hskip.before_eq ?_
    intro _ a hbuild hnext
    rw [hbuild] at hin
    exact hnext.readOperand hin

/-- A run that stops in front of the point gives the same result for both. -/
theorem Alike.run (h : Alike w w' c c') (hin : w.length < (run c).2.cursor.rest.length) :
    (run c').1 = (run c).1 ∧ Alike w w' (run c).2 (run c').2 := by
  induction c using run.induct generalizing c' with
  | case1 c result c₁ hstep =>
    rw [run_of_stop hstep] at hin ⊢
    have halike := h.step (by rw [hstep]; exact hin)
    rw [hstep] at halike
    generalize hstep' : Compiler.step c' = second at halike
    cases halike with
    | stop _ halike =>
      rw [run_of_stop hstep']
      exact ⟨rfl, halike⟩
  | case2 c c₁ hstep ih =>
    rw [run_of_next hstep] at hin ⊢
    have halike := h.step (by rw [hstep]; exact hin.trans_le (leads_run c₁).length_le)
    rw [hstep] at halike
    generalize hstep' : Compiler.step c' = second at halike
    cases halike with
    | next halike =>
      rw [run_of_next hstep']
      exact ih halike hin

/-- If compiling stops at an error while there is a current character, the same error is found in
every text that agrees with the source up to this character. What comes behind it changes neither
the cause nor the place nor the line that is quoted. -/
theorem compile_error_final {source source' : List Char} {e : Error} {c : Compiler}
    (hrun : run { cursor := Cursor.ofText source } = (.error e, c)) (hcurrent : c.cursor.rest ≠ [])
    (hagree : source'.take (c.cursor.offset + 1) = source.take (c.cursor.offset + 1)) :
    source[c.cursor.offset]? = c.cursor.peek ∧ (compile source).1 = .error e ∧
      (compile source').1 = .error e := by
  have htext : c.cursor.text = source := by
    have hleads := leads_run { cursor := Cursor.ofText source }
    rw [hrun] at hleads
    exact hleads.text_eq
  obtain ⟨d, w, hrest⟩ := List.exists_cons_of_ne_nil hcurrent
  have hdrop : source.drop c.cursor.offset = d :: w := by rw [← htext, Cursor.drop_offset, hrest]
  -- Up to the current character the two texts are `u`, and then they go on with `w` and `w'`.
  obtain ⟨u, hu⟩ : ∃ u, u = source.take (c.cursor.offset + 1) := ⟨_, rfl⟩
  obtain ⟨w', hw'⟩ : ∃ w', w' = source'.drop (c.cursor.offset + 1) := ⟨_, rfl⟩
  have hsource : source = u ++ w := by
    have hw : source.drop (c.cursor.offset + 1) = w := by rw [← List.drop_drop, hdrop]; rfl
    rw [hu, ← hw, List.take_append_drop]
  have hsource' : source' = u ++ w' := by
    rw [hu, hw', ← hagree, List.take_append_drop]
  have hne : u ≠ [] := by
    rw [hu, Ne, List.take_eq_nil_iff]
    rintro (h | rfl)
    · exact absurd h (Nat.succ_ne_zero _)
    · simp at hdrop
  have halike :
      Alike w w' { cursor := Cursor.ofText source } { cursor := Cursor.ofText source' } := by
    refine ⟨?_, .nil, rfl, rfl⟩
    rw [hsource, hsource']
    exact Cursor.beside_mk [] hne
  have hsame := (halike.run (by rw [hrun, hrest]; exact Nat.lt_succ_self _)).1
  rcases hrun' : run { cursor := Cursor.ofText source' } with ⟨result, c'⟩
  rw [hrun, hrun'] at hsame
  obtain rfl : result = .error e := hsame
  refine ⟨?_, compile_of_run_error hrun, compile_of_run_error hrun'⟩
  rw [Cursor.peek, hrest, ← List.head?_drop, hdrop]

/-- The name of a form that is unknown. The rest of the text, here an open string, is not looked at.
-/
theorem compile_error_final_unknown_form :
    let source := "; a\n (foo 1)".toList
    let source' := "; a\n (foo \"".toList
    ∃ e c, run { cursor := Cursor.ofText source } = (.error e, c) ∧ c.cursor.rest ≠ [] ∧
      source'.take (c.cursor.offset + 1) = source.take (c.cursor.offset + 1) ∧
      e.cause = .malformed (.unknownForm "foo") ∧ (compile source').1 = .error e := by
  intro source source'
  obtain ⟨e, c, hstep, hcause, hoffset, hrest⟩ : ∃ e c,
      step { cursor := Cursor.ofText source } = .stop (.error e) c ∧
        e.cause = .malformed (.unknownForm "foo") ∧ c.cursor.offset = 9 ∧ c.cursor.rest ≠ [] :=
    ⟨_, _, rfl, rfl, rfl, by decide⟩
  have hrun := run_of_stop hstep
  have hagree : source'.take (c.cursor.offset + 1) = source.take (c.cursor.offset + 1) := by
    rw [hoffset]
    decide
  exact ⟨e, c, hrun, hrest, hagree, hcause, (compile_error_final hrun hrest hagree).2.2⟩

end Compiler

end JvmLisp
