import JvmLisp.Proofs.Program.Progress
import JvmLisp.Proofs.Source.Loop

/-! # Termination

The compiler as loops that end only when an iteration leaves them: one over the expressions of a
text, one over the steps of an expression, and below them those that read. On every text they end,
each character is consumed in one step at most, and a text that compiles has been consumed.
-/

namespace JvmLisp.Compiler

open Source (Cursor Lexeme Recorder Progresses Proceeds)

/-- The compiler with the record of its cursor. -/
structure Session where
  compiler : Compiler
  given : List (Option Char) := []

/-- What is done with a lexeme that has been read, or with the error in its place. -/
def emitOperand (start : Cursor) : Except Error Lexeme → Compiler → Step
  | .error e, c => .stop (.error e) c
  | .ok (.opening operator), c =>
    build c.cursor (Form.start operator)
      (fun form c => .next { c with forms := ⟨form, start⟩ :: c.forms }) c
  | .ok (.text content), c =>
    build start (Form.pushText content) (fun _ => deliver start .text) c
  | .ok (.integer value), c =>
    build c.cursor (Form.pushLong value) (fun _ => deliver start .long) c

theorem readOperand_eq (c : Compiler) :
    readOperand c = emitOperand c.cursor (Lexeme.read c.cursor).1
      { c with cursor := (Lexeme.read c.cursor).2 } := by
  rcases c with ⟨start, forms, n, a⟩
  rcases hread : Lexeme.read start with ⟨e | l | l | l, cursor⟩ <;>
    simp only [readOperand, hread, emitOperand]

namespace Session

def start (source : List Char) : Session :=
  { compiler := { cursor := Cursor.ofText source } }

def recorder (s : Session) : Recorder :=
  ⟨s.compiler.cursor, s.given⟩

/-- A step inside an expression, which reads with loops. -/
def step (s : Session) : Part (Step × Recorder) := do
  let head ← s.recorder.skipLayout
  let c := { s.compiler with cursor := head.cursor }
  match head.cursor.peek, c.forms with
  | none, [] => return (fail c c.cursor (.malformed (.other "unexpected end of input")), head)
  | none, innermost :: _ => return (fail c innermost.opening (.malformed .unclosedForm), head)
  | some d, forms =>
    if d = ')' then
      match forms with
      | [] => return (fail c c.cursor (.malformed .strayClose), head)
      | ⟨form, opening⟩ :: outer =>
        let behind := head.advance
        return (build behind.cursor form.finish (fun type => deliver opening type)
          { c with cursor := behind.cursor, forms := outer }, behind)
    else
      match beginOperand forms c.assembly with
      | (.error e, a) => return (fail { c with assembly := a } c.cursor e.cause, head)
      | (.ok _, a) =>
        let (lexeme, behind) ← head.read
        return (emitOperand head.cursor lexeme { c with cursor := behind.cursor, assembly := a },
          behind)

/-- An iteration over the steps of an expression, which is complete when no form is open. -/
def expressionTurn : Session →. (Except Error Unit × Session) ⊕ Session := fun s => do
  match ← s.step with
  | (.stop result c, behind) => return .inl (result, ⟨c, behind.given⟩)
  | (.next c, behind) =>
    if c.forms.isEmpty then return .inl (.ok (), ⟨c, behind.given⟩)
    else return .inr ⟨c, behind.given⟩

/-- An iteration over the expressions of a text. -/
def programTurn : Session →. (Except Error Unit × Session) ⊕ Session := fun s => do
  let head ← s.recorder.skipLayout
  let s : Session := ⟨{ s.compiler with cursor := head.cursor }, head.given⟩
  match head.cursor.peek with
  | none => return .inl (.ok (), s)
  | some _ =>
    match ← expressionTurn.fix s with
    | (.ok (), s) => return .inr s
    | (.error e, s) => return .inl (.error e, s)

/-- Compiles a text with loops. The recorder is left where the compiler stops. -/
def compile (source : List Char) : Part ((Except Error Program × Assembly) × Recorder) := do
  let (result, s) ← programTurn.fix (start source)
  match result with
  | .ok () => return (finish s.compiler.expressions s.compiler.assembly, s.recorder)
  | .error e => return ((.error e, s.compiler.assembly), s.recorder)

/-! ### The loops and the compiler -/

/-- A step with loops ends as the step without them does, at the same cursor. -/
theorem step_ends (s : Session) :
    ∃ behind, s.step = Part.some (stepExpression s.compiler, behind) ∧ s.recorder.Reaches behind ∧
      behind.cursor = (stepExpression s.compiler).compiler.cursor := by
  rcases s with ⟨⟨start, forms, n, a⟩, given⟩
  obtain ⟨⟨head, given'⟩, hskip, hreaches, hhead⟩ := Recorder.skipLayout_ends ⟨start, given⟩
  obtain rfl : head = start.skipLayout := hhead
  simp only [step, recorder, hskip, Part.bind_eq_bind, Part.bind_some]
  rcases hrest : start.skipLayout.rest with _ | ⟨d, t⟩
  · simp only [Cursor.peek, hrest, List.head?_nil]
    rcases forms with _ | ⟨innermost, outer⟩
    · rw [stepExpression_of_end hrest rfl]
      exact ⟨_, rfl, hreaches, rfl⟩
    · rw [stepExpression_of_ne (.inr (List.cons_ne_nil _ _)), step_of_unclosed hrest rfl]
      exact ⟨_, rfl, hreaches, rfl⟩
  · have hne : (skipLayout ⟨start, forms, n, a⟩).cursor.rest ≠ [] := by simp [skipLayout, hrest]
    simp only [Cursor.peek, hrest, List.head?_cons]
    rw [stepExpression_of_ne (.inl hne)]
    by_cases hd : d = ')'
    · subst hd
      rw [if_pos rfl]
      rcases forms with _ | ⟨⟨form, opening⟩, outer⟩
      · rw [step_of_stray hrest rfl]
        exact ⟨_, rfl, hreaches, rfl⟩
      · have hadvances : Recorder.Advances ⟨start.skipLayout, given'⟩ _ :=
          Recorder.advances_advance hrest
        rw [step_of_closing hrest rfl]
        simp only [Recorder.cursor_advance]
        refine ⟨_, rfl, hreaches.trans hadvances.reaches, ?_⟩
        rw [cursor_build rfl fun _ _ => cursor_deliver _ _ _, Recorder.cursor_advance]
    · rw [step_of_lexeme hrest hd, if_neg hd, build]
      rcases beginOperand forms a with ⟨e | _, a'⟩
      · exact ⟨_, rfl, hreaches, rfl⟩
      · obtain ⟨⟨lexeme, behind⟩, hread, hreaches', hlexeme⟩ :=
          Recorder.read_ends ⟨start.skipLayout, given'⟩
        refine ⟨behind, ?_, hreaches.trans hreaches', ?_⟩
        · simp only [hread, Part.bind_some, readOperand_eq, ← hlexeme, Part.pure_eq_some]
        · rw [cursor_readOperand, ← hlexeme]

/-- An iteration that goes on has compiled a step, and that has consumed a character. -/
theorem proceeds_expressionTurn : Proceeds recorder expressionTurn fun s result =>
    s.recorder.Reaches result.2.recorder ∧
      (result.1, result.2.compiler) = runExpression s.compiler := by
  intro s
  obtain ⟨⟨cursor, given⟩, hturn, hreaches, hcursor⟩ := step_ends s
  rcases hstep : stepExpression s.compiler with c | ⟨result, c⟩
  · rw [hstep] at hturn hcursor
    obtain rfl : cursor = c.cursor := hcursor
    have hrun := runExpression_of_next hstep
    simp only [expressionTurn, hturn, Part.bind_eq_bind, Part.bind_some]
    by_cases hforms : c.forms.isEmpty = true
    · rw [if_pos hforms] at hrun ⊢
      exact .inl ⟨_, rfl, hreaches, hrun.symm⟩
    · rw [if_neg hforms] at hrun ⊢
      have hlt := step_length_lt (step_of_stepExpression hstep)
      have hadvances : s.recorder.Advances (recorder ⟨c, given⟩) := hreaches.advances hlt
      refine .inr ⟨_, rfl, hadvances, ?_⟩
      rintro result ⟨hreaches', hresult⟩
      exact ⟨hadvances.reaches.trans hreaches', hresult.trans hrun.symm⟩
  · rw [hstep] at hturn hcursor
    obtain rfl : cursor = c.cursor := hcursor
    simp only [expressionTurn, hturn, Part.bind_eq_bind, Part.bind_some]
    exact .inl ⟨_, rfl, hreaches, (runExpression_of_stop hstep).symm⟩

/-- An iteration that goes on has compiled an expression, and that has consumed a character. -/
theorem proceeds_programTurn : Proceeds recorder programTurn fun s result =>
    s.recorder.Reaches result.2.recorder ∧
      (result.1, result.2.compiler) = runExpressions s.compiler := by
  rintro ⟨c, given⟩
  obtain ⟨⟨head, given'⟩, hskip, hreaches, hhead⟩ := Recorder.skipLayout_ends ⟨c.cursor, given⟩
  obtain rfl : head = c.cursor.skipLayout := hhead
  simp only [programTurn, recorder, hskip, Part.bind_eq_bind, Part.bind_some]
  rcases hrest : c.skipLayout.cursor.rest with _ | ⟨d, t⟩
  · have hpeek : c.cursor.skipLayout.peek = none := congrArg List.head? hrest
    rw [hpeek]
    exact .inl ⟨_, rfl, hreaches, (runExpressions_of_nil hrest).symm⟩
  · have hpeek : c.cursor.skipLayout.peek = some d := congrArg List.head? hrest
    rw [hpeek]
    obtain ⟨⟨result, s⟩, hloop, hreaches', hrun⟩ :=
      proceeds_expressionTurn.ends ⟨c.skipLayout, given'⟩
    have hruns := runExpressions_of_ne (c := c) (by simp [hrest])
    have hloop' : expressionTurn.fix ⟨{ c with cursor := c.cursor.skipLayout }, given'⟩ =
      Part.some (result, s) := hloop
    simp only [hloop', Part.bind_some]
    rw [← hrun] at hruns
    rcases result with e | _
    · exact .inl ⟨_, rfl, hreaches.trans hreaches', hruns.symm⟩
    · have hlt := (runExpression_eq_ok hrun.symm).2
      have hadvances := (hreaches.trans hreaches').advances
        (hlt.trans_le (Cursor.skipLayout_length_le c.cursor))
      refine .inr ⟨_, rfl, hadvances, ?_⟩
      rintro result ⟨hreaches'', hresult⟩
      exact ⟨hadvances.reaches.trans hreaches'', hresult.trans hruns.symm⟩

end Session

/-- Every iteration of every loop ends, and leaves its loop or has advanced. So the compiler ends on
every text, with as many steps as it consumes characters. What the steps give is the text up to
where the compiler stops, each character once, and that is the whole text if it compiles. -/
theorem compile_terminates (source : List Char) :
    (Progresses id Recorder.commentTurn ∧ Progresses id Recorder.layoutTurn ∧
      Progresses Prod.snd Recorder.atomTurn ∧
      (∀ opening, Progresses Prod.snd (Recorder.textTurn opening)) ∧
      Progresses Session.recorder Session.expressionTurn ∧
      Progresses Session.recorder Session.programTurn) ∧
    ∃ n ≤ source.length,
      Session.compile source = Part.some (compile source,
        ⟨⟨(source.take n).reverse, source.drop n⟩, ((source.take n).map some).reverse⟩) ∧
      ∀ p, (compile source).1 = .ok p → n = source.length := by
  refine ⟨⟨Recorder.proceeds_commentTurn.progresses, Recorder.proceeds_layoutTurn.progresses,
    Recorder.proceeds_atomTurn.progresses,
    fun opening => (Recorder.proceeds_textTurn opening).progresses,
    Session.proceeds_expressionTurn.progresses, Session.proceeds_programTurn.progresses⟩, ?_⟩
  obtain ⟨⟨result, ⟨c, given⟩⟩, hloop, ⟨n, hn, hsteps⟩, hruns⟩ :=
    Session.proceeds_programTurn.ends (.start source)
  have hrun : run { cursor := Cursor.ofText source } = (result, c) :=
    (runExpressions_eq_run rfl).symm.trans hruns.symm
  have hends : Session.compile source = Part.some (compile source, Session.recorder ⟨c, given⟩) := by
    rw [Session.compile, hloop, Part.bind_eq_bind, Part.bind_some, compile, hrun]
    rcases result with e | _ <;> rfl
  have hrecord := Recorder.iterate_advance [] source [] hn
  rw [List.append_nil, List.append_nil] at hrecord
  replace hrecord := hsteps.symm.trans hrecord
  refine ⟨n, hn, hends.trans (by rw [← hrecord]), ?_⟩
  intro p hp
  rw [compile, hrun] at hp
  rcases result with e | _
  · cases hp
  · obtain ⟨hcursor, -⟩ := Recorder.mk.inj hrecord
    have hrest : source.drop n = [] :=
      (congrArg Cursor.rest hcursor).symm.trans (runExpressions_eq_ok hruns.symm)
    exact hn.antisymm (List.drop_eq_nil_iff.1 hrest)

end JvmLisp.Compiler
