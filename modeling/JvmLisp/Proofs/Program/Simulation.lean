import JvmLisp.Program.Compiler
import JvmLisp.Proofs.Program.Translation

/-! # The compiler as a translation

What the compiler does, step by step, is to read a token, to take it, and to perform what is emitted
at it. So a source text compiles if and only if it spells well-typed trees whose emissions can be
performed.
-/

namespace JvmLisp

open Source (Cursor Layout Lexeme Scan Spells Token)

/-! ### Actions of the forms -/

namespace Build

variable {α : Type} {a a' : Assembly}

theorem performAll_singleton (e : Emission) : performAll [e] = perform e := by
  simp [performAll]

/-- An operation without a constant is emitted at once. -/
theorem perform_eq_emit {e : Emission} (h : e.operation.item? = none) :
    perform e = emit (e.operation.instruction 0) e.effect := by
  simp [perform, locate, h]

theorem performAll_return {es : List Emission} {x y : α} :
    (do performAll es; return x : Build α) a = (.ok y, a') ↔
      performAll es a = (.ok (), a') ∧ x = y := by
  rw [Jvm.bind_eq_ok]
  constructor
  · rintro ⟨_, _, h, h'⟩
    cases h'
    exact ⟨h, rfl⟩
  · rintro ⟨h, rfl⟩
    exact ⟨(), a', h, rfl⟩

theorem emitTimes_eq (n : Nat) :
    emitTimes n .ladd (-2) = performAll (List.replicate n ⟨.ladd, -2⟩) := by
  induction n with
  | zero => rfl
  | succ n ih =>
    rw [emitTimes, List.replicate_succ, performAll, ih, perform_eq_emit rfl]
    rfl

end Build

namespace Form

theorem start_eq (op : Operator) :
    start op = do Build.performAll op.opens; return of op 0 := by
  cases op with
  | print =>
    rw [Operator.opens, Build.performAll_singleton]
    simp only [start, Build.perform, bind_assoc]
    rfl
  | add => simp [start, Operator.opens, Build.performAll, of]

theorem beginOperand_eq (f : Form) : f.beginOperand = Build.performAll f.operator.before := by
  cases f with
  | print =>
    rw [operator, Operator.before, Build.performAll_singleton, Build.perform_eq_emit rfl]
    rfl
  | add n => rfl

theorem pushText_eq (content : String) :
    pushText content = Build.performAll [⟨.loadText content, 1⟩] := by
  rw [Build.performAll_singleton]
  rfl

theorem pushLong_eq (value : Int64) :
    pushLong value = Build.performAll [⟨.loadLong value, 2⟩] := by
  rw [Build.performAll_singleton]
  rfl

theorem finish_eq (f : Form) :
    f.finish = do Build.performAll f.closes; return f.operator.type := by
  match f with
  | print =>
    rw [closes, Operator.closes, Build.performAll_singleton]
    rfl
  | add 0 =>
    rw [closes, Operator.closes, ← pushLong_eq]
    rfl
  | add (n + 1) =>
    rw [closes, Operator.closes, ← Build.emitTimes_eq]
    rfl

theorem takeOperand_eq {f : Form} {type : ValueType} (h : f.operator.Takes type) :
    f.takeOperand type =
      .ok do Build.performAll (f.operator.after type); return f.next := by
  match f, type with
  | print, .text | print, .long =>
    rw [operator, Operator.after, Build.performAll_singleton]
    rfl
  | add n, .long => rfl
  | print, .void | add n, .void | add n, .text => simp [operator, Operator.Takes] at h

theorem takeOperand_error {f : Form} {type : ValueType} (h : ¬f.operator.Takes type) :
    ∃ cause, f.takeOperand type = .error cause := by
  match f, type with
  | print, .void | add n, .void | add n, .text => exact ⟨_, rfl⟩
  | print, .text | print, .long | add n, .long => simp [operator, Operator.Takes] at h

end Form

/-! ### Steps -/

namespace Compiler

/-- What the course of a compilation depends on: the text that is left, the open forms, and what has
been built. -/
def view (c : Compiler) : List Char × List Form × Assembly :=
  (c.cursor.rest, c.forms.map OpenForm.form, c.assembly)

def Step.Reaches (s : Step) (v : List Char × List Form × Assembly) : Prop :=
  ∃ c, s = .next c ∧ c.view = v

@[simp] theorem next_reaches {c : Compiler} {v : List Char × List Form × Assembly} :
    (Step.next c).Reaches v ↔ c.view = v := by
  simp [Step.Reaches]

@[simp] theorem stop_reaches {result : Except Error Unit} {c : Compiler}
    {v : List Char × List Form × Assembly} : ¬(Step.stop result c).Reaches v := by
  simp [Step.Reaches]

variable {α : Type} {start behind : Cursor} {r : List Char} {forms : List Form}
  {opened : List OpenForm} {n : Nat} {a a' : Assembly}

theorem build_reaches {mark : Cursor} {action : Build α} {next : α → Compiler → Step}
    {v : List Char × List Form × Assembly} :
    (build mark action next ⟨start, opened, n, a⟩).Reaches v ↔
      ∃ x a', action a = (.ok x, a') ∧ (next x ⟨start, opened, n, a'⟩).Reaches v := by
  rw [build]
  rcases action a with ⟨e | x, a₁⟩
  · constructor
    · intro h
      exact absurd h stop_reaches
    · rintro ⟨x, a', h, -⟩
      cases h
  · constructor
    · intro h
      exact ⟨x, a₁, rfl, h⟩
    · rintro ⟨x', a', h, h'⟩
      cases h
      exact h'

theorem build_performAll_reaches {mark : Cursor} {es : List Emission} {x : α}
    {next : α → Compiler → Step} {v : List Char × List Form × Assembly} :
    (build mark (do Build.performAll es; return x) next ⟨start, opened, n, a⟩).Reaches v ↔
      ∃ a', Build.performAll es a = (.ok (), a') ∧
        (next x ⟨start, opened, n, a'⟩).Reaches v := by
  simp only [build_reaches, Build.performAll_return]
  constructor
  · rintro ⟨_, a', ⟨h, rfl⟩, hnext⟩
    exact ⟨a', h, hnext⟩
  · rintro ⟨a', h, hnext⟩
    exact ⟨x, a', ⟨h, rfl⟩, hnext⟩

theorem deliver_reaches {mark : Cursor} {type : ValueType} :
    (deliver mark type ⟨start, opened, n, a⟩).Reaches (r, forms, a') ↔
      start.rest = r ∧ ∃ es, type.deliver (opened.map OpenForm.form) = some (es, forms) ∧
        Build.performAll es a = (.ok (), a') := by
  cases opened with
  | nil =>
    simp only [deliver, next_reaches, view]
    constructor
    · intro h
      cases h
      exact ⟨rfl, [], rfl, rfl⟩
    · rintro ⟨rfl, es, h, hes⟩
      cases h
      cases hes
      rfl
  | cons innermost outer =>
    rcases innermost with ⟨f, opening⟩
    rw [List.map_cons, ValueType.deliver]
    by_cases htakes : f.operator.Takes type
    · rw [deliver, Form.takeOperand_eq htakes, if_pos htakes]
      simp only [build_performAll_reaches, next_reaches, view, List.map_cons]
      constructor
      · rintro ⟨_, hes, h⟩
        cases h
        exact ⟨rfl, _, rfl, hes⟩
      · rintro ⟨rfl, es, h, hes⟩
        cases h
        exact ⟨a', hes, rfl⟩
    · obtain ⟨cause, hcause⟩ := Form.takeOperand_error htakes
      simp [deliver, hcause, fail, htakes]

theorem load_reaches {e : Emission} {type : ValueType} {mark mark' : Cursor} :
    (build mark (Build.performAll [e]) (fun _ => deliver mark' type)
      ⟨start, opened, n, a⟩).Reaches (r, forms, a') ↔
        start.rest = r ∧ ∃ es, type.deliver (opened.map OpenForm.form) = some (es, forms) ∧
          Build.performAll (e :: es) a = (.ok (), a') := by
  simp only [build_reaches, deliver_reaches]
  constructor
  · rintro ⟨_, a₁, he, hr, es, hdeliver, hes⟩
    exact ⟨hr, es, hdeliver, Build.performAll_append_ok.2 ⟨a₁, he, hes⟩⟩
  · rintro ⟨hr, es, hdeliver, hes⟩
    obtain ⟨a₁, he, hes⟩ := Build.performAll_append_ok.1 (List.singleton_append ▸ hes)
    exact ⟨(), a₁, he, hr, es, hdeliver, hes⟩

/-- A lexeme that has been read is taken. -/
theorem readOperand_reaches_of_read {l : Lexeme} (hread : Lexeme.read start = (.ok l, behind)) :
    (readOperand ⟨start, opened, n, a⟩).Reaches (r, forms, a') ↔ behind.rest = r ∧ ∃ es,
      l.take (opened.map OpenForm.form) = some (es, forms) ∧
        Build.performAll es a = (.ok (), a') := by
  cases l with
  | opening op =>
    simp only [readOperand, hread, Form.start_eq, build_performAll_reaches, next_reaches, view,
      List.map_cons]
    constructor
    · rintro ⟨_, hes, h⟩
      cases h
      exact ⟨rfl, _, rfl, hes⟩
    · rintro ⟨rfl, es, h, hes⟩
      cases h
      exact ⟨a', hes, rfl⟩
  | text content | integer value =>
    simp only [readOperand, hread, Form.pushText_eq, Form.pushLong_eq, load_reaches, Lexeme.take,
      Option.map_eq_some_iff]
    constructor
    · rintro ⟨hr, es, hdeliver, hes⟩
      exact ⟨hr, _, ⟨_, hdeliver, rfl⟩, hes⟩
    · rintro ⟨hr, _, ⟨⟨es, _⟩, hdeliver, h⟩, hes⟩
      cases h
      exact ⟨hr, es, hdeliver, hes⟩

theorem readOperand_reaches :
    (readOperand ⟨start, opened, n, a⟩).Reaches (r, forms, a') ↔ ∃ l es,
      Spells (.lexeme l) start.rest r ∧ l.take (opened.map OpenForm.form) = some (es, forms) ∧
        Build.performAll es a = (.ok (), a') := by
  constructor
  · intro h
    rcases hread : Lexeme.read start with ⟨e | l, behind⟩
    · rw [readOperand, hread] at h
      exact absurd h stop_reaches
    · obtain ⟨rfl, es, htake, hes⟩ := (readOperand_reaches_of_read hread).1 h
      exact ⟨l, es, Lexeme.spells_of_read hread, htake, hes⟩
  · rintro ⟨l, es, hspells, htake, hes⟩
    obtain ⟨behind, hr, hread⟩ := Lexeme.read_of_spells hspells start.before
    exact (readOperand_reaches_of_read hread).2 ⟨hr, es, htake, hes⟩

theorem beginOperand_eq (opened : List OpenForm) :
    beginOperand opened = Build.performAll (Operator.beforeIn (opened.map OpenForm.form)) := by
  cases opened with
  | nil => rfl
  | cons innermost outer => exact Form.beginOperand_eq innermost.form

theorem step_reaches_of_closing {u : List Char} (hrest : start.skipLayout.rest = ')' :: u) :
    (step ⟨start, opened, n, a⟩).Reaches (r, forms, a') ↔ u = r ∧ ∃ es,
      Token.closing.take (opened.map OpenForm.form) = some (es, forms) ∧
        Build.performAll es a = (.ok (), a') := by
  cases opened with
  | nil => simp [step, hrest, fail, Token.take]
  | cons innermost outer =>
    have hadvance : start.skipLayout.advance.rest = u := by
      rcases hskip : start.skipLayout with ⟨before, rest⟩
      obtain rfl : rest = ')' :: u := by simpa [hskip] using hrest
      rfl
    simp only [step, hrest, Form.finish_eq, build_performAll_reaches, deliver_reaches,
      List.map_cons, Token.take, Option.map_eq_some_iff, hadvance]
    constructor
    · rintro ⟨a₁, hclose, hr, es, hdeliver, hes⟩
      exact ⟨hr, _, ⟨_, hdeliver, rfl⟩, Build.performAll_append_ok.2 ⟨a₁, hclose, hes⟩⟩
    · rintro ⟨hr, _, ⟨⟨es, _⟩, hdeliver, h⟩, hes⟩
      cases h
      obtain ⟨a₁, hclose, hes⟩ := Build.performAll_append_ok.1 hes
      exact ⟨a₁, hclose, hr, es, hdeliver, hes⟩

theorem step_reaches_of_ne {c : Char} {u : List Char} (hrest : start.skipLayout.rest = c :: u)
    (hc : c ≠ ')') :
    (step ⟨start, opened, n, a⟩).Reaches (r, forms, a') ↔ ∃ l es,
      Spells (.lexeme l) (c :: u) r ∧
      (Token.lexeme l).take (opened.map OpenForm.form) = some (es, forms) ∧
        Build.performAll es a = (.ok (), a') := by
  have hstep : step ⟨start, opened, n, a⟩ =
      build start.skipLayout (beginOperand opened) (fun _ => readOperand)
        ⟨start.skipLayout, opened, n, a⟩ := by
    simp only [step, hrest]
    split <;> simp_all
  simp only [hstep, beginOperand_eq, build_reaches, readOperand_reaches, Token.take,
    Option.map_eq_some_iff, hrest]
  constructor
  · rintro ⟨_, a₁, hbefore, l, es, hspells, htake, hes⟩
    exact ⟨l, _, hspells, ⟨_, htake, rfl⟩, Build.performAll_append_ok.2 ⟨a₁, hbefore, hes⟩⟩
  · rintro ⟨l, _, hspells, ⟨⟨es, _⟩, htake, h⟩, hes⟩
    cases h
    obtain ⟨a₁, hbefore, hes⟩ := Build.performAll_append_ok.1 hes
    exact ⟨(), a₁, hbefore, l, es, hspells, htake, hes⟩

theorem layout_spells_iff {t : Token} :
    (∃ s, Layout start.rest s ∧ Spells t s r) ↔ Spells t start.skipLayout.rest r := by
  constructor
  · rintro ⟨s, hlayout, hspells⟩
    rwa [Cursor.skipLayout_rest hlayout hspells.solid]
  · intro hspells
    exact ⟨_, start.layout_skipLayout, hspells⟩

/-- A step that does not stop reads a token, takes it and performs what is emitted. -/
theorem step_reaches (c : Compiler) :
    (step c).Reaches (r, forms, a') ↔ ∃ t es,
      (∃ s, Layout c.cursor.rest s ∧ Spells t s r) ∧
      t.take (c.forms.map OpenForm.form) = some (es, forms) ∧
        Build.performAll es c.assembly = (.ok (), a') := by
  rcases c with ⟨start, opened, n, a⟩
  simp only [layout_spells_iff]
  rcases hrest : start.skipLayout.rest with _ | ⟨c, u⟩
  · have hstop : ¬(step ⟨start, opened, n, a⟩).Reaches (r, forms, a') := by
      cases opened <;> simp [step, hrest, fail]
    constructor
    · intro h
      exact absurd h hstop
    · rintro ⟨t, es, hspells, -⟩
      exact absurd rfl hspells.ne_nil
  · by_cases hc : c = ')'
    · subst hc
      rw [step_reaches_of_closing hrest]
      constructor
      · rintro ⟨rfl, es, h⟩
        exact ⟨.closing, es, .closing u, h⟩
      · rintro ⟨t, es, hspells, h⟩
        cases t with
        | lexeme l => exact absurd hspells Source.not_spells_closing
        | closing =>
          cases hspells
          exact ⟨rfl, es, h⟩
    · rw [step_reaches_of_ne hrest hc]
      constructor
      · rintro ⟨l, es, h⟩
        exact ⟨.lexeme l, es, h⟩
      · rintro ⟨t, es, hspells, h⟩
        cases t with
        | lexeme l => exact ⟨l, es, hspells, h⟩
        | closing =>
          cases hspells
          exact absurd rfl hc

theorem build_ne_stop {mark : Cursor} {action : Build α} {next : α → Compiler → Step}
    (h : ∀ x c c', next x c ≠ .stop (.ok ()) c') (c c' : Compiler) :
    build mark action next c ≠ .stop (.ok ()) c' := by
  rw [build]
  split
  · exact h _ _ _
  · simp [fail]

theorem deliver_ne_stop (mark : Cursor) (type : ValueType) (c c' : Compiler) :
    deliver mark type c ≠ .stop (.ok ()) c' := by
  rw [deliver.eq_def]
  split
  · simp
  · split
    · simp [fail]
    · apply build_ne_stop
      simp

theorem readOperand_ne_stop (c c' : Compiler) : readOperand c ≠ .stop (.ok ()) c' := by
  rcases c with ⟨start, forms, n, a⟩
  rw [readOperand]
  split
  · simp
  · apply build_ne_stop
    simp
  · apply build_ne_stop
    exact fun _ => deliver_ne_stop _ _
  · apply build_ne_stop
    exact fun _ => deliver_ne_stop _ _

/-- The compiler stops without an error where only layout is left and no form is open. -/
theorem step_stops {c : Compiler} :
    (∃ c', step c = .stop (.ok ()) c' ∧ c'.assembly = a') ↔
      Layout c.cursor.rest [] ∧ c.forms = [] ∧ c.assembly = a' := by
  constructor
  · rintro ⟨c', h, ha⟩
    have hlayout := c.cursor.layout_skipLayout
    rcases c with ⟨start, forms, n, a⟩
    simp only [step] at h
    split at h
    · rename_i hrest
      obtain rfl := (Step.stop.inj h).2
      exact ⟨hrest ▸ hlayout, rfl, ha⟩
    · simp [fail] at h
    · simp [fail] at h
    · exact absurd h (build_ne_stop (fun _ => deliver_ne_stop _ _) _ _)
    · exact absurd h (build_ne_stop (fun _ => readOperand_ne_stop) _ _)
  · rintro ⟨hlayout, hforms, ha⟩
    have hrest := Cursor.skipLayout_rest hlayout Source.solid_nil
    rcases c with ⟨start, forms, n, a⟩
    obtain rfl : forms = [] := hforms
    refine ⟨⟨start.skipLayout, [], n, a⟩, ?_, ha⟩
    simp only [step, hrest]

/-! ### Runs -/

/-- All tokens of the text that is left can be taken, and the emissions performed, until no form is
open. -/
def Completes (v : List Char × List Form × Assembly) (a : Assembly) : Prop :=
  ∃ ts s es, Scan ts v.1 s ∧ Layout s [] ∧ Token.takeAll ts v.2.1 = some (es, []) ∧
    Build.performAll es v.2.2 = (.ok (), a)

theorem completes_iff (c : Compiler) :
    Completes c.view a ↔ (∃ c', step c = .stop (.ok ()) c' ∧ c'.assembly = a) ∨
      ∃ v, (step c).Reaches v ∧ Completes v a := by
  constructor
  · rintro ⟨ts, s, es, hscan, hlayout, htake, hes⟩
    cases hscan with
    | nil =>
      obtain ⟨rfl, hforms⟩ : [] = es ∧ c.forms = [] := by simpa [Token.takeAll, view] using htake
      cases hes
      exact .inl (step_stops.2 ⟨hlayout, hforms, rfl⟩)
    | cons hl hspells hscan =>
      obtain ⟨es₁, forms₁, es₂, ht, hts, rfl⟩ := Token.takeAll_cons.1 htake
      obtain ⟨a₁, hes₁, hes₂⟩ := Build.performAll_append_ok.1 hes
      exact .inr ⟨_, (step_reaches c).2 ⟨_, _, ⟨_, hl, hspells⟩, ht, hes₁⟩,
        _, s, es₂, hscan, hlayout, hts, hes₂⟩
  · rintro (h | ⟨⟨r, forms, a₁⟩, h, ts, s, es, hscan, hlayout, htake, hes⟩)
    · obtain ⟨hlayout, hforms, rfl⟩ := step_stops.1 h
      exact ⟨[], _, [], .nil _, hlayout, by simp [view, hforms, Token.takeAll], rfl⟩
    · obtain ⟨t, es₁, ⟨u, hl, hspells⟩, ht, hes₁⟩ := (step_reaches c).1 h
      exact ⟨t :: ts, s, es₁ ++ es, .cons hl hspells hscan, hlayout,
        Token.takeAll_cons.2 ⟨es₁, _, es, ht, htake, rfl⟩,
        Build.performAll_append_ok.2 ⟨_, hes₁, hes⟩⟩

theorem run_of_stop {c c' : Compiler} {result : Except Error Unit} (h : step c = .stop result c') :
    run c = (result, c') := by
  rw [run]
  split <;> simp_all

theorem run_of_next {c c' : Compiler} (h : step c = .next c') : run c = run c' := by
  rw [run]
  split <;> simp_all

/-- A run succeeds if and only if what is left can be completed. -/
theorem run_eq_ok (c : Compiler) :
    (∃ c', run c = (.ok (), c') ∧ c'.assembly = a) ↔ Completes c.view a := by
  induction c using run.induct with
  | case1 c result c₁ h =>
    rw [completes_iff, h, run_of_stop h]
    simp
  | case2 c c₁ h ih =>
    rw [completes_iff, h, run_of_next h, ih]
    simp

end Compiler

/-- What a whole program emits. -/
def Expr.program (es : List Expr) : List Emission :=
  es.flatMap emissions ++ [⟨.ret, 0⟩]

namespace Compiler

theorem finish_eq_ok {n : Nat} {a a' : Assembly} {p : Program} :
    finish n a = (.ok p, a') ↔ ∃ a₁, Build.perform ⟨.ret, 0⟩ a = (.ok (), a₁) ∧
      p = ⟨a₁.pool, a₁.body⟩ ∧
      a' = ⟨a₁.pool, a₁.body, a₁.journal.push
        (.compiled n a₁.body.instructions.size a₁.body.peak a₁.pool.size), a₁.noted⟩ := by
  rw [finish, Build.perform_eq_emit rfl, Jvm.bind_eq_ok]
  constructor
  · rintro ⟨_, a₁, hret, h⟩
    cases h
    exact ⟨a₁, hret, rfl, rfl⟩
  · rintro ⟨a₁, hret, rfl, rfl⟩
    exact ⟨(), a₁, hret, rfl⟩

theorem compile_eq_ok {source : List Char} {p : Program} {a : Assembly} :
    compile source = (.ok p, a) ↔ ∃ c, run { cursor := Cursor.ofText source } = (.ok (), c) ∧
      finish c.expressions c.assembly = (.ok p, a) := by
  rw [compile]
  rcases run { cursor := Cursor.ofText source } with ⟨_ | _, c⟩ <;> simp

/-- The trees that a text spells, if it spells well-typed ones, say what is performed. -/
theorem run_source_eq_ok {source : List Char} {a : Assembly} :
    (∃ c, run { cursor := Cursor.ofText source } = (.ok (), c) ∧ c.assembly = a) ↔
      ∃ es, SpelledProgram es source ∧ (∀ e ∈ es, e.WellTyped) ∧
        Build.performAll (es.flatMap Expr.emissions) {} = (.ok (), a) := by
  rw [run_eq_ok]
  constructor
  · rintro ⟨ts, s, xs, hscan, hlayout, htake, hxs⟩
    obtain ⟨es, rfl, htyped, rfl⟩ := Expr.takeAll_eq_some_iff.1 htake
    exact ⟨es, spelledProgram_iff.2 ⟨s, hscan, hlayout⟩, htyped, hxs⟩
  · rintro ⟨es, hspelled, htyped, hxs⟩
    obtain ⟨s, hscan, hlayout⟩ := spelledProgram_iff.1 hspelled
    exact ⟨_, s, _, hscan, hlayout, Expr.takeAll_eq_some_iff.2 ⟨es, rfl, htyped, rfl⟩, hxs⟩

/-- A text that compiles spells well-typed trees, and their emissions have been performed. -/
theorem compile_sound {source : List Char} {p : Program} {a : Assembly}
    (h : compile source = (.ok p, a)) :
    p = ⟨a.pool, a.body⟩ ∧ ∃ es, SpelledProgram es source ∧ (∀ e ∈ es, e.WellTyped) ∧
      a.Holds (Expr.program es) := by
  obtain ⟨c, hrun, hfinish⟩ := compile_eq_ok.1 h
  obtain ⟨es, hspelled, htyped, hes⟩ := run_source_eq_ok.1 ⟨c, hrun, rfl⟩
  obtain ⟨a₁, hret, rfl, rfl⟩ := finish_eq_ok.1 hfinish
  have hholds := ((Assembly.holds_empty.performAll hes).perform hret)
  refine ⟨rfl, es, hspelled, htyped, hholds.congr rfl rfl ?_⟩
  simp [Assembly.emitted, Event.emission?]

theorem sound_of_compile {source : List Char} {p : Program} (h : (compile source).1 = .ok p) :
    p.pool.Sound := by
  obtain ⟨hp, es, -, -, hholds⟩ := compile_sound (Prod.ext h rfl)
  rw [hp]
  exact hholds.sound

/-- A text that spells well-typed trees compiles if their constants can be absorbed and the depth of
the stack keeps its bounds. -/
theorem compile_complete {source : List Char} {es : List Expr} (hspelled : SpelledProgram es source)
    (htyped : ∀ e ∈ es, e.WellTyped)
    (habsorb : (Jvm.absorb ((Expr.program es).flatMap Emission.parts) []).1 = .ok ())
    (hdepth : ∀ xs, xs <+: Expr.program es →
      0 ≤ Emission.depth xs ∧ Emission.depth xs < Jvm.Body.depthBound) :
    ∃ p a, compile source = (.ok p, a) := by
  obtain ⟨a, ha⟩ := Assembly.holds_empty.exists_performAll habsorb hdepth
  obtain ⟨a₁, hes, hret⟩ := Build.performAll_append_ok.1 ha
  obtain ⟨c, hrun, rfl⟩ := run_source_eq_ok.2 ⟨es, hspelled, htyped, hes⟩
  rw [Build.performAll_singleton] at hret
  exact ⟨_, _, compile_eq_ok.2 ⟨c, hrun, finish_eq_ok.2 ⟨a, hret, rfl, rfl⟩⟩⟩

end Compiler

end JvmLisp
