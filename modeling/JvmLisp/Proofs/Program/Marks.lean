import JvmLisp.Proofs.Program.Progress

/-! # Stored marks

A compiler that keeps a mark in every open form: where the operand begins that the form was given
last. What the form has against an operand is placed at this mark, however much was read since it
was stored, while the compiler itself places it where the lexeme or the closed form begins.

Both are the same place. As an operand is a lexeme or a form, the mark in a form is the opening of
the form inside it. Only the mark in the innermost form may be that of an operand which has been
taken already, and it is overwritten before it is used.
-/

namespace JvmLisp.Compiler

open Source (Cursor Lexeme)

/-- Where the open forms begin, the innermost first. -/
def openings (c : Compiler) : List Cursor :=
  c.forms.map OpenForm.opening

structure Marked where
  compiler : Compiler
  /-- The mark in each open form, the innermost form first. -/
  marks : List Cursor := []

namespace Marked

variable {m m' : Marked} {c c' : Compiler} {source : List Char} {α : Type}

/-- Stores a mark in the innermost form, if a form is open. -/
def store (mark : Cursor) (marks : List Cursor) : List Cursor :=
  if marks.isEmpty then [] else mark :: marks.tail

/-- Reads an expression, or the start of one. A literal is delivered with the mark that its form has
stored. -/
def readOperand (stored : Cursor) : Compiler → Step
  | ⟨start, forms, expressions, assembly⟩ =>
    match Lexeme.read start with
    | (.error e, cursor) => .stop (.error e) ⟨cursor, forms, expressions, assembly⟩
    | (.ok (.opening operator), cursor) =>
      build cursor (Form.start operator)
        (fun form c => .next { c with forms := ⟨form, start⟩ :: c.forms })
        ⟨cursor, forms, expressions, assembly⟩
    | (.ok (.text content), cursor) =>
      build start (Form.pushText content) (fun _ => deliver stored .text)
        ⟨cursor, forms, expressions, assembly⟩
    | (.ok (.integer value), cursor) =>
      build cursor (Form.pushLong value) (fun _ => deliver stored .long)
        ⟨cursor, forms, expressions, assembly⟩

/-- A step, and the marks behind it. A form that is opened stores its own opening. -/
def step : Marked → Step × List Cursor
  | ⟨⟨cursor, forms, expressions, assembly⟩, marks⟩ =>
    let start := cursor.skipLayout
    match start.rest, forms with
    | [], [] => (.stop (.ok ()) ⟨start, [], expressions, assembly⟩, marks)
    | [], innermost :: outer =>
      (fail ⟨start, innermost :: outer, expressions, assembly⟩ innermost.opening
        (.malformed .unclosedForm), marks)
    | ')' :: _, [] =>
      (fail ⟨start, [], expressions, assembly⟩ start (.malformed .strayClose), marks)
    | ')' :: _, ⟨form, _⟩ :: outer =>
      (build start.advance form.finish (fun type => deliver (marks.tail.headD start) type)
        ⟨start.advance, outer, expressions, assembly⟩, marks.tail)
    | d :: _, forms =>
      let marks := store start marks
      (build start (beginOperand forms) (fun _ => readOperand (marks.headD start))
        ⟨start, forms, expressions, assembly⟩, if d = '(' then start :: marks else marks)

/-- In every form but the innermost, the mark is the opening of the form inside it. -/
def Stores (m : Marked) : Prop :=
  ∃ mark, m.marks = (mark :: m.compiler.openings).dropLast

/-! ### Which forms are open -/

theorem openings_deliver {start : Cursor} {type : ValueType} (h : deliver start type c = .next c') :
    c'.openings = c.openings := by
  unfold deliver at h
  split at h
  · obtain rfl := Step.next.inj h
    rfl
  · split at h
    · cases h
    · obtain ⟨form, assembly, h⟩ := build_eq_next h
      obtain rfl := Step.next.inj h
      rfl

/-- A form is opened at a parenthesis and nowhere else. -/
theorem opening_iff {l : Lexeme} {d : Char} {s r : List Char}
    (h : Source.Spells (.lexeme l) (d :: s) r) : (∃ op, l = .opening op) ↔ d = '(' := by
  cases h with
  | opening => simp
  | text => simp
  | integer hatom =>
    have hne : d ≠ '(' := by
      rintro rfl
      exact absurd hatom.not_structural (by decide)
    simp [hne]

theorem openings_readOperand {d : Char} {s : List Char} (hrest : c.cursor.rest = d :: s)
    (h : Compiler.readOperand c = .next c') :
    c'.openings = if d = '(' then c.cursor :: c.openings else c.openings := by
  rcases c with ⟨start, forms, n, a⟩
  have hopening {l : Lexeme} {behind : Cursor} (hread : Lexeme.read start = (.ok l, behind)) :
      (∃ op, l = .opening op) ↔ d = '(' := by
    have hspells := Lexeme.spells_of_read hread
    rw [show start.rest = d :: s from hrest] at hspells
    exact opening_iff hspells
  have hliteral {l : Lexeme} {behind : Cursor} (hread : Lexeme.read start = (.ok l, behind))
      (hl : ∀ op, l ≠ .opening op) : d ≠ '(' := by
    intro hd
    obtain ⟨op, hop⟩ := (hopening hread).2 hd
    exact hl op hop
  simp only [Compiler.readOperand] at h
  split at h
  · cases h
  · rename_i hread
    rw [if_pos ((hopening hread).1 ⟨_, rfl⟩)]
    obtain ⟨form, assembly, h⟩ := build_eq_next h
    obtain rfl := Step.next.inj h
    rfl
  · rename_i hread
    rw [if_neg (hliteral hread (by simp))]
    obtain ⟨_, assembly, h⟩ := build_eq_next h
    exact (openings_deliver h).trans rfl
  · rename_i hread
    rw [if_neg (hliteral hread (by simp))]
    obtain ⟨_, assembly, h⟩ := build_eq_next h
    exact (openings_deliver h).trans rfl

theorem headD_store (mark : Cursor) (marks : List Cursor) :
    (store mark marks).headD mark = mark := by
  rcases marks with _ | ⟨_, _⟩ <;> rfl

/-- Outside all forms a value is not refused, so that it does not matter where it begins. -/
theorem deliver_outside (start start' : Cursor) (type : ValueType) (h : c.forms = []) :
    deliver start type c = deliver start' type c := by
  rcases c with ⟨cursor, forms, n, a⟩
  obtain rfl : forms = [] := h
  rfl

theorem build_congr {mark : Cursor} {action : Build α} {next next' : α → Compiler → Step}
    (h : ∀ x a, next x { c with assembly := a } = next' x { c with assembly := a }) :
    build mark action next c = build mark action next' c := by
  rcases c with ⟨cursor, forms, n, a⟩
  simp only [build]
  split
  · exact h _ _
  · rfl

theorem store_dropLast (mark mark' : Cursor) (openings : List Cursor) :
    store mark' (mark :: openings).dropLast = (mark' :: openings).dropLast := by
  cases openings <;> rfl

/-! ### Steps -/

variable {d : Char} {s : List Char}

/-- A lexeme is read with the mark of its own beginning. -/
theorem step_of_lexeme (hrest : m.compiler.cursor.skipLayout.rest = d :: s) (hd : d ≠ ')') :
    m.step = (m.compiler.step, if d = '(' then
      m.compiler.cursor.skipLayout :: store m.compiler.cursor.skipLayout m.marks
      else store m.compiler.cursor.skipLayout m.marks) := by
  rw [Compiler.step_of_lexeme hrest hd]
  rcases m with ⟨⟨cursor, forms, n, a⟩, marks⟩
  simp only at hrest
  simp only [step, hrest, headD_store]
  split
  · cases ‹d :: s = []›
  · cases ‹d :: s = []›
  · exact absurd (List.cons.inj ‹_›).1 hd
  · exact absurd (List.cons.inj ‹_›).1 hd
  · obtain ⟨rfl, -⟩ := List.cons.inj ‹d :: s = _›
    rfl

theorem step_of_closing {f : Form} {opening : Cursor} {outer : List OpenForm}
    (hrest : m.compiler.cursor.skipLayout.rest = ')' :: s)
    (hforms : m.compiler.forms = ⟨f, opening⟩ :: outer) :
    m.step = (build m.compiler.cursor.skipLayout.advance f.finish
      (fun type => deliver (m.marks.tail.headD m.compiler.cursor.skipLayout) type)
      ⟨m.compiler.cursor.skipLayout.advance, outer, m.compiler.expressions, m.compiler.assembly⟩,
      m.marks.tail) := by
  rcases m with ⟨⟨cursor, forms, n, a⟩, marks⟩
  obtain rfl : forms = ⟨f, opening⟩ :: outer := hforms
  simp only at hrest
  simp only [step, hrest]

/-- In the other cases the compiler stops. -/
theorem step_of_stop (h : m.compiler.cursor.skipLayout.rest = [] ∨
    m.compiler.cursor.skipLayout.rest = ')' :: s ∧ m.compiler.forms = []) :
    m.step = (m.compiler.step, m.marks) ∧ ∀ c', m.compiler.step ≠ .next c' := by
  rcases m with ⟨⟨cursor, forms, n, a⟩, marks⟩
  rcases h with hrest | ⟨hrest, hforms⟩
  · simp only at hrest
    rcases forms with _ | ⟨innermost, outer⟩ <;> simp [step, Compiler.step, hrest, fail]
  · obtain rfl : forms = [] := hforms
    simp only at hrest
    simp [step, Compiler.step, hrest, fail]

/-- The form that takes a closed form has stored its opening. -/
theorem Stores.deliver_closed {f : Form} {opening : Cursor} {outer : List OpenForm} (h : Stores m)
    (hforms : m.compiler.forms = ⟨f, opening⟩ :: outer) (hc : c.forms = outer) (start : Cursor)
    (type : ValueType) : deliver (m.marks.tail.headD start) type c = deliver opening type c := by
  obtain ⟨mark, hmarks⟩ := h
  rcases outer with _ | ⟨_, _⟩
  · exact deliver_outside _ _ _ hc
  · rw [hmarks, openings, hforms]
    rfl

theorem Stores.step_eq (h : Stores m) : m.step.1 = m.compiler.step := by
  rcases hrest : m.compiler.cursor.skipLayout.rest with _ | ⟨d, s⟩
  · rw [(step_of_stop (s := []) (.inl hrest)).1]
  · by_cases hd : d = ')'
    · subst hd
      rcases hforms : m.compiler.forms with _ | ⟨⟨f, opening⟩, outer⟩
      · rw [(step_of_stop (.inr ⟨hrest, hforms⟩)).1]
      · rw [step_of_closing hrest hforms, Compiler.step_of_closing hrest hforms]
        dsimp only
        apply build_congr
        intro type a
        exact h.deliver_closed hforms rfl _ type
    · rw [step_of_lexeme hrest hd]

/-- Behind a step, the marks are again those of the forms that are open. -/
theorem Stores.next (h : Stores m) (hnext : m.step = (.next m'.compiler, m'.marks)) :
    Stores m' := by
  have hstep : m.compiler.step = .next m'.compiler :=
    h.step_eq.symm.trans (congrArg Prod.fst hnext)
  have hmarks' : m'.marks = m.step.2 := (congrArg Prod.snd hnext).symm
  obtain ⟨mark, hmarks⟩ := h
  rcases hrest : m.compiler.cursor.skipLayout.rest with _ | ⟨d, s⟩
  · exact absurd hstep ((step_of_stop (s := []) (.inl hrest)).2 _)
  · by_cases hd : d = ')'
    · subst hd
      rcases hforms : m.compiler.forms with _ | ⟨⟨f, opening⟩, outer⟩
      · exact absurd hstep ((step_of_stop (.inr ⟨hrest, hforms⟩)).2 _)
      · rw [Compiler.step_of_closing hrest hforms] at hstep
        obtain ⟨type, a', hstep⟩ := build_eq_next hstep
        refine ⟨opening, ?_⟩
        rw [hmarks', step_of_closing hrest hforms, hmarks, openings, hforms,
          openings_deliver hstep]
        rfl
    · rw [Compiler.step_of_lexeme hrest hd] at hstep
      obtain ⟨_, a', hstep⟩ := build_eq_next hstep
      refine ⟨m.compiler.cursor.skipLayout, ?_⟩
      rw [hmarks', step_of_lexeme hrest hd, hmarks, store_dropLast,
        openings_readOperand hrest hstep]
      split <;> rfl

/-! ### Runs -/

def start (source : List Char) : Marked :=
  { compiler := { cursor := Cursor.ofText source } }

/-- The states that a compiler with stored marks goes through. -/
def Visits (source : List Char) : Marked → Prop :=
  Relation.ReflTransGen (fun m m' => m.step = (.next m'.compiler, m'.marks)) (start source)

theorem Visits.stores (h : Visits source m) : Stores m := by
  induction h with
  | refl => exact ⟨Cursor.ofText source, rfl⟩
  | tail _ hnext ih => exact ih.next hnext

theorem Visits.compiler (h : Visits source m) : Compiler.Visits source m.compiler := by
  induction h with
  | refl => exact .refl
  | tail hvisits hnext ih =>
    exact ih.tail ((Visits.stores hvisits).step_eq.symm.trans (congrArg Prod.fst hnext))

theorem exists_visits (h : Compiler.Visits source c) : ∃ marks, Visits source ⟨c, marks⟩ := by
  induction h with
  | refl => exact ⟨[], .refl⟩
  | tail _ hstep ih =>
    obtain ⟨marks, hvisits⟩ := ih
    exact ⟨_, hvisits.tail (Prod.ext (hvisits.stores.step_eq.trans hstep) rfl)⟩

/-- A compiler that places what is wrong with an operand at the stored mark goes through the same
states and stops with the same errors: in each state, every form but the innermost has stored the
opening of the form that is read inside it. -/
theorem visits_iff (source : List Char) (c : Compiler) : Compiler.Visits source c ↔
    ∃ marks, Visits source ⟨c, marks⟩ ∧ Stores ⟨c, marks⟩ ∧ (step ⟨c, marks⟩).1 = c.step := by
  constructor
  · intro h
    obtain ⟨marks, hvisits⟩ := exists_visits h
    exact ⟨marks, hvisits, hvisits.stores, hvisits.stores.step_eq⟩
  · rintro ⟨marks, hvisits, -⟩
    exact hvisits.compiler

end Marked
end JvmLisp.Compiler
