import JvmLisp.Program.Form
import JvmLisp.Source.Lexeme

/-! # The compiler

A source text is compiled in one pass: every lexeme becomes code as soon as it is read. The forms
that are open are kept on a list, the innermost first, so only memory limits how deep they nest.

The main statement is that a step which does not stop has consumed a character, so the compiler
always stops.
-/

namespace JvmLisp

open Source (Cursor Lexeme)

structure OpenForm where
  form : Form
  /-- At the opening parenthesis. -/
  opening : Cursor

structure Compiler where
  cursor : Cursor
  /-- The innermost form comes first. -/
  forms : List OpenForm := []
  /-- The expressions compiled so far that are not part of another. -/
  expressions : Nat := 0
  assembly : Assembly := {}

/-- A compiled source text: the code to run, and the constants it refers to. -/
structure Program where
  pool : Jvm.Pool
  body : Jvm.Body

namespace Compiler

inductive Step where
  | next (compiler : Compiler)
  | stop (result : Except Error Unit) (compiler : Compiler)

def fail (c : Compiler) (mark : Cursor) (cause : Cause) : Step :=
  .stop (.error (c.cursor.errorAt mark cause)) c

/-- Goes on with the result of a build step. Its error is placed at the mark. -/
def build {α : Type} (mark : Cursor) (action : Build α) (next : α → Compiler → Step) :
    Compiler → Step
  | ⟨cursor, forms, expressions, assembly⟩ =>
    match action assembly with
    | (.ok a, assembly) => next a ⟨cursor, forms, expressions, assembly⟩
    | (.error e, assembly) => fail ⟨cursor, forms, expressions, assembly⟩ mark e.cause

/-- Passes a value, whose expression begins at `start`, to the innermost open form. Outside all
forms the expression is complete. -/
def deliver (start : Cursor) (type : ValueType) : Compiler → Step
  | ⟨cursor, [], expressions, assembly⟩ => .next ⟨cursor, [], expressions + 1, assembly⟩
  | ⟨cursor, ⟨form, opening⟩ :: outer, expressions, assembly⟩ =>
    match form.takeOperand type with
    | .error cause => fail ⟨cursor, ⟨form, opening⟩ :: outer, expressions, assembly⟩ start cause
    | .ok action =>
      build cursor action (fun form c => .next { c with forms := ⟨form, opening⟩ :: outer })
        ⟨cursor, outer, expressions, assembly⟩

/-- Reads an expression, or the start of one, and emits its code. -/
def readOperand : Compiler → Step
  | ⟨start, forms, expressions, assembly⟩ =>
    match Lexeme.read start with
    | (.error e, cursor) => .stop (.error e) ⟨cursor, forms, expressions, assembly⟩
    | (.ok (.opening operator), cursor) =>
      build cursor (Form.start operator)
        (fun form c => .next { c with forms := ⟨form, start⟩ :: c.forms })
        ⟨cursor, forms, expressions, assembly⟩
    | (.ok (.text content), cursor) =>
      build start (Form.pushText content) (fun _ => deliver start .text)
        ⟨cursor, forms, expressions, assembly⟩
    | (.ok (.integer value), cursor) =>
      build cursor (Form.pushLong value) (fun _ => deliver start .long)
        ⟨cursor, forms, expressions, assembly⟩

/-- What the innermost open form emits before an operand. -/
def beginOperand : List OpenForm → Build Unit
  | [] => pure ()
  | innermost :: _ => innermost.form.beginOperand

/-- Compiles up to the next parenthesis or literal. -/
def step : Compiler → Step
  | ⟨cursor, forms, expressions, assembly⟩ =>
    let start := cursor.skipLayout
    match start.rest, forms with
    | [], [] => .stop (.ok ()) ⟨start, [], expressions, assembly⟩
    | [], innermost :: outer =>
      fail ⟨start, innermost :: outer, expressions, assembly⟩ innermost.opening
        (.malformed .unclosedForm)
    | ')' :: _, [] => fail ⟨start, [], expressions, assembly⟩ start (.malformed .strayClose)
    | ')' :: _, ⟨form, opening⟩ :: outer =>
      build start.advance form.finish (fun type => deliver opening type)
        ⟨start.advance, outer, expressions, assembly⟩
    | _ :: _, forms =>
      build start (beginOperand forms) (fun _ => readOperand)
        ⟨start, forms, expressions, assembly⟩

/-! ### Progress -/

theorem build_eq_next {α : Type} {mark : Cursor} {action : Build α} {next : α → Compiler → Step}
    {c c' : Compiler} (h : build mark action next c = .next c') :
    ∃ a assembly, next a ⟨c.cursor, c.forms, c.expressions, assembly⟩ = .next c' := by
  rcases c with ⟨cursor, forms, expressions, assembly⟩
  simp only [build, fail] at h
  split at h
  · exact ⟨_, _, h⟩
  · simp at h

theorem cursor_of_deliver {start : Cursor} {type : ValueType} {c c' : Compiler}
    (h : deliver start type c = .next c') : c'.cursor = c.cursor := by
  unfold deliver at h
  split at h
  · obtain rfl := Step.next.inj h
    rfl
  · split at h
    · simp [fail] at h
    · obtain ⟨form, assembly, h⟩ := build_eq_next h
      obtain rfl := Step.next.inj h
      rfl

theorem readOperand_length_lt {c c' : Compiler} (h : readOperand c = .next c') :
    c'.cursor.rest.length < c.cursor.rest.length := by
  rcases c with ⟨start, forms, expressions, assembly⟩
  simp only [readOperand] at h
  split at h
  · simp at h
  · rename_i hread
    obtain ⟨form, assembly, h⟩ := build_eq_next h
    obtain rfl := Step.next.inj h
    exact Lexeme.read_length_lt hread
  · rename_i hread
    obtain ⟨_, assembly, h⟩ := build_eq_next h
    rw [cursor_of_deliver h]
    exact Lexeme.read_length_lt hread
  · rename_i hread
    obtain ⟨_, assembly, h⟩ := build_eq_next h
    rw [cursor_of_deliver h]
    exact Lexeme.read_length_lt hread

/-- A step that does not stop has consumed a character. -/
theorem step_length_lt {c c' : Compiler} (h : step c = .next c') :
    c'.cursor.rest.length < c.cursor.rest.length := by
  rcases c with ⟨cursor, forms, expressions, assembly⟩
  have hle := cursor.skipLayout_length_le
  simp only [step] at h
  split at h
  · simp at h
  · simp [fail] at h
  · simp [fail] at h
  · rename_i hrest
    obtain ⟨type, assembly, h⟩ := build_eq_next h
    rw [cursor_of_deliver h]
    have hadvance := cursor.skipLayout.advance_length
    have hpos : 0 < cursor.skipLayout.rest.length := by simp [hrest]
    simp only
    omega
  · obtain ⟨_, assembly, h⟩ := build_eq_next h
    have hlt := readOperand_length_lt h
    simp only at hlt ⊢
    omega

/-- Compiles to the end of the text or to the first error. -/
def run (c : Compiler) : Except Error Unit × Compiler :=
  match _h : step c with
  | .stop result c => (result, c)
  | .next c => run c
termination_by c.cursor.rest.length
decreasing_by exact step_length_lt _h

/-- Ends the code of a source text that has been read to its end. -/
def finish (expressions : Nat) : Build Program := do
  Build.emit .ret 0
  let ⟨pool, body, _, _⟩ ← get
  Build.note (.compiled expressions body.instructions.size body.peak pool.size)
  return ⟨pool, body⟩

/-- Compiles a source text. The state of the build is also given on failure. -/
def compile (source : List Char) : Except Error Program × Assembly :=
  match run { cursor := Cursor.ofText source } with
  | (.ok (), c) => finish c.expressions c.assembly
  | (.error e, c) => (.error e, c.assembly)

end Compiler

/-- Compiles a source text. -/
def compile (source : String) : Except Error Program :=
  (Compiler.compile source.toList).1

end JvmLisp
