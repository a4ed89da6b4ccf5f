import JvmLisp.Proofs.Pool.Refusal
import JvmLisp.Proofs.Program.Nesting
import JvmLisp.Proofs.Program.Verification
import JvmLisp.Proofs.Source.Fault

/-! # Safety

Whatever the source text, the stack is at every step as the open forms need it, so that no
instruction is ever appended to a body that is too shallow for it. The compiler stops with an error
only over the text itself or over a constant, and never over a defect of its own.

The invariant has to hold of texts that are refused in the end, which spell no trees. So it is
carried from step to step: below what the innermost form holds stands what each outer form holds,
with what it has emitted before the operand that is being read.
-/

namespace JvmLisp

open Jvm (FieldType absorb)
open Source (Cursor Lexeme Solid)

namespace Cause

/-- What a text is refused for as it is read. -/
def OfText : Cause → Prop
  | malformed fault => fault.message ≠ "unexpected end of input" ∧
      fault.message ≠ "expected a literal, found ``"
  | mismatch expected actual => expected = .long ∧ (actual = .text ∨ actual = .void)
  | unprintable actual => actual = .void
  | _ => False

/-- What a constant is refused for. -/
def OfConstant : Cause → Prop
  | unencodable _ | limit .poolSize | limit (.textLength _) => True
  | _ => False

end Cause

theorem Jvm.Item.check_error {x : Jvm.Item} {err : Error} (h : x.check = .error err) :
    err.cause.OfConstant := by
  cases x with
  | utf8 text =>
    simp only [check, Jvm.Pool.checkText] at h
    split at h
    · obtain rfl := Except.error.inj h
      trivial
    · split at h
      · cases h
      · obtain rfl := Except.error.inj h
        trivial
  | _ => cases h

theorem Jvm.absorb_error {xs held : List Jvm.Item} {err : Error}
    (h : (absorb xs held).1 = .error err) : err.cause.OfConstant := by
  obtain hfull | ⟨x, -, hcheck⟩ := Jvm.absorb_eq_error h
  · rw [hfull]
    trivial
  · exact Jvm.Item.check_error hcheck

/-! ### Performing on a stack -/

namespace Emission

/-- A bound on how far emissions raise the stack above where it was. -/
def rise (es : List Emission) : Nat :=
  (es.map fun e => e.effect.toNat).sum

@[simp] theorem rise_nil : rise [] = 0 := rfl

@[simp] theorem rise_cons (e : Emission) (es : List Emission) :
    rise (e :: es) = e.effect.toNat + rise es := by
  simp [rise]

@[simp] theorem rise_append (es es' : List Emission) : rise (es ++ es') = rise es + rise es' := by
  simp [rise]

theorem words_le_of_verifyAll {es : List Emission} {stack stack' : List FieldType}
    (h : verifyAll es stack = some stack') : Jvm.words stack' ≤ Jvm.words stack + rise es := by
  have hdepth : depth es ≤ rise es := by
    clear h
    induction es with
    | nil => simp
    | cons e es ih =>
      rw [depth_cons, rise_cons]
      omega
  have hwords := words_of_verifyAll h
  omega

end Emission

namespace Build

/-- Of these emissions, every instruction that is reached is appended. -/
def AppendsAll : List Emission → Assembly → Prop
  | [], _ => True
  | e :: es, a => ∀ i a₁, locate e.operation a = (.ok i, a₁) →
      ∃ a₂, emit (e.operation.instruction i) e.effect a₁ = (.ok (), a₂) ∧ AppendsAll es a₂

end Build

/-- The depth of the body is that of a stack of types. -/
structure Assembly.Stacks (a : Assembly) (stack : List FieldType) : Prop where
  valid : a.pool.Valid
  depth : a.body.depth = Jvm.words stack

/-- Performing has left a stack, or a constant was refused. -/
def Assembly.Yields (stack : List FieldType) : Except Error Unit × Assembly → Prop
  | (.ok _, a) => a.Stacks stack
  | (.error err, _) => err.cause.OfConstant

namespace Assembly

variable {a : Assembly} {e : Emission} {es : List Emission} {stack stack' : List FieldType}

theorem stacks_empty : ({} : Assembly).Stacks [] where
  valid := Jvm.Pool.valid_empty
  depth := rfl

theorem Stacks.locate (h : a.Stacks stack) (e : Emission) :
    (∃ err a₁, Build.locate e.operation a = (.error err, a₁) ∧ err.cause.OfConstant) ∨
      ∃ i a₁, Build.locate e.operation a = (.ok i, a₁) ∧ a₁.Stacks stack := by
  obtain ⟨result, a₁, hlocate, hvalid, -, habsorb, hbody, -⟩ := Build.locate_apply h.valid e
  cases result with
  | error err => exact .inl ⟨err, a₁, hlocate, Jvm.absorb_error (congrArg Prod.fst habsorb)⟩
  | ok i => exact .inr ⟨i, a₁, hlocate, hvalid, by rw [hbody, h.depth]⟩

/-- An instruction is appended if the stack that verification finds behind it is in the bounds. -/
theorem Stacks.emit (h : a.Stacks stack) (hverify : e.verify stack = some stack')
    (hroom : Jvm.words stack' < Jvm.Body.depthBound) (i : Jvm.Instruction) :
    ∃ a₁, Build.emit i e.effect a = (.ok (), a₁) ∧ a₁.Stacks stack' := by
  have hwords : (Jvm.words stack' : Int) = a.body.depth + e.effect := by
    rw [h.depth]
    exact (Emission.verify_eq_some.1 hverify).2
  obtain ⟨a₁, hemit, hpool, hbody, -⟩ := Build.emit_apply i e.effect a (by omega)
  refine ⟨a₁, hemit, hpool ▸ h.valid, ?_⟩
  rw [hbody, ← hwords]
  rfl

theorem Stacks.performAll (h : a.Stacks stack)
    (hverify : Emission.verifyAll es stack = some stack')
    (hroom : Jvm.words stack + Emission.rise es < Jvm.Body.depthBound) :
    Build.AppendsAll es a ∧ Yields stack' (Build.performAll es a) := by
  induction es generalizing a stack with
  | nil =>
    cases hverify
    exact ⟨trivial, h⟩
  | cons e es ih =>
    rw [Emission.verifyAll_cons, Option.bind_eq_some_iff] at hverify
    obtain ⟨stack₁, he, hes⟩ := hverify
    have hwords := (Emission.verify_eq_some.1 he).2
    rw [Emission.rise_cons] at hroom
    rcases h.locate e with ⟨err, a₁, hlocate, herr⟩ | ⟨i, a₁, hlocate, h₁⟩
    · constructor
      · intro i a₂ h₂
        cases hlocate.symm.trans h₂
      · simpa [Build.performAll, Build.perform, Jvm.bind_apply, hlocate, Yields] using herr
    · obtain ⟨a₂, hemit, h₂⟩ := h₁.emit he (by omega) (e.operation.instruction i)
      obtain ⟨happends, hyields⟩ := ih h₂ hes (by omega)
      constructor
      · intro j a' hlocate'
        cases hlocate.symm.trans hlocate'
        exact ⟨a₂, hemit, happends⟩
      · simpa [Build.performAll, Build.perform, Jvm.bind_apply, hlocate, hemit] using hyields

end Assembly

/-! ### What open forms hold -/

open Emission (verifyAll)

namespace Form

def held : Form → List FieldType
  | print => Operator.print.held 0
  | add n => Operator.add.held n

@[simp] theorem held_of (op : Operator) (n : Nat) : (of op n).held = op.held n := by
  cases op <;> rfl

/-- What open forms hold while an operand of the innermost is read. -/
def heldAround : List Form → List FieldType
  | [] => []
  | f :: outer => f.operator.pending ++ (f.held ++ heldAround outer)

/-- What open forms hold between two operands of the innermost. -/
def heldBy : List Form → List FieldType
  | [] => []
  | f :: outer => f.held ++ heldAround outer

theorem verify_before (f : Form) (stack : List FieldType) :
    verifyAll f.operator.before (f.held ++ stack) =
      some (f.operator.pending ++ (f.held ++ stack)) := by
  obtain ⟨op, n, rfl⟩ := f.exists_eq_of
  simpa using op.verify_before n stack

theorem verify_after {f : Form} {type : ValueType} (h : f.operator.Takes type)
    (stack : List FieldType) :
    verifyAll (f.operator.after type) (type.stack ++ (f.operator.pending ++ (f.held ++ stack))) =
      some (f.next.held ++ stack) := by
  obtain ⟨op, n, rfl⟩ := f.exists_eq_of
  rw [operator_of] at h
  simpa using Operator.verify_after h n stack

theorem verify_closes (f : Form) (stack : List FieldType) :
    verifyAll f.closes (f.held ++ stack) = some (f.operator.type.stack ++ stack) := by
  obtain ⟨op, n, rfl⟩ := f.exists_eq_of
  simpa using op.verify_closes n stack

theorem verify_beforeIn (forms : List Form) (base : List FieldType) :
    verifyAll (Operator.beforeIn forms) (heldBy forms ++ base) =
      some (heldAround forms ++ base) := by
  cases forms with
  | nil => rfl
  | cons f outer =>
    rw [heldBy, heldAround, List.append_assoc, List.append_assoc, List.append_assoc]
    exact f.verify_before _

theorem rise_beforeIn (forms : List Form) : Emission.rise (Operator.beforeIn forms) ≤ 1 := by
  rcases forms with _ | ⟨_ | _, _⟩ <;> simp [Operator.beforeIn, operator, Operator.before]

theorem rise_closes (f : Form) : Emission.rise f.closes ≤ 2 := by
  match f with
  | print | add 0 => decide
  | add (n + 1) => simp [closes, Operator.closes, Emission.rise]

end Form

open Form (heldAround heldBy)

namespace Compiler

/-! ### Steps -/

def Step.assembly : Step → Assembly
  | next c | stop _ c => c.assembly

/-- A step performs emissions, and nothing else is built in it. If one of them fails, so does the
step; otherwise it may refuse the text. -/
structure Step.Performs (s : Step) (es : List Emission) (a : Assembly) : Prop where
  assembly : s.assembly = (Build.performAll es a).2
  fails : ∀ err, (Build.performAll es a).1 = .error err →
    ∃ e c, s = .stop (.error e) c ∧ e.cause = err.cause
  refuses : (Build.performAll es a).1 = .ok () →
    ∀ e c, s = .stop (.error e) c → e.cause.OfText

/-- What a step performs can be verified from a stack, raises it by no more than `n` words, and
leaves what the forms hold that are open after it. -/
def Step.Keeps (s : Step) (a : Assembly) (stack : List FieldType) (n : Nat) : Prop :=
  ∃ es stack', s.Performs es a ∧ verifyAll es stack = some stack' ∧ Emission.rise es ≤ n ∧
    ∀ c, s = .next c → heldBy (c.forms.map OpenForm.form) <+: stack'

variable {α : Type} {start : Cursor} {opened : List OpenForm} {k m n : Nat} {a : Assembly}
  {stack stack' base : List FieldType}

theorem keeps_next {c : Compiler} (h : heldBy (c.forms.map OpenForm.form) <+: stack) :
    (Step.next c).Keeps c.assembly stack n := by
  refine ⟨[], stack, ⟨rfl, ?_, ?_⟩, rfl, Nat.zero_le n, ?_⟩
  · intro err herr
    cases herr
  · intro _ e c' hstop
    cases hstop
  · intro c' hnext
    obtain rfl := Step.next.inj hnext
    exact h

theorem keeps_stop {c : Compiler} {result : Except Error Unit}
    (h : ∀ e, result = .error e → e.cause.OfText) :
    (Step.stop result c).Keeps c.assembly stack n := by
  refine ⟨[], stack, ⟨rfl, ?_, ?_⟩, rfl, Nat.zero_le n, ?_⟩
  · intro err herr
    cases herr
  · intro _ e c' hstop
    exact h e (Step.stop.inj hstop).1
  · intro c' hnext
    cases hnext

theorem keeps_fail {c : Compiler} {mark : Cursor} {cause : Cause} (h : cause.OfText) :
    (fail c mark cause).Keeps c.assembly stack n := by
  apply keeps_stop
  intro e he
  obtain rfl := Except.error.inj he
  exact h

/-- A build step that performs emissions is followed by what is performed after it. -/
theorem keeps_build {mark : Cursor} {action : Build α} {next : α → Compiler → Step} {x : α}
    {es : List Emission} (haction : action = do Build.performAll es; return x)
    (hverify : verifyAll es stack = some stack')
    (hnext : ∀ a₁, (next x ⟨start, opened, k, a₁⟩).Keeps a₁ stack' m)
    (hrise : Emission.rise es + m ≤ n) :
    (build mark action next ⟨start, opened, k, a⟩).Keeps a stack n := by
  subst haction
  rcases hes : Build.performAll es a with ⟨err | _, a₁⟩
  · simp only [build, Jvm.bind_apply, hes]
    refine ⟨es, stack', ⟨?_, ?_, ?_⟩, hverify, by omega, ?_⟩
    · rw [hes]
      rfl
    · intro err' herr
      rw [hes] at herr
      obtain rfl := Except.error.inj herr
      exact ⟨_, _, rfl, rfl⟩
    · intro hok
      rw [hes] at hok
      cases hok
    · intro c hc
      cases hc
  · obtain ⟨es', stack₁, hperforms, hverify', hrise', hheld⟩ := hnext a₁
    have happend : Build.performAll (es ++ es') a = Build.performAll es' a₁ := by
      rw [Build.performAll_append, Jvm.bind_apply, hes]
    have hbuild : build mark (do Build.performAll es; return x) next ⟨start, opened, k, a⟩ =
        next x ⟨start, opened, k, a₁⟩ := by
      simp only [build, Jvm.bind_apply, hes]
      rfl
    rw [hbuild]
    refine ⟨es ++ es', stack₁, ?_, ?_, ?_, hheld⟩
    · obtain ⟨hassembly, hfails, hrefuses⟩ := hperforms
      rw [← happend] at hassembly hfails hrefuses
      exact ⟨hassembly, hfails, hrefuses⟩
    · rw [Emission.verifyAll_append, hverify, Option.bind_some, hverify']
    · rw [Emission.rise_append]
      omega

theorem keeps_performAll {mark : Cursor} {next : Unit → Compiler → Step} {es : List Emission}
    (hverify : verifyAll es stack = some stack')
    (hnext : ∀ a₁, (next () ⟨start, opened, k, a₁⟩).Keeps a₁ stack' m)
    (hrise : Emission.rise es + m ≤ n) :
    (build mark (Build.performAll es) next ⟨start, opened, k, a⟩).Keeps a stack n :=
  keeps_build (bind_pure (Build.performAll es)).symm hverify hnext hrise

theorem takeOperand_refuses {f : Form} {type : ValueType} {cause : Cause}
    (h : f.takeOperand type = .error cause) : cause.OfText := by
  match f, type with
  | .print, .void | .add n, .void | .add n, .text =>
    obtain rfl := Except.error.inj h
    simp [Cause.OfText]
  | .print, .text | .print, .long | .add n, .long => cases h

theorem keeps_deliver (mark : Cursor) (type : ValueType) :
    (deliver mark type ⟨start, opened, k, a⟩).Keeps a
      (type.stack ++ (heldAround (opened.map OpenForm.form) ++ base)) 0 := by
  cases opened with
  | nil => exact keeps_next List.nil_prefix
  | cons innermost outer =>
    rcases innermost with ⟨f, opening⟩
    rw [List.map_cons, heldAround, List.append_assoc, List.append_assoc, deliver]
    by_cases htakes : f.operator.Takes type
    · rw [Form.takeOperand_eq htakes]
      have hrise : Emission.rise (f.operator.after type) + 0 ≤ 0 := by
        cases f <;> cases type <;> simp [Form.operator, Operator.after, Emission.call]
      refine keeps_build rfl (Form.verify_after htakes _) (fun a₁ => keeps_next ?_) hrise
      rw [List.map_cons, heldBy, ← List.append_assoc]
      exact List.prefix_append _ base
    · obtain ⟨cause, hcause⟩ := Form.takeOperand_error htakes
      rw [hcause]
      exact keeps_fail (takeOperand_refuses hcause)

theorem keeps_load {e : Emission} {type : ValueType} {mark mark' : Cursor}
    (hverify : ∀ stack, e.verify stack = some (type.stack ++ stack)) (hrise : e.effect ≤ 2) :
    (build mark (Build.performAll [e]) (fun _ => deliver mark' type)
      ⟨start, opened, k, a⟩).Keeps a (heldAround (opened.map OpenForm.form) ++ base) 2 := by
  have hload : verifyAll [e] (heldAround (opened.map OpenForm.form) ++ base) =
      some (type.stack ++ (heldAround (opened.map OpenForm.form) ++ base)) := by
    rw [Emission.verifyAll_cons, hverify]
    rfl
  exact keeps_performAll hload (fun _ => keeps_deliver mark' type) (by simpa using hrise)

theorem keeps_readOperand {c : Char} {s : List Char} (hrest : start.rest = c :: s)
    (hsolid : Solid start.rest) (hc : c ≠ ')') :
    (readOperand ⟨start, opened, k, a⟩).Keeps a
      (heldAround (opened.map OpenForm.form) ++ base) 2 := by
  rcases hread : Lexeme.read start with ⟨e | ⟨op⟩ | ⟨content⟩ | ⟨value⟩, cursor⟩
  · have hfaults := Lexeme.onlyReadable_read hrest hsolid hc
    rw [hread] at hfaults
    obtain ⟨fault, hfault, hcause⟩ := hfaults e rfl
    simp only [readOperand, hread]
    apply keeps_stop
    intro e' he
    obtain rfl := Except.error.inj he
    rw [hcause]
    exact hfault.message_ne
  · have hrise : Emission.rise op.opens + 0 ≤ 2 := by cases op <;> decide
    simp only [readOperand, hread]
    refine keeps_build (Form.start_eq op) (op.verify_opens _) (fun a₁ => keeps_next ?_) hrise
    rw [List.map_cons, heldBy, Form.held_of, ← List.append_assoc]
    exact List.prefix_append _ base
  · simp only [readOperand, hread, Form.pushText_eq]
    exact keeps_load (Emission.verify_loadText content) (by simp)
  · simp only [readOperand, hread, Form.pushLong_eq]
    exact keeps_load (Emission.verify_loadLong value) le_rfl

/-- In a step the stack is raised by three words at most: a copy of the output stream and an
integer. -/
theorem keeps_step (c : Compiler) (h : heldBy (c.forms.map OpenForm.form) <+: stack) :
    (step c).Keeps c.assembly stack 3 := by
  rcases c with ⟨start, opened, k, a⟩
  obtain ⟨base, rfl⟩ := h
  rcases hrest : start.skipLayout.rest with _ | ⟨c, s⟩
  · cases opened with
    | nil =>
      simp only [step, hrest]
      exact keeps_stop (by simp)
    | cons innermost outer =>
      have hfault : Malformed.unclosedForm.Readable := trivial
      simp only [step, hrest]
      exact keeps_fail hfault.message_ne
  · by_cases hc : c = ')'
    · subst hc
      cases opened with
      | nil =>
        have hfault : Malformed.strayClose.Readable := trivial
        simp only [step, hrest]
        exact keeps_fail hfault.message_ne
      | cons innermost outer =>
        rcases innermost with ⟨f, opening⟩
        have hrise := f.rise_closes
        simp only [step, hrest, List.map_cons, heldBy, List.append_assoc]
        exact keeps_build f.finish_eq (f.verify_closes _) (fun _ => keeps_deliver opening _)
          (by omega)
    · have hstep : step ⟨start, opened, k, a⟩ =
          build start.skipLayout (Build.performAll (Operator.beforeIn (opened.map OpenForm.form)))
            (fun _ => readOperand) ⟨start.skipLayout, opened, k, a⟩ := by
        rw [← beginOperand_eq]
        simp only [step, hrest]
        split <;> simp_all
      have hrise := Form.rise_beforeIn (opened.map OpenForm.form)
      rw [hstep]
      exact keeps_performAll (Form.verify_beforeIn _ base)
        (fun _ => keeps_readOperand hrest start.solid_skipLayout hc) (by omega)

/-! ### Runs -/

/-- The states that the compiler goes through. -/
def Visits (source : List Char) : Compiler → Prop :=
  Relation.ReflTransGen (fun c c' => step c = .next c') { cursor := Cursor.ofText source }

/-- The stack holds what the open forms need, and each character that was read has raised it by
three words at most. -/
def Balanced (source : List Char) (c : Compiler) : Prop :=
  ∃ stack, c.assembly.Stacks stack ∧ heldBy (c.forms.map OpenForm.form) <+: stack ∧
    Jvm.words stack + 3 * c.cursor.rest.length ≤ 3 * source.length

variable {source : List Char} {c c' : Compiler}

theorem lt_depthBound {w : Nat} (hlength : source.length < 2 ^ 32)
    (hw : w ≤ 3 * source.length + 3) : w < Jvm.Body.depthBound := by
  simp only [Jvm.Body.depthBound, UInt64.size]
  omega

/-- Every instruction of a step is appended. If not all of them are reached, a constant was refused.
-/
theorem Balanced.performs (h : Balanced source c) (hlength : source.length < 2 ^ 32) :
    ∃ es stack', (step c).Performs es c.assembly ∧ Build.AppendsAll es c.assembly ∧
      Assembly.Yields stack' (Build.performAll es c.assembly) ∧
      Jvm.words stack' + 3 * c.cursor.rest.length ≤ 3 * source.length + 3 ∧
      ∀ c', step c = .next c' → heldBy (c'.forms.map OpenForm.form) <+: stack' := by
  obtain ⟨stack, hstacks, hheld, hwords⟩ := h
  obtain ⟨es, stack', hperforms, hverify, hrise, hnext⟩ := keeps_step c hheld
  have hroom : Jvm.words stack + Emission.rise es < Jvm.Body.depthBound :=
    lt_depthBound hlength (by omega)
  obtain ⟨happends, hyields⟩ := hstacks.performAll hverify hroom
  have hle := Emission.words_le_of_verifyAll hverify
  exact ⟨es, stack', hperforms, happends, hyields, by omega, hnext⟩

theorem Balanced.next (h : Balanced source c) (hlength : source.length < 2 ^ 32)
    (hstep : step c = .next c') : Balanced source c' := by
  obtain ⟨es, stack', hperforms, -, hyields, hwords, hnext⟩ := h.performs hlength
  have hlt := step_length_lt hstep
  have hassembly := hperforms.assembly
  rcases hes : Build.performAll es c.assembly with ⟨err | _, a⟩
  · obtain ⟨e, c₁, hstop, -⟩ := hperforms.fails err (by rw [hes])
    cases hstep.symm.trans hstop
  · rw [hes, hstep] at hassembly
    rw [hes] at hyields
    obtain rfl : c'.assembly = a := hassembly
    exact ⟨stack', hyields, hnext c' hstep, by omega⟩

theorem Visits.balanced (h : Visits source c) (hlength : source.length < 2 ^ 32) :
    Balanced source c := by
  induction h with
  | refl => exact ⟨[], Assembly.stacks_empty, List.nil_prefix, by simp [Cursor.ofText]⟩
  | tail _ hstep ih => exact ih.next hlength hstep

/-- A run ends with the last step of the states that it goes through. -/
theorem exists_visits_stop (source : List Char) :
    ∃ c, Visits source c ∧ step c = .stop (run { cursor := Cursor.ofText source }).1
      (run { cursor := Cursor.ofText source }).2 := by
  have hrun (c : Compiler) (h : Visits source c) :
      ∃ c₁, Visits source c₁ ∧ step c₁ = .stop (run c).1 (run c).2 := by
    induction c using run.induct with
    | case1 c result c₁ hstep => exact ⟨c, h, by rw [run_of_stop hstep, hstep]⟩
    | case2 c c₁ hstep ih =>
      rw [run_of_next hstep]
      exact ih (h.tail hstep)
  exact hrun _ .refl

theorem Balanced.cause (h : Balanced source c) (hlength : source.length < 2 ^ 32) {e : Error}
    (hstep : step c = .stop (.error e) c') : e.cause.OfText ∨ e.cause.OfConstant := by
  obtain ⟨es, stack', hperforms, -, hyields, -⟩ := h.performs hlength
  rcases hes : Build.performAll es c.assembly with ⟨err | _, a⟩
  · obtain ⟨e', c₁, hstop, hcause⟩ := hperforms.fails err (by rw [hes])
    cases hstep.symm.trans hstop
    rw [hes] at hyields
    exact .inr (hcause ▸ hyields)
  · exact .inl (hperforms.refuses (by rw [hes]) e c' hstep)

/-- A run that gets to the end can append the return. -/
theorem exists_emit_ret (hlength : source.length < 2 ^ 32)
    (hrun : run { cursor := Cursor.ofText source } = (.ok (), c)) :
    ∃ a, Build.emit .ret 0 c.assembly = (.ok (), a) := by
  obtain ⟨c₁, hvisits, hstop⟩ := exists_visits_stop source
  rw [hrun] at hstop
  obtain ⟨-, -, hassembly⟩ := step_stops.1 ⟨c, hstop, rfl⟩
  obtain ⟨stack, hstacks, -, hwords⟩ := hvisits.balanced hlength
  obtain ⟨a, ha, -⟩ := hstacks.emit (Emission.verify_ret stack)
    (lt_depthBound hlength (by omega)) .ret
  rw [← hassembly]
  exact ⟨a, ha⟩

/-- No source text reaches a defect. In all states that the compiler goes through, every instruction
of the step is appended, and so is the return at the end; the errors that are left are those of the
text and those of its constants. The loop over expressions, which has an error for a text that ends
where an expression is due, does the same and so never gives this error. -/
theorem compile_safe (hlength : source.length < 2 ^ 32) :
    (∀ c, Visits source c →
      ∃ es, (step c).Performs es c.assembly ∧ Build.AppendsAll es c.assembly) ∧
    (∀ c, run { cursor := Cursor.ofText source } = (.ok (), c) →
      ∃ a, Build.emit .ret 0 c.assembly = (.ok (), a)) ∧
    (∀ e, (compile source).1 = .error e → e.cause.OfText ∨ e.cause.OfConstant) ∧
    runExpressions { cursor := Cursor.ofText source } =
      run { cursor := Cursor.ofText source } := by
  refine ⟨?_, fun c => exists_emit_ret hlength, ?_, runExpressions_eq_run rfl⟩
  · intro c hc
    obtain ⟨es, -, hperforms, happends, -⟩ := (hc.balanced hlength).performs hlength
    exact ⟨es, hperforms, happends⟩
  · intro e he
    obtain ⟨c₁, hvisits, hstop⟩ := exists_visits_stop source
    rcases hrun : run { cursor := Cursor.ofText source } with ⟨err | _, c⟩
    · rw [compile, hrun] at he
      rw [hrun] at hstop
      obtain rfl := Except.error.inj he
      exact (hvisits.balanced hlength).cause hlength hstop
    · obtain ⟨a, ha⟩ := exists_emit_ret hlength hrun
      have hret : Build.perform ⟨.ret, 0⟩ c.assembly = (.ok (), a) := by
        rw [Build.perform_eq_emit rfl]
        exact ha
      rw [compile_eq_ok.2 ⟨c, hrun, finish_eq_ok.2 ⟨a, hret, rfl, rfl⟩⟩] at he
      cases he

/-- A sum with a text among its operands. -/
theorem spelled_sum_of_text :
    SpelledProgram [.form .add [.integer 1, .text "a"]] "(+ 1 \"a\")".toList := by
  apply spelledProgram_iff.2
  refine ⟨[], ?_, .done []⟩
  apply Source.Scan.of_read rfl
  apply Source.Scan.of_read rfl
  apply Source.Scan.of_read rfl
  apply Source.Scan.of_closing rfl
  exact .nil []

theorem compile_safe_sum_of_text :
    "(+ 1 \"a\")".toList.length < 2 ^ 32 ∧ ∃ e, (compile "(+ 1 \"a\")".toList).1 = .error e ∧
      (e.cause.OfText ∨ e.cause.OfConstant) := by
  have hlength : "(+ 1 \"a\")".toList.length < 2 ^ 32 := by decide
  refine ⟨hlength, ?_⟩
  rcases hcompile : compile "(+ 1 \"a\")".toList with ⟨e | p, a⟩
  · exact ⟨e, rfl, (compile_safe hlength).2.2.1 e (by rw [hcompile])⟩
  · obtain ⟨-, es, hspelled, htyped, -⟩ := compile_sound hcompile
    obtain rfl := hspelled.unique spelled_sum_of_text
    rcases htyped _ (List.mem_singleton_self _) with _ | _ | ⟨-, htakes⟩
    have htakes : Operator.add.Takes .text := htakes (.text "a") (by simp)
    cases htakes

end Compiler

end JvmLisp
