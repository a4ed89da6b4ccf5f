import JvmLisp.Proofs.Program.Emission
import JvmLisp.Proofs.Source.Expression

/-! # Translation

The emissions of an expression tree, and the same emissions as they come up when the tokens of the
tree are taken one by one, with a stack of open forms. Taking the tokens of a list of trees to the
end succeeds exactly if the trees are well typed, and gives their emissions; no other tokens can be
taken to the end.
-/

namespace JvmLisp

open Source (Token)

/-- A call of a method of the output stream. -/
def Emission.call (name descriptor : String) (effect : Int) : Emission :=
  ⟨.invokevirtual "java/io/PrintStream" name descriptor, effect⟩

namespace Operator

def type : Operator → ValueType
  | print => .void
  | add => .long

/-- Whether the operator has operands of the type. -/
def Takes : Operator → ValueType → Prop
  | print, type => type ≠ .void
  | add, type => type = .long

instance (op : Operator) (type : ValueType) : Decidable (op.Takes type) :=
  match op with
  | print => inferInstanceAs (Decidable (type ≠ .void))
  | add => inferInstanceAs (Decidable (type = .long))

def opens : Operator → List Emission
  | print => [⟨.getstatic "java/lang/System" "out" "Ljava/io/PrintStream;", 1⟩]
  | add => []

/-- Before each operand. -/
def before : Operator → List Emission
  | print => [⟨.dup, 1⟩]
  | add => []

/-- After each operand, by its type. -/
def after : Operator → ValueType → List Emission
  | print, .text => [.call "print" "(Ljava/lang/String;)V" (-2)]
  | print, .long => [.call "print" "(J)V" (-3)]
  | _, _ => []

/-- After all operands, by their number. -/
def closes : Operator → Nat → List Emission
  | print, _ => [.call "println" "()V" (-1)]
  | add, 0 => [⟨.loadLong 0, 2⟩]
  | add, n + 1 => List.replicate n ⟨.ladd, -2⟩

end Operator

namespace Expr

def type : Expr → ValueType
  | text _ => .text
  | integer _ => .long
  | form op _ => op.type

inductive WellTyped : Expr → Prop
  | text (content : String) : WellTyped (.text content)
  | integer (value : Int64) : WellTyped (.integer value)
  | form {op : Operator} {es : List Expr} (operands : ∀ e ∈ es, WellTyped e)
      (takes : ∀ e ∈ es, op.Takes e.type) : WellTyped (.form op es)

mutual

def emissions : Expr → List Emission
  | text content => [⟨.loadText content, 1⟩]
  | integer value => [⟨.loadLong value, 2⟩]
  | form op operands => op.opens ++ (emissionsOfAll op operands ++ op.closes operands.length)

/-- The emissions of the operands of an operator, with what comes before and after each. -/
def emissionsOfAll (op : Operator) : List Expr → List Emission
  | [] => []
  | e :: es => op.before ++ (e.emissions ++ op.after e.type) ++ emissionsOfAll op es

end

mutual

/-- The texts in a tree. -/
def literals : Expr → List String
  | text content => [content]
  | integer _ => []
  | form _ operands => literalsOfAll operands

def literalsOfAll : List Expr → List String
  | [] => []
  | e :: es => e.literals ++ literalsOfAll es

end

end Expr

/-- The emissions that do not come from a literal. -/
def Operator.emissions : List Emission :=
  [⟨.getstatic "java/lang/System" "out" "Ljava/io/PrintStream;", 1⟩, ⟨.dup, 1⟩,
    .call "print" "(Ljava/lang/String;)V" (-2), .call "print" "(J)V" (-3),
    .call "println" "()V" (-1), ⟨.loadLong 0, 2⟩, ⟨.ladd, -2⟩]

namespace Operator

theorem opens_subset (op : Operator) : op.opens ⊆ emissions := by
  cases op <;> decide

theorem before_subset (op : Operator) : op.before ⊆ emissions := by
  cases op <;> decide

theorem after_subset (op : Operator) (type : ValueType) : op.after type ⊆ emissions := by
  cases op <;> cases type <;> decide

theorem closes_subset (op : Operator) (n : Nat) : op.closes n ⊆ emissions := by
  match op, n with
  | print, _ =>
    rw [closes]
    decide
  | add, 0 => decide
  | add, n + 1 =>
    intro x hx
    rw [List.eq_of_mem_replicate hx]
    decide

/-- The texts that do not come from a literal can be encoded. -/
theorem check_parts {es : List Emission} (h : es ⊆ emissions) :
    ∀ y ∈ es, ∀ x ∈ y.parts, x.check = .ok () := by
  have hall : ∀ y ∈ emissions, ∀ x ∈ y.parts, x.check = .ok () := by decide
  exact fun y hy => hall y (h hy)

end Operator

namespace Expr

variable {x : Emission}

theorem mem_emissionsOfAll {op : Operator} {es : List Expr} :
    x ∈ emissionsOfAll op es ↔ ∃ e ∈ es, x ∈ op.before ∨ x ∈ e.emissions ∨ x ∈ op.after e.type := by
  induction es with
  | nil => simp [emissionsOfAll]
  | cons e es ih => simp [emissionsOfAll, ih, or_assoc]

theorem mem_literalsOfAll {content : String} {es : List Expr} :
    content ∈ literalsOfAll es ↔ ∃ e ∈ es, content ∈ e.literals := by
  induction es with
  | nil => simp [literalsOfAll]
  | cons e es ih => simp [literalsOfAll, ih]

/-- Where an emission comes from. -/
theorem mem_emissions {e : Expr} (hx : x ∈ e.emissions) :
    (∃ content ∈ e.literals, x = ⟨.loadText content, 1⟩) ∨ (∃ value, x = ⟨.loadLong value, 2⟩) ∨
      x ∈ Operator.emissions := by
  induction e with
  | text content => exact .inl ⟨content, by simp [literals], List.mem_singleton.1 hx⟩
  | integer value => exact .inr (.inl ⟨value, List.mem_singleton.1 hx⟩)
  | form op es ih =>
    simp only [emissions, List.mem_append, mem_emissionsOfAll] at hx
    rcases hx with hx | ⟨e, he, hx | hx | hx⟩ | hx
    · exact .inr (.inr (op.opens_subset hx))
    · exact .inr (.inr (op.before_subset hx))
    · rcases ih e he hx with ⟨content, hcontent, rfl⟩ | h
      · exact .inl ⟨content, mem_literalsOfAll.2 ⟨e, he, hcontent⟩, rfl⟩
      · exact .inr h
    · exact .inr (.inr (op.after_subset _ hx))
    · exact .inr (.inr (op.closes_subset _ hx))

theorem loadText_mem_emissions {e : Expr} {content : String} (h : content ∈ e.literals) :
    ⟨.loadText content, 1⟩ ∈ e.emissions := by
  induction e with
  | text => simp_all [literals, emissions]
  | integer => simp [literals] at h
  | form op es ih =>
    obtain ⟨e, he, hcontent⟩ := mem_literalsOfAll.1 (by simpa [literals] using h)
    simp only [emissions, List.mem_append, mem_emissionsOfAll]
    exact .inr (.inl ⟨e, he, .inr (.inl (ih e he hcontent))⟩)

end Expr

/-! ### Taking tokens -/

namespace Form

/-- The form of an operator behind a number of operands. -/
def of : Operator → Nat → Form
  | .print, _ => print
  | .add, n => add n

theorem exists_eq_of (f : Form) : ∃ op n, f = of op n := by
  cases f with
  | print => exact ⟨.print, 0, rfl⟩
  | add n => exact ⟨.add, n, rfl⟩

def operator : Form → Operator
  | print => .print
  | add _ => .add

/-- The form behind one more operand. -/
def next : Form → Form
  | print => print
  | add n => add (n + 1)

def closes : Form → List Emission
  | print => Operator.print.closes 0
  | add n => Operator.add.closes n

@[simp] theorem operator_of (op : Operator) (n : Nat) : (of op n).operator = op := by
  cases op <;> rfl

@[simp] theorem next_of (op : Operator) (n : Nat) : (of op n).next = of op (n + 1) := by
  cases op <;> rfl

@[simp] theorem closes_of (op : Operator) (n : Nat) : (of op n).closes = op.closes n := by
  cases op <;> rfl

end Form

/-- What the innermost open form has emitted before an operand. -/
def Operator.beforeIn : List Form → List Emission
  | [] => []
  | f :: _ => f.operator.before

/-- Passes a value of a type to the innermost open form. -/
def ValueType.deliver (type : ValueType) : List Form → Option (List Emission × List Form)
  | [] => some ([], [])
  | f :: outer =>
    if f.operator.Takes type then some (f.operator.after type, f.next :: outer) else none

theorem ValueType.deliver_of {type : ValueType} {op : Operator} {n : Nat} {outer forms : List Form}
    {xs : List Emission} :
    type.deliver (.of op n :: outer) = some (xs, forms) ↔
      op.Takes type ∧ xs = op.after type ∧ forms = .of op (n + 1) :: outer := by
  simp [deliver, eq_comm]

theorem ValueType.deliver_length {type : ValueType} {forms : List Form}
    {p : List Emission × List Form} (h : type.deliver forms = some p) :
    p.2.length = forms.length := by
  cases forms with
  | nil =>
    cases h
    rfl
  | cons f outer =>
    obtain ⟨op, n, rfl⟩ := f.exists_eq_of
    obtain ⟨-, -, hforms⟩ := ValueType.deliver_of.1 h
    simp [hforms]

namespace Source

/-- What is emitted at a lexeme, and the forms that are open behind it. -/
def Lexeme.take : Lexeme → List Form → Option (List Emission × List Form)
  | opening op, forms => some (op.opens, .of op 0 :: forms)
  | text content, forms =>
    (ValueType.text.deliver forms).map fun (es, forms) => (⟨.loadText content, 1⟩ :: es, forms)
  | integer value, forms =>
    (ValueType.long.deliver forms).map fun (es, forms) => (⟨.loadLong value, 2⟩ :: es, forms)

namespace Token

def take : Token → List Form → Option (List Emission × List Form)
  | lexeme l, forms =>
    (l.take forms).map fun (es, forms') => (Operator.beforeIn forms ++ es, forms')
  | closing, [] => none
  | closing, f :: outer =>
    (f.operator.type.deliver outer).map fun (es, forms) => (f.closes ++ es, forms)

def takeAll : List Token → List Form → Option (List Emission × List Form)
  | [], forms => some ([], forms)
  | t :: ts, forms => do
    let (es, forms) ← t.take forms
    let (es', forms) ← takeAll ts forms
    some (es ++ es', forms)

variable {ts ts' : List Token} {forms forms' : List Form} {es : List Emission}

theorem takeAll_cons {t : Token} :
    takeAll (t :: ts) forms = some (es, forms') ↔ ∃ es₁ forms₁ es₂,
      t.take forms = some (es₁, forms₁) ∧ takeAll ts forms₁ = some (es₂, forms') ∧
      es₁ ++ es₂ = es := by
  simp [takeAll, Option.bind_eq_some_iff]

theorem takeAll_append :
    takeAll (ts ++ ts') forms = some (es, forms') ↔ ∃ es₁ forms₁ es₂,
      takeAll ts forms = some (es₁, forms₁) ∧ takeAll ts' forms₁ = some (es₂, forms') ∧
      es₁ ++ es₂ = es := by
  induction ts generalizing forms es with
  | nil => simp [takeAll]
  | cons t ts ih =>
    simp only [List.cons_append, takeAll_cons, ih]
    constructor
    · rintro ⟨es₁, forms₁, _, ht, ⟨es₂, forms₂, es₃, hts, hts', rfl⟩, rfl⟩
      exact ⟨_, forms₂, es₃, ⟨es₁, forms₁, es₂, ht, hts, rfl⟩, hts', List.append_assoc ..⟩
    · rintro ⟨_, forms₂, es₃, ⟨es₁, forms₁, es₂, ht, hts, rfl⟩, hts', rfl⟩
      exact ⟨es₁, forms₁, _, ht, ⟨es₂, forms₂, es₃, hts, hts', rfl⟩, (List.append_assoc ..).symm⟩

theorem takeAll_closing {op : Operator} {n : Nat} {outer : List Form} :
    takeAll [closing] (.of op n :: outer) = some (es, forms) ↔ ∃ es₁,
      op.type.deliver outer = some (es₁, forms) ∧ op.closes n ++ es₁ = es := by
  simp [takeAll, take]

end Token

end Source

namespace Expr

open Source.Token (takeAll takeAll_append takeAll_closing takeAll_cons)

variable {es : List Expr} {xs : List Emission} {forms forms' : List Form}

/-- The tokens of a tree can be taken exactly if the tree is well typed and its type is delivered.
-/
def Taken (e : Expr) : Prop :=
  ∀ forms forms' xs, takeAll e.tokens forms = some (xs, forms') ↔ e.WellTyped ∧
    ∃ ys, e.type.deliver forms = some (ys, forms') ∧
      Operator.beforeIn forms ++ (e.emissions ++ ys) = xs

/-- In a form, the trees are operands. -/
theorem takeAll_operands {op : Operator} {n : Nat} {outer : List Form}
    (hall : ∀ e ∈ es, e.Taken) :
    takeAll (tokensOfAll es) (.of op n :: outer) = some (xs, forms') ↔
      (∀ e ∈ es, e.WellTyped ∧ op.Takes e.type) ∧ forms' = .of op (n + es.length) :: outer ∧
        xs = emissionsOfAll op es := by
  induction es generalizing n xs with
  | nil => simp [tokensOfAll, takeAll, emissionsOfAll, eq_comm, and_comm]
  | cons e es ih =>
    have hes := fun e he => hall e (List.mem_cons_of_mem _ he)
    have hlength : n + (e :: es).length = n + 1 + es.length := by
      simp only [List.length_cons]
      omega
    rw [tokensOfAll, takeAll_append, hlength, emissionsOfAll, List.forall_mem_cons]
    constructor
    · rintro ⟨_, _, _, h, h', rfl⟩
      obtain ⟨htyped, _, hdeliver, rfl⟩ := (hall e (by simp) _ _ _).1 h
      obtain ⟨htakes, rfl, rfl⟩ := ValueType.deliver_of.1 hdeliver
      obtain ⟨hall', rfl, rfl⟩ := (ih hes).1 h'
      exact ⟨⟨⟨htyped, htakes⟩, hall'⟩, rfl, by simp [Operator.beforeIn]⟩
    · rintro ⟨⟨⟨htyped, htakes⟩, hall'⟩, rfl, rfl⟩
      have hdeliver : e.type.deliver (.of op n :: outer) = _ :=
        ValueType.deliver_of.2 ⟨htakes, rfl, rfl⟩
      exact ⟨_, _, _, (hall e (by simp) _ _ _).2 ⟨htyped, _, hdeliver, rfl⟩,
        (ih hes).2 ⟨hall', rfl, rfl⟩, by simp [Operator.beforeIn]⟩

theorem taken (e : Expr) : e.Taken := by
  induction e with
  | text content =>
    intro forms forms' xs
    simp [tokens, takeAll, Source.Token.take, Source.Lexeme.take, type, emissions, WellTyped.text]
  | integer value =>
    intro forms forms' xs
    simp [tokens, takeAll, Source.Token.take, Source.Lexeme.take, type, emissions,
      WellTyped.integer]
  | form op es ih =>
    intro forms forms' xs
    rw [tokens, takeAll_cons]
    constructor
    · rintro ⟨_, _, _, hopen, h, rfl⟩
      cases hopen
      obtain ⟨_, _, _, hes, hclose, rfl⟩ := takeAll_append.1 h
      obtain ⟨hall, rfl, rfl⟩ := (takeAll_operands ih).1 hes
      obtain ⟨ys, hdeliver, rfl⟩ := takeAll_closing.1 hclose
      refine ⟨.form (fun e he => (hall e he).1) (fun e he => (hall e he).2), ys, hdeliver, ?_⟩
      simp [emissions]
    · rintro ⟨htyped, ys, hdeliver, rfl⟩
      rcases htyped with _ | _ | ⟨hoperands, htakes⟩
      have hes : takeAll (tokensOfAll es) (.of op 0 :: forms) = _ :=
        (takeAll_operands ih).2 ⟨fun e he => ⟨hoperands e he, htakes e he⟩, rfl, rfl⟩
      refine ⟨_, _, _, rfl, takeAll_append.2
        ⟨_, _, _, hes, takeAll_closing.2 ⟨ys, hdeliver, rfl⟩, rfl⟩, ?_⟩
      simp [emissions]

/-- Outside all forms, the trees are a program. -/
theorem takeAll_program :
    takeAll (tokensOfAll es) [] = some (xs, forms') ↔
      (∀ e ∈ es, e.WellTyped) ∧ forms' = [] ∧ xs = es.flatMap emissions := by
  induction es generalizing xs with
  | nil => simp [tokensOfAll, takeAll, eq_comm, and_comm]
  | cons e es ih =>
    rw [tokensOfAll, takeAll_append, List.forall_mem_cons, List.flatMap_cons]
    constructor
    · rintro ⟨_, _, _, h, h', rfl⟩
      obtain ⟨htyped, _, hdeliver, rfl⟩ := (e.taken _ _ _).1 h
      cases hdeliver
      obtain ⟨hall, rfl, rfl⟩ := ih.1 h'
      exact ⟨⟨htyped, hall⟩, rfl, by simp [Operator.beforeIn]⟩
    · rintro ⟨⟨htyped, hall⟩, rfl, rfl⟩
      exact ⟨_, _, _, (e.taken _ _ _).2 ⟨htyped, _, rfl, rfl⟩, ih.2 ⟨hall, rfl, rfl⟩,
        by simp [Operator.beforeIn]⟩

/-- Tokens that can be taken until no form is open are the tokens of trees, then for each form that
was open before a closing parenthesis with more of them. -/
theorem exists_tokensOfAll {ts : List Token} (h : takeAll ts forms = some (xs, [])) :
    ∃ (es : List Expr) (levels : List (List Expr)), levels.length = forms.length ∧
      ts = tokensOfAll es ++ levels.flatMap fun es => .closing :: tokensOfAll es := by
  induction ts generalizing forms xs with
  | nil =>
    cases h
    exact ⟨[], [], rfl, rfl⟩
  | cons t ts ih =>
    obtain ⟨_, forms₁, _, ht, hts, rfl⟩ := takeAll_cons.1 h
    obtain ⟨es, levels, hlength, rfl⟩ := ih hts
    match t, ht with
    | .lexeme (.text content), ht =>
      obtain ⟨_, hl, ht⟩ := Option.map_eq_some_iff.1 ht
      obtain ⟨_, hdeliver, rfl⟩ := Option.map_eq_some_iff.1 hl
      cases ht
      exact ⟨.text content :: es, levels, hlength.trans (ValueType.deliver_length hdeliver), rfl⟩
    | .lexeme (.integer value), ht =>
      obtain ⟨_, hl, ht⟩ := Option.map_eq_some_iff.1 ht
      obtain ⟨_, hdeliver, rfl⟩ := Option.map_eq_some_iff.1 hl
      cases ht
      exact ⟨.integer value :: es, levels, hlength.trans (ValueType.deliver_length hdeliver), rfl⟩
    | .lexeme (.opening op), ht =>
      cases ht
      obtain ⟨operands, levels, rfl⟩ := List.exists_cons_of_length_eq_add_one hlength
      refine ⟨.form op es :: operands, levels, by simpa using hlength, ?_⟩
      simp [tokensOfAll, tokens]
    | .closing, ht =>
      cases forms with
      | nil => cases ht
      | cons f outer =>
        obtain ⟨_, hdeliver, ht⟩ := Option.map_eq_some_iff.1 ht
        cases ht
        refine ⟨[], es :: levels, ?_, by simp [tokensOfAll]⟩
        simp [hlength, ValueType.deliver_length hdeliver]

theorem takeAll_eq_some_iff {ts : List Token} :
    takeAll ts [] = some (xs, []) ↔
      ∃ es, ts = tokensOfAll es ∧ (∀ e ∈ es, e.WellTyped) ∧ xs = es.flatMap emissions := by
  constructor
  · intro h
    obtain ⟨es, levels, hlength, hts⟩ := exists_tokensOfAll h
    obtain rfl : levels = [] := List.length_eq_zero_iff.1 hlength
    obtain rfl : ts = tokensOfAll es := by simpa using hts
    obtain ⟨htyped, -, hxs⟩ := takeAll_program.1 h
    exact ⟨es, rfl, htyped, hxs⟩
  · rintro ⟨es, rfl, htyped, rfl⟩
    exact takeAll_program.2 ⟨htyped, rfl, rfl⟩

end Expr

end JvmLisp
