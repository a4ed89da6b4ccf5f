import JvmLisp.Proofs.Source.Reading

/-! # Expression trees

The grammar of expressions over the grammar of tokens. A text spells a list of trees if and only if
it scans into the tokens of the trees, written one after another; the tokens of a tree determine it
and end where it ends, so a text spells at most one list of trees.
-/

namespace JvmLisp

open Source (Atom Layout Numeral Quoted Scan Spells Token)

inductive Expr where
  | text (content : String)
  | integer (value : Int64)
  | form (operator : Operator) (operands : List Expr)

namespace Expr

/-- Induction on trees, with the hypothesis for all operands of a form. -/
@[elab_as_elim, induction_eliminator]
theorem induction {motive : Expr → Prop} (text : ∀ content, motive (.text content))
    (integer : ∀ value, motive (.integer value))
    (form : ∀ operator operands, (∀ e ∈ operands, motive e) → motive (.form operator operands))
    (e : Expr) : motive e :=
  @Expr.rec motive (fun es => ∀ e ∈ es, motive e) text integer form (by simp)
    (fun _ _ hhead htail => List.forall_mem_cons.2 ⟨hhead, htail⟩) e

mutual

def tokens : Expr → List Token
  | text content => [.lexeme (.text content)]
  | integer value => [.lexeme (.integer value)]
  | form operator operands =>
    .lexeme (.opening operator) :: (tokensOfAll operands ++ [.closing])

def tokensOfAll : List Expr → List Token
  | [] => []
  | e :: es => e.tokens ++ tokensOfAll es

end

theorem tokens_eq_cons (e : Expr) : ∃ l ts, e.tokens = .lexeme l :: ts := by
  cases e with
  | text | integer => exact ⟨_, [], rfl⟩
  | form operator operands => exact ⟨_, _, by rw [tokens]⟩

/-- Nothing else has the tokens of the tree, whatever follows them. -/
def Delimited (e : Expr) : Prop :=
  ∀ e' ts ts', e.tokens ++ ts = tokens e' ++ ts' → e = e' ∧ ts = ts'

theorem tokensOfAll_append_inj {es es' : List Expr} {ts ts' : List Token}
    (hall : ∀ e ∈ es, e.Delimited)
    (h : tokensOfAll es ++ .closing :: ts = tokensOfAll es' ++ .closing :: ts') :
    es = es' ∧ ts = ts' := by
  induction es generalizing es' with
  | nil =>
    cases es' with
    | nil => simpa [tokensOfAll] using h
    | cons e' es' =>
      obtain ⟨l, more, hl⟩ := e'.tokens_eq_cons
      simp [tokensOfAll, hl] at h
  | cons e es ih =>
    cases es' with
    | nil =>
      obtain ⟨l, more, hl⟩ := e.tokens_eq_cons
      simp [tokensOfAll, hl] at h
    | cons e' es' =>
      simp only [tokensOfAll, List.append_assoc] at h
      obtain ⟨rfl, hrest⟩ := hall e (by simp) _ _ _ h
      obtain ⟨rfl, rfl⟩ := ih (fun e he => hall e (by simp [he])) hrest
      exact ⟨rfl, rfl⟩

theorem delimited (e : Expr) : e.Delimited := by
  induction e with
  | text content => intro e' ts ts' h; cases e' <;> simp_all [tokens]
  | integer value => intro e' ts ts' h; cases e' <;> simp_all [tokens]
  | form operator operands ih =>
    intro e' ts ts' h
    cases e' with
    | text | integer => simp [tokens] at h
    | form operator' operands' =>
      simp only [tokens, List.cons_append, List.append_assoc, List.cons.injEq, Token.lexeme.injEq,
        Source.Lexeme.opening.injEq, List.nil_append] at h
      obtain ⟨rfl, h⟩ := h
      obtain ⟨rfl, rfl⟩ := tokensOfAll_append_inj ih h
      exact ⟨rfl, rfl⟩

theorem tokensOfAll_inj {es es' : List Expr} (h : tokensOfAll es = tokensOfAll es') : es = es' := by
  exact (tokensOfAll_append_inj (fun e _ => e.delimited) (congrArg (· ++ [.closing]) h)).1

end Expr

/-! ### Spellings -/

mutual

/-- A text is the spelling of a tree, and then a rest. -/
inductive Spelled : Expr → List Char → List Char → Prop
  | text {content s r : List Char} : Quoted content s r →
    Spelled (.text (String.ofList content)) ('"' :: s) r
  | integer {a s r : List Char} {v : Int64} : Atom a s r → Numeral a v → Spelled (.integer v) s r
  | form {op : Operator} {es : List Expr} {s t u v r : List Char} : Layout s t →
    Atom op.name.toList t u → Layout u v → SpelledOperands es v r →
    Spelled (.form op es) ('(' :: s) r

/-- Operands, each with the layout behind it, up to the closing parenthesis. -/
inductive SpelledOperands : List Expr → List Char → List Char → Prop
  | closing (r : List Char) : SpelledOperands [] (')' :: r) r
  | operand {e : Expr} {es : List Expr} {s t u r : List Char} : Spelled e s t → Layout t u →
    SpelledOperands es u r → SpelledOperands (e :: es) s r

end

/-- Expressions, each with the layout behind it, up to the end of the text. -/
inductive SpelledExpressions : List Expr → List Char → Prop
  | done : SpelledExpressions [] []
  | expression {e : Expr} {es : List Expr} {s t u : List Char} : Spelled e s t → Layout t u →
    SpelledExpressions es u → SpelledExpressions (e :: es) s

/-- A whole text is the spelling of a list of trees. -/
def SpelledProgram (es : List Expr) (s : List Char) : Prop :=
  ∃ t, Layout s t ∧ SpelledExpressions es t

theorem Source.Scan.append {ts ts' : List Token} {s t r : List Char} (h : Scan ts s t)
    (h' : Scan ts' t r) : Scan (ts ++ ts') s r := by
  induction h with
  | nil => exact h'
  | cons hlayout hspells _ ih => exact .cons hlayout hspells (ih h')

theorem Source.Scan.of_append {ts ts' : List Token} {s r : List Char} (h : Scan (ts ++ ts') s r) :
    ∃ t, Scan ts s t ∧ Scan ts' t r := by
  induction ts generalizing s with
  | nil => exact ⟨s, .nil s, h⟩
  | cons tok ts ih =>
    cases h with
    | cons hlayout hspells h =>
      obtain ⟨t, ht, hr⟩ := ih h
      exact ⟨t, .cons hlayout hspells ht, hr⟩

/-- Layout in front of the first token belongs to the scan. -/
theorem Source.Scan.layout {ts : List Token} {s s' r : List Char} (hne : ts ≠ []) (h : Layout s s')
    (hs : Scan ts s' r) : Scan ts s r := by
  cases hs with
  | nil => exact absurd rfl hne
  | cons hlayout hspells hs => exact .cons (h.trans hlayout) hspells hs

mutual

theorem Spelled.scan {e : Expr} {s r : List Char} : Spelled e s r → Scan e.tokens s r
  | .text h => .cons (.done _) (.text h) (.nil _)
  | .integer h hv => .cons (.done _) (.integer h hv) (.nil _)
  | .form hlayout hname hlayout' hs => by
    rw [Expr.tokens]
    exact .cons (.done _) (.opening hlayout hname) (hs.scan.layout (by simp) hlayout')

theorem SpelledOperands.scan {es : List Expr} {s r : List Char} :
    SpelledOperands es s r → Scan (Expr.tokensOfAll es ++ [.closing]) s r
  | .closing _ => .cons (.done _) (.closing _) (.nil _)
  | .operand he hlayout hes => by
    rw [Expr.tokensOfAll, List.append_assoc]
    exact he.scan.append (hes.scan.layout (by simp) hlayout)

end

/-- The tokens of a tree are found only in its spellings. -/
theorem spelled_of_scan {e : Expr} {s r : List Char} (h : Scan e.tokens s r) :
    ∃ t, Layout s t ∧ Spelled e t r := by
  induction e generalizing s r with
  | text content =>
    cases h with
    | cons hlayout hspells h =>
      cases h
      cases hspells with
      | text hquoted => exact ⟨_, hlayout, .text hquoted⟩
  | integer value =>
    cases h with
    | cons hlayout hspells h =>
      cases h
      cases hspells with
      | integer hatom hv => exact ⟨_, hlayout, .integer hatom hv⟩
  | form op es ih =>
    have operands {s r : List Char} (h : Scan (Expr.tokensOfAll es ++ [.closing]) s r) :
        ∃ t, Layout s t ∧ SpelledOperands es t r := by
      clear * - ih h
      induction es generalizing s with
      | nil =>
        cases h with
        | cons hlayout hspells h =>
          cases h
          cases hspells
          exact ⟨_, hlayout, .closing _⟩
      | cons e es ihs =>
        rw [Expr.tokensOfAll, List.append_assoc] at h
        obtain ⟨t, ht, hr⟩ := h.of_append
        obtain ⟨s', hs, he⟩ := ih e (by simp) ht
        obtain ⟨u, hu, hes⟩ := ihs (fun e he => ih e (by simp [he])) hr
        exact ⟨s', hs, .operand he hu hes⟩
    rw [Expr.tokens] at h
    cases h with
    | cons hlayout hspells h =>
      cases hspells with
      | opening hinner hname =>
        obtain ⟨t, ht, hes⟩ := operands h
        exact ⟨_, hlayout, .form hinner hname ht hes⟩

/-- A text spells trees if and only if it scans into their tokens. -/
theorem spelledProgram_iff {es : List Expr} {s : List Char} :
    SpelledProgram es s ↔ ∃ r, Scan (Expr.tokensOfAll es) s r ∧ Layout r [] := by
  constructor
  · rintro ⟨t, ht, h⟩
    induction h generalizing s with
    | done => exact ⟨s, .nil s, ht⟩
    | expression he hlayout _ ih =>
      obtain ⟨r, hscan, hr⟩ := ih hlayout
      obtain ⟨l, ts, hts⟩ := Expr.tokens_eq_cons _
      refine ⟨r, (he.scan.layout ?_ ht).append hscan, hr⟩
      rw [hts]
      simp
  · rintro ⟨r, h, hr⟩
    induction es generalizing s with
    | nil =>
      cases h
      exact ⟨[], hr, .done⟩
    | cons e es ih =>
      obtain ⟨t, ht, h⟩ := h.of_append
      obtain ⟨s', hs, he⟩ := spelled_of_scan ht
      obtain ⟨u, hu, hes⟩ := ih h
      exact ⟨s', hs, .expression he hu hes⟩

/-- A text spells at most one list of trees. -/
theorem SpelledProgram.unique {es es' : List Expr} {s : List Char} (h : SpelledProgram es s)
    (h' : SpelledProgram es' s) : es = es' := by
  obtain ⟨r, hscan, hr⟩ := spelledProgram_iff.1 h
  obtain ⟨r', hscan', hr'⟩ := spelledProgram_iff.1 h'
  exact Expr.tokensOfAll_inj (hscan.unique hscan' hr hr')

end JvmLisp
