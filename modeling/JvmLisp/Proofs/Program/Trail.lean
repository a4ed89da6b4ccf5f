import JvmLisp.Proofs.Program.Progress

/-! # The trail of the open forms

What the compiler has read lies behind it as tokens that were taken, with texts that can be encoded.
For every open form the trail has the place of its parenthesis, where the forms around it were open,
and from there the operands that the form has taken. When the form is closed, this is its tree, and
the trail of the forms around it goes on from the parenthesis.
-/

namespace JvmLisp

open Source (Cursor Layout Scan Spells Token)

/-- The texts among tokens can be encoded. -/
def Source.Token.AllStorable (ts : List Token) : Prop :=
  ∀ content, .lexeme (.text content) ∈ ts → Jvm.Storable content

theorem Source.Token.allStorable_nil : AllStorable [] :=
  fun _ => by simp

theorem Source.Token.allStorable_append {ts ts' : List Token} :
    AllStorable (ts ++ ts') ↔ AllStorable ts ∧ AllStorable ts' := by
  simp only [AllStorable, List.mem_append, or_imp, forall_and]

/-- The tokens in front of a text can be taken, and leave forms open. Layout may follow them. -/
def ReadTo (source text : List Char) (forms : List Form) : Prop :=
  ∃ ts s xs, Scan ts source s ∧ Layout s text ∧ Token.takeAll ts [] = some (xs, forms) ∧
    Token.AllStorable ts

variable {source s t : List Char} {forms forms' : List Form}

theorem readTo_refl (source : List Char) : ReadTo source source [] :=
  ⟨[], source, [], .nil source, .done source, rfl, Token.allStorable_nil⟩

theorem ReadTo.layout (h : ReadTo source s forms) (hlayout : Layout s t) :
    ReadTo source t forms := by
  obtain ⟨ts, r, xs, hscan, hr, htake⟩ := h
  exact ⟨ts, r, xs, hscan, hr.trans hlayout, htake⟩

/-- More tokens are taken. -/
theorem ReadTo.scan {ts : List Token} {xs : List Emission} (h : ReadTo source s forms)
    (hscan : Scan ts s t) (htake : Token.takeAll ts forms = some (xs, forms'))
    (hstorable : Token.AllStorable ts) : ReadTo source t forms' := by
  obtain ⟨ts₀, r, xs₀, hscan₀, hr, htake₀, hstorable₀⟩ := h
  cases hscan with
  | nil =>
    obtain ⟨-, rfl⟩ := Prod.mk.inj (Option.some.inj htake)
    exact ⟨ts₀, r, xs₀, hscan₀, hr, htake₀, hstorable₀⟩
  | cons hlayout hspells hscan =>
    exact ⟨_, t, _, hscan₀.append (.cons (hr.trans hlayout) hspells hscan), .done t,
      Token.takeAll_append.2 ⟨_, _, _, htake₀, htake, rfl⟩,
      Token.allStorable_append.2 ⟨hstorable₀, hstorable⟩⟩

theorem Expr.tokensOfAll_concat (es : List Expr) (e : Expr) :
    tokensOfAll (es ++ [e]) = tokensOfAll es ++ e.tokens := by
  induction es with
  | nil => simp [tokensOfAll]
  | cons e' es ih => simp [tokensOfAll, ih]

namespace Compiler

/-- How the cursor has got into the open forms. -/
inductive Trail (source : List Char) : List OpenForm → Cursor → Prop
  | outside {cursor : Cursor} (text_eq : cursor.text = source)
    (read : ReadTo source cursor.rest []) : Trail source [] cursor
  | inside {op : Operator} {es : List Expr} {outer : List OpenForm} {opening cursor : Cursor}
    {s r : List Char} (around : Trail source outer opening) (leads : opening.Leads cursor)
    (operands : ∀ e ∈ es, e.WellTyped ∧ op.Takes e.type)
    (storable : Token.AllStorable (Expr.tokensOfAll es))
    (spells : Spells (.lexeme (.opening op)) opening.rest s)
    (scan : Scan (Expr.tokensOfAll es) s r) (layout : Layout r cursor.rest) :
    Trail source (⟨.of op es.length, opening⟩ :: outer) cursor

variable {opened outer : List OpenForm} {cursor behind : Cursor} {f : Form} {opening : Cursor}
  {e : Expr}

theorem Trail.text_eq (h : Trail source opened cursor) : cursor.text = source := by
  induction h with
  | outside text_eq => exact text_eq
  | inside _ leads _ _ _ _ _ ih => exact leads.text_eq.trans ih

/-- The parenthesis of the innermost form has been read. -/
theorem Trail.opening_leads (h : Trail source (⟨f, opening⟩ :: outer) cursor) :
    opening.Leads cursor := by
  cases h with
  | inside _ leads => exact leads

theorem Trail.readTo (h : Trail source opened cursor) :
    ReadTo source cursor.rest (opened.map OpenForm.form) := by
  induction h with
  | outside _ read => exact read
  | @inside op es outer opening cursor s r _ _ operands storable spells scan layout ih =>
    have htake : Token.takeAll (Expr.tokensOfAll es) (.of op 0 :: outer.map OpenForm.form) =
        some (Expr.emissionsOfAll op es, .of op es.length :: outer.map OpenForm.form) := by
      rw [Expr.takeAll_operands fun e _ => e.taken, Nat.zero_add]
      exact ⟨operands, rfl, rfl⟩
    have hopening := ih.scan (.cons (.done _) spells (.nil s)) rfl (by simp [Token.AllStorable])
    exact (hopening.scan scan htake storable).layout layout

theorem Trail.move (h : Trail source opened cursor) (hleads : cursor.Leads behind)
    (hlayout : Layout cursor.rest behind.rest) : Trail source opened behind := by
  cases h with
  | outside text_eq read => exact .outside (hleads.text_eq.trans text_eq) (read.layout hlayout)
  | inside around leads operands storable spells scan layout =>
    exact .inside around (leads.trans hleads) operands storable spells scan
      (layout.trans hlayout)

theorem Trail.skipLayout (h : Trail source opened cursor) : Trail source opened cursor.skipLayout :=
  h.move cursor.leads_skipLayout cursor.layout_skipLayout

theorem Trail.enter {op : Operator} (h : Trail source opened cursor) (hleads : cursor.Leads behind)
    (hspells : Spells (.lexeme (.opening op)) cursor.rest behind.rest) :
    Trail source (⟨.of op 0, cursor⟩ :: opened) behind :=
  @Trail.inside source op [] _ _ _ _ _ h hleads (List.forall_mem_nil _) Token.allStorable_nil
    hspells (.nil _) (.done _)

/-- Outside all forms, a tree has been read. -/
theorem Trail.expression (h : Trail source [] cursor) (hleads : cursor.Leads behind)
    (hspelled : Spelled e cursor.rest behind.rest) (htyped : e.WellTyped)
    (hstorable : Token.AllStorable e.tokens) : Trail source [] behind := by
  have htake : Token.takeAll e.tokens [] = some (_, []) :=
    (e.taken _ _ _).2 ⟨htyped, [], rfl, rfl⟩
  exact .outside (hleads.text_eq.trans h.text_eq) (h.readTo.scan hspelled.scan htake hstorable)

/-- The innermost form has taken a tree. -/
theorem Trail.operand (h : Trail source (⟨f, opening⟩ :: outer) cursor)
    (hleads : cursor.Leads behind) (hspelled : Spelled e cursor.rest behind.rest)
    (htyped : e.WellTyped) (hstorable : Token.AllStorable e.tokens)
    (htakes : f.operator.Takes e.type) : Trail source (⟨f.next, opening⟩ :: outer) behind := by
  generalize hopened : ⟨f, opening⟩ :: outer = opened at h
  cases h with
  | outside => cases hopened
  | @inside op es _ _ _ s r around leads operands storable spells scan layout =>
    obtain ⟨hform, rfl⟩ := List.cons.inj hopened
    obtain ⟨rfl, rfl⟩ := OpenForm.mk.inj hform
    rw [Form.operator_of] at htakes
    have hall : ∀ e' ∈ es ++ [e], e'.WellTyped ∧ op.Takes e'.type := by
      intro e' he'
      rcases List.mem_append.1 he' with he' | he'
      · exact operands e' he'
      · obtain rfl := List.mem_singleton.1 he'
        exact ⟨htyped, htakes⟩
    obtain ⟨l, ts, hts⟩ := e.tokens_eq_cons
    have hscan : Scan (Expr.tokensOfAll (es ++ [e])) s behind.rest := by
      rw [Expr.tokensOfAll_concat]
      exact scan.append (hspelled.scan.layout (by simp [hts]) layout)
    have hstorable' : Token.AllStorable (Expr.tokensOfAll (es ++ [e])) := by
      rw [Expr.tokensOfAll_concat]
      exact Token.allStorable_append.2 ⟨storable, hstorable⟩
    have hnext := Trail.inside around (leads.trans hleads) hall hstorable' spells hscan (.done _)
    rwa [List.length_append, List.length_singleton, ← Form.next_of] at hnext

/-- At a closing parenthesis, the innermost form is a tree from its opening on. -/
theorem Trail.close {r : List Char} (h : Trail source (⟨f, opening⟩ :: outer) cursor)
    (hrest : cursor.rest = ')' :: r) :
    ∃ e, Trail source outer opening ∧ e.type = f.operator.type ∧ e.WellTyped ∧
      Token.AllStorable e.tokens ∧ Spelled e opening.rest r := by
  generalize hopened : ⟨f, opening⟩ :: outer = opened at h
  cases h with
  | outside => cases hopened
  | @inside op es _ _ _ s t around leads operands storable spells scan layout =>
    obtain ⟨hform, rfl⟩ := List.cons.inj hopened
    obtain ⟨rfl, rfl⟩ := OpenForm.mk.inj hform
    rw [hrest] at layout
    have hscan : Scan (Expr.form op es).tokens opening.rest r := by
      rw [Expr.tokens]
      exact .cons (.done _) spells (scan.append (.cons layout (.closing r) (.nil r)))
    obtain ⟨t, hlayout, hspelled⟩ := spelled_of_scan hscan
    obtain rfl := spells.solid.layout_eq hlayout
    refine ⟨.form op es, around, by rw [Form.operator_of]; rfl, ?_, ?_, hspelled⟩
    · exact .form (fun e he => (operands e he).1) fun e he => (operands e he).2
    · intro content hcontent
      apply storable content
      simpa [Expr.tokens] using hcontent

end Compiler

end JvmLisp
