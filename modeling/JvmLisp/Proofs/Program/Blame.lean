import JvmLisp.Proofs.Program.Trail
import JvmLisp.Proofs.Source.Context
import JvmLisp.Proofs.Source.Flaw

/-! # Where errors point

An error of the compiler refers to an offset of the source text, and there stands what is to blame
for it. `Culprit` says for each cause what this is, by the grammar and by the characters in front of
the offset, without the compiler.

The compiler marks the place of an operand before it knows the type of it, and the parenthesis of a
form before it knows whether the form is closed. That a mark is still the right one when it is used
follows from the trail of the open forms, which every step keeps.
-/

namespace JvmLisp

open Source (Cursor Flaw Layout Lexeme Quoted Solid Spells Token nesting openForms positionAt)

/-- Why an operator refuses an operand of a type. -/
def Operator.refusal : Operator → ValueType → Cause
  | print, type => .unprintable type
  | add, type => .mismatch .long type

/-- What is to blame for a cause stands at an offset of the source text. -/
inductive Culprit (source : List Char) (k : Nat) : Cause → Prop
  /-- The innermost parenthesis that is open at the end. -/
  | unclosed : (openForms source).head? = some k → Culprit source k (.malformed .unclosedForm)
  /-- A place in the lexeme that comes next. -/
  | flaw {text : List Char} {forms : List Form} {fault : Malformed} : ReadTo source text forms →
    Flaw text (source.drop k) fault → Culprit source k (.malformed fault)
  /-- A closing parenthesis outside all forms. -/
  | stray {r : List Char} : ReadTo source (source.drop k) [] → source.drop k = ')' :: r →
    Culprit source k (.malformed .strayClose)
  /-- A quoted text whose content is no constant. -/
  | constant {forms : List Form} {content s r : List Char} {err : Error} :
    ReadTo source (source.drop k) forms → source.drop k = '"' :: s → Quoted content s r →
    Jvm.Pool.checkText (String.ofList content) = .error err → Culprit source k err.cause
  /-- An operand of the innermost open form, which does not take its type. -/
  | operand {f : Form} {outer : List Form} {e : Expr} {r : List Char} :
    ReadTo source (source.drop k) (f :: outer) → Spelled e (source.drop k) r → e.WellTyped →
    ¬f.operator.Takes e.type → Culprit source k (f.operator.refusal e.type)
  /-- No single place is to blame for a pool that is full. -/
  | full : Culprit source k (.limit .poolSize)

/-! ### Emissions that fail -/

namespace Build

variable {a a' : Assembly} {es : List Emission}

theorem performAll_eq_return (es : List Emission) :
    performAll es = do performAll es; return () :=
  (bind_pure (performAll es)).symm

theorem emit_pool (i : Jvm.Instruction) (effect : Int) (a : Assembly) :
    (emit i effect a).2.pool = a.pool := by
  rw [emit]
  split <;> rfl

theorem emit_eq_error {i : Jvm.Instruction} {effect : Int} {err : Error}
    (h : (emit i effect a).1 = .error err) : err.cause.isDefect := by
  simp only [emit, Jvm.Body.emit] at h
  split at h
  · cases h
  · rename_i hbody
    split at hbody
    · cases hbody
    · obtain rfl := Except.error.inj h
      cases hbody
      rfl

/-- The pool stays sound. Emissions that are performed need constants that can be encoded; one that
fails has a defect, or has no room in the pool, or needs a constant that is refused. -/
theorem performAll_outcome (h : a.pool.Sound) (es : List Emission) :
    (performAll es a).2.pool.Sound ∧
      ((performAll es a).1 = .ok () → ∀ y ∈ es, ∀ x ∈ y.parts, x.check = .ok ()) ∧
      ∀ err, (performAll es a).1 = .error err → err.cause.isDefect ∨ err.cause = .limit .poolSize ∨
        ∃ y ∈ es, ∃ x ∈ y.parts, x.check = .error err := by
  induction es generalizing a with
  | nil =>
    refine ⟨h, fun _ => List.forall_mem_nil _, ?_⟩
    intro err herr
    cases herr
  | cons e es ih =>
    obtain ⟨result, a₁, hlocate, hvalid, -, habsorb, -⟩ := locate_apply h.valid e
    have hchecked := Jvm.absorb_checked h.checked e.parts
    rw [habsorb] at hchecked
    have hsound : a₁.pool.Sound := ⟨hvalid, hchecked⟩
    cases result with
    | error err =>
      simp only [performAll, perform, Jvm.bind_apply, hlocate]
      refine ⟨hsound, fun hok => (by cases hok), ?_⟩
      rintro err' ⟨⟩
      obtain hfull | ⟨x, hx, hcheck⟩ := Jvm.absorb_eq_error (congrArg Prod.fst habsorb)
      · exact .inr (.inl hfull)
      · exact .inr (.inr ⟨e, List.mem_cons_self, x, hx, hcheck⟩)
    | ok i =>
      have hpool := emit_pool (e.operation.instruction i) e.effect a₁
      rcases hemit : emit (e.operation.instruction i) e.effect a₁ with ⟨err | _, a₂⟩
      · rw [hemit] at hpool
        simp only [performAll, perform, Jvm.bind_apply, hlocate, hemit]
        refine ⟨by rw [hpool]; exact hsound, fun hok => (by cases hok), ?_⟩
        rintro err' ⟨⟩
        exact .inl (emit_eq_error (congrArg Prod.fst hemit))
      · rw [hemit] at hpool
        simp only [performAll, perform, Jvm.bind_apply, hlocate, hemit]
        obtain ⟨hsound', hok, herror⟩ := ih (hpool ▸ hsound : a₂.pool.Sound)
        refine ⟨hsound', fun hes => List.forall_mem_cons.2 ⟨fun x hx => ?_, hok hes⟩, ?_⟩
        · exact hchecked x ((Jvm.mem_of_absorb habsorb x).2 (.inr hx))
        · intro err herr
          obtain hdefect | hfull | ⟨y, hy, hrefused⟩ := herror err herr
          · exact .inl hdefect
          · exact .inr (.inl hfull)
          · exact .inr (.inr ⟨y, List.mem_cons_of_mem e hy, hrefused⟩)

end Build

theorem Form.takeOperand_eq_refusal {f : Form} {type : ValueType} (h : ¬f.operator.Takes type) :
    f.takeOperand type = .error (f.operator.refusal type) := by
  match f, type with
  | print, .void | add n, .void | add n, .text => rfl
  | print, .text | print, .long | add n, .long => simp [operator, Operator.Takes] at h

theorem Form.closes_subset (f : Form) : f.closes ⊆ Operator.emissions := by
  obtain ⟨op, n, rfl⟩ := f.exists_eq_of
  rw [closes_of]
  exact op.closes_subset n

theorem Operator.beforeIn_subset (forms : List Form) : beforeIn forms ⊆ emissions := by
  cases forms with
  | nil => exact List.nil_subset _
  | cons f outer => exact f.operator.before_subset

theorem Source.Spells.exists_quoted {content : String} {s r : List Char}
    (h : Spells (.lexeme (.text content)) s r) :
    ∃ content' s', s = '"' :: s' ∧ Quoted content' s' r ∧ content = String.ofList content' := by
  cases h with
  | text hquoted => exact ⟨_, _, rfl, hquoted, rfl⟩

namespace Compiler

/-- The error refers to the place of its culprit, which has been read. -/
def Faults (source : List Char) (cursor : Cursor) (e : Error) : Prop :=
  ∃ mark : Cursor, mark.text = source ∧ mark.Leads cursor ∧ e = cursor.errorAt mark e.cause ∧
    (e.cause.isDefect ∨ Culprit source mark.offset e.cause)

/-- A trail leads to the cursor, and the parentheses that are open in the text are those of the open
forms. -/
structure Traced (source : List Char) (c : Compiler) : Prop where
  sound : c.assembly.pool.Sound
  trail : Trail source c.forms c.cursor
  nesting_eq : nesting c.cursor.before = (.code, c.forms.map (·.opening.offset))

def Step.Traced (source : List Char) : Step → Prop
  | next c => Compiler.Traced source c
  | stop (.ok ()) _ => True
  | stop (.error e) c => Faults source c.cursor e

variable {α : Type} {source : List Char} {c : Compiler} {start cursor mark : Cursor}
  {opened : List OpenForm} {n : Nat} {a : Assembly}

theorem traced_fail {cause : Cause} (htext : mark.text = source) (hleads : mark.Leads c.cursor)
    (hculprit : Culprit source mark.offset cause) : (fail c mark cause).Traced source :=
  ⟨mark, htext, hleads, rfl, .inr hculprit⟩

/-- A build step that performs emissions is blamed for their constants at its mark. -/
theorem traced_build {action : Build α} {next : α → Compiler → Step} {es : List Emission} {x : α}
    (haction : action = do Build.performAll es; return x) (hsound : a.pool.Sound)
    (htext : mark.text = source) (hleads : mark.Leads cursor)
    (hrefused : ∀ y ∈ es, ∀ x ∈ y.parts, ∀ err, x.check = .error err →
      Culprit source mark.offset err.cause)
    (hnext : ∀ a : Assembly, a.pool.Sound → (∀ y ∈ es, ∀ x ∈ y.parts, x.check = .ok ()) →
      (next x ⟨cursor, opened, n, a⟩).Traced source) :
    (build mark action next ⟨cursor, opened, n, a⟩).Traced source := by
  subst haction
  obtain ⟨hsound', hchecked, herror⟩ := Build.performAll_outcome hsound es
  rcases hes : Build.performAll es a with ⟨err | _, a₁⟩
  · rw [hes] at herror
    simp only [build, Jvm.bind_apply, hes]
    refine ⟨mark, htext, hleads, rfl, ?_⟩
    obtain hdefect | hfull | ⟨y, hy, x, hx, hcheck⟩ := herror err rfl
    · exact .inl hdefect
    · exact .inr (hfull ▸ .full)
    · exact .inr (hrefused y hy x hx err hcheck)
  · rw [hes] at hsound' hchecked
    simp only [build, Jvm.bind_apply, hes]
    exact hnext a₁ hsound' (hchecked rfl)

/-- No constant is refused that does not come from a text. -/
theorem traced_build_of_checked {action : Build α} {next : α → Compiler → Step}
    {es : List Emission} {x : α} (haction : action = do Build.performAll es; return x)
    (hchecked : ∀ y ∈ es, ∀ x ∈ y.parts, x.check = .ok ()) (hsound : a.pool.Sound)
    (htext : cursor.text = source)
    (hnext : ∀ a : Assembly, a.pool.Sound → (next x ⟨cursor, opened, n, a⟩).Traced source) :
    (build cursor action next ⟨cursor, opened, n, a⟩).Traced source := by
  refine traced_build haction hsound htext (.refl cursor) ?_ fun a₁ hsound₁ _ => hnext a₁ hsound₁
  intro y hy x hx err hcheck
  rw [hchecked y hy x hx] at hcheck
  cases hcheck

/-- A tree has been read, and the innermost form takes it or refuses it. -/
theorem traced_deliver {e : Expr} (htrail : Trail source opened start) (hleads : start.Leads cursor)
    (hspelled : Spelled e start.rest cursor.rest) (htyped : e.WellTyped)
    (hstorable : Token.AllStorable e.tokens)
    (hnesting : nesting cursor.before = (.code, opened.map (·.opening.offset)))
    (hsound : a.pool.Sound) :
    (deliver start e.type ⟨cursor, opened, n, a⟩).Traced source := by
  have htext := htrail.text_eq
  cases opened with
  | nil => exact ⟨hsound, htrail.expression hleads hspelled htyped hstorable, hnesting⟩
  | cons innermost outer =>
    rcases innermost with ⟨f, opening⟩
    rw [deliver]
    by_cases htakes : f.operator.Takes e.type
    · rw [Form.takeOperand_eq htakes]
      refine traced_build_of_checked rfl (Operator.check_parts (Operator.after_subset _ _)) hsound
        (hleads.text_eq.trans htext) fun a₁ hsound₁ => ?_
      exact ⟨hsound₁, htrail.operand hleads hspelled htyped hstorable htakes, hnesting⟩
    · rw [Form.takeOperand_eq_refusal htakes]
      have hread := htrail.readTo
      rw [← start.drop_offset, htext] at hspelled hread
      exact traced_fail htext hleads (.operand hread hspelled htyped htakes)

/-- At the end of the text, the open parentheses are those in front of the cursor. -/
theorem culprit_unclosed {region : Source.Region} {k : Nat} {outer : List Nat}
    (htext : cursor.text = source) (hrest : cursor.rest = [])
    (hnesting : nesting cursor.before = (region, k :: outer)) :
    Culprit source k (.malformed .unclosedForm) := by
  apply Culprit.unclosed
  have hreverse : source.reverse = cursor.before := by simp [← htext, Cursor.text, hrest]
  rw [openForms, hreverse, hnesting]
  rfl

theorem faults_read {d : Char} {s : List Char} {e : Error} (h : Traced source ⟨start, opened, n, a⟩)
    (hrest : start.rest = d :: s) (hsolid : Solid start.rest) (hd : d ≠ ')')
    (hread : Lexeme.read start = (.error e, cursor)) : Faults source cursor e := by
  obtain ⟨-, htrail, hnesting⟩ := h
  have htext : start.text = source := htrail.text_eq
  have hleads := Lexeme.leads_read start
  rw [hread] at hleads
  rcases Lexeme.blames_read hrest hsolid hd hread with
    ⟨mark, fault, rfl, hmark, hcursor, hflaw⟩ | ⟨rfl, hhead, hend, rfl⟩
  · have hmarkText : mark.text = source := hmark.text_eq.trans htext
    rw [← mark.drop_offset, hmarkText] at hflaw
    exact ⟨mark, hmarkText, hcursor, rfl, .inr (.flaw htrail.readTo hflaw)⟩
  · obtain ⟨region, hopen, -⟩ := Lexeme.nesting_head hnesting hrest
    rw [← hhead] at hopen
    exact ⟨start, htext, hleads, rfl,
      .inr (culprit_unclosed (hleads.text_eq.trans htext) hend hopen)⟩

theorem traced_readOperand {d : Char} {s : List Char} (h : Traced source ⟨start, opened, n, a⟩)
    (hrest : start.rest = d :: s) (hsolid : Solid start.rest) (hd : d ≠ ')') :
    (readOperand ⟨start, opened, n, a⟩).Traced source := by
  have htext : start.text = source := h.trail.text_eq
  have hleads := Lexeme.leads_read start
  rcases hread : Lexeme.read start with ⟨e | l, cursor⟩
  · simp only [readOperand, hread]
    exact faults_read h hrest hsolid hd hread
  · have hspells := Lexeme.spells_of_read hread
    obtain ⟨hsound, htrail, hnesting⟩ := h
    have hbehind := Lexeme.nesting_read hnesting hread
    rw [hread] at hleads
    cases l with
    | opening op =>
      simp only [readOperand, hread]
      refine traced_build_of_checked (Form.start_eq op) (Operator.check_parts op.opens_subset)
        hsound (hleads.text_eq.trans htext) fun a₁ hsound₁ => ?_
      exact ⟨hsound₁, htrail.enter hleads hspells, hbehind⟩
    | text content =>
      obtain ⟨content, s, hquote, hquoted, rfl⟩ := hspells.exists_quoted
      have hspelled : Spelled (.text (String.ofList content)) start.rest cursor.rest :=
        hquote ▸ .text hquoted
      simp only [readOperand, hread, Form.pushText_eq]
      refine traced_build (Build.performAll_eq_return _) hsound htext hleads ?_ ?_
      · intro y hy x hx err hcheck
        obtain rfl := List.mem_singleton.1 hy
        rcases List.mem_pair.1 hx with rfl | rfl
        · have hdrop : source.drop start.offset = start.rest := by rw [← htext, start.drop_offset]
          exact .constant (hdrop ▸ htrail.readTo) (hdrop.trans hquote) hquoted hcheck
        · cases hcheck
      · intro a₁ hsound₁ hchecked
        refine traced_deliver htrail hleads hspelled (.text _) ?_ hbehind hsound₁
        intro content' hcontent'
        obtain rfl : content' = String.ofList content := by simpa [Expr.tokens] using hcontent'
        apply Jvm.Pool.checkText_eq_ok.1
        exact hchecked _ List.mem_cons_self (.utf8 _) List.mem_cons_self
    | integer value =>
      have hspelled : Spelled (.integer value) start.rest cursor.rest := by
        cases hspells with
        | integer hatom hvalue => exact .integer hatom hvalue
      simp only [readOperand, hread, Form.pushLong_eq]
      refine traced_build_of_checked (Build.performAll_eq_return _) ?_ hsound
        (hleads.text_eq.trans htext) fun a₁ hsound₁ => ?_
      · intro y hy x hx
        obtain rfl := List.mem_singleton.1 hy
        obtain rfl := List.mem_singleton.1 hx
        rfl
      · exact traced_deliver htrail hleads hspelled (.integer value)
          (by simp [Token.AllStorable, Expr.tokens]) hbehind hsound₁

/-- A step goes on along the trail or stops at a culprit. -/
theorem Traced.step (h : Traced source c) : (step c).Traced source := by
  rcases c with ⟨start, opened, n, a⟩
  obtain ⟨hsound, htrail, hnesting⟩ := h
  have hskip : Trail source opened start.skipLayout := Trail.skipLayout htrail
  have htext := hskip.text_eq
  obtain ⟨region, hbehind, hregion⟩ := Cursor.nesting_skipLayout hnesting
  rcases hrest : start.skipLayout.rest with _ | ⟨d, s⟩
  · cases opened with
    | nil =>
      rw [step_of_end hrest rfl]
      trivial
    | cons innermost outer =>
      have hleads := hskip.opening_leads
      rw [step_of_unclosed hrest rfl]
      exact traced_fail (hleads.text_eq.symm.trans htext) hleads
        (culprit_unclosed htext hrest hbehind)
  · obtain rfl := hregion (by simp [hrest])
    by_cases hd : d = ')'
    · subst hd
      cases opened with
      | nil =>
        have hdrop : source.drop start.skipLayout.offset = ')' :: s := by
          rw [← htext, Cursor.drop_offset, hrest]
        have hread := hskip.readTo
        rw [hrest, ← hdrop] at hread
        rw [step_of_stray hrest rfl]
        exact traced_fail htext (.refl _) (.stray hread hdrop)
      | cons innermost outer =>
        rcases innermost with ⟨f, opening⟩
        rcases hstart : start.skipLayout with ⟨before, rest⟩
        rw [hstart] at hskip htext hbehind hrest
        obtain rfl : rest = ')' :: s := hrest
        obtain ⟨e, haround, htype, htyped, hstorable, hspelled⟩ := hskip.close rfl
        have hadvance := Source.Cursor.leads_cons ')' before s
        have hclosed : nesting (')' :: before) = (.code, outer.map (·.opening.offset)) := by
          simp only at hbehind
          simp [nesting, hbehind, Source.Region.next]
        rw [step_of_closing (by rw [hstart]) rfl, hstart]
        refine traced_build_of_checked f.finish_eq (Operator.check_parts f.closes_subset) hsound
          (hadvance.text_eq.trans htext) fun a₁ hsound₁ => ?_
        rw [← htype]
        exact traced_deliver haround (hskip.opening_leads.trans hadvance) hspelled htyped hstorable
          hclosed hsound₁
    · rw [step_of_lexeme hrest hd, beginOperand_eq]
      refine traced_build_of_checked (Build.performAll_eq_return _)
        (Operator.check_parts (Operator.beforeIn_subset _)) hsound htext fun a₁ hsound₁ => ?_
      exact traced_readOperand ⟨hsound₁, hskip, hbehind⟩ hrest start.solid_skipLayout hd

/-! ### Runs -/

theorem Visits.traced (h : Visits source c) : Traced source c := by
  induction h with
  | refl =>
    have hsound : ({} : Jvm.Pool).Sound := ⟨Jvm.Pool.valid_empty, List.forall_mem_nil _⟩
    exact ⟨hsound, .outside rfl (readTo_refl source), rfl⟩
  | tail _ hstep ih =>
    have hnext := ih.step
    rw [hstep] at hnext
    exact hnext

/-- An error of the compiler is found at a cursor and refers to a place that it has read. -/
theorem exists_faults {e : Error} (hlength : source.length < 2 ^ 32)
    (he : (compile source).1 = .error e) :
    ∃ mark cursor : Cursor, mark.text = source ∧ mark.Leads cursor ∧
      e = cursor.errorAt mark e.cause ∧ Culprit source mark.offset e.cause := by
  obtain ⟨c, c', hvisits, hstop⟩ := exists_stop_of_error hlength he
  have hfaults := hvisits.traced.step
  rw [hstop] at hfaults
  obtain ⟨mark, htext, hleads, herr, hculprit⟩ := hfaults
  refine ⟨mark, c'.cursor, htext, hleads, herr, hculprit.resolve_left ?_⟩
  intro hdefect
  have hcause := (hvisits.balanced hlength).cause hlength hstop
  revert hcause hdefect
  cases e.cause <;> simp [Cause.OfText, Cause.OfConstant, Cause.isDefect]

/-- A form that prints nothing can be built from the start. -/
theorem exists_print_empty : ∃ a a' : Assembly, Form.start .print {} = (.ok .print, a) ∧
    Form.print.finish a = (.ok .void, a') := by
  have hdepth : ∀ es ∈ (Operator.print.opens ++ Operator.print.closes 0).inits,
      0 ≤ Emission.depth es ∧ Emission.depth es < Jvm.Body.depthBound := by decide
  obtain ⟨a', h⟩ := Assembly.holds_empty.exists_performAll (by decide) fun es hes =>
    hdepth es ((List.mem_inits _ _).2 hes)
  obtain ⟨a, hopens, hcloses⟩ := Build.performAll_append_ok.1 h
  refine ⟨a, a', ?_, ?_⟩
  · rw [Form.start_eq]
    exact Build.performAll_return.2 ⟨hopens, rfl⟩
  · rw [Form.finish_eq]
    exact Build.performAll_return.2 ⟨hcloses, rfl⟩

end Compiler

end JvmLisp
