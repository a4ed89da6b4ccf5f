import JvmLisp.Proofs.Source.Place

/-! # Flaws of a lexeme

Why a text cannot be read as a lexeme, and at which of its characters the fault is found: a form
that has no name at its parenthesis, a name or a literal at its first character, a quoted text that
does not end at its opening mark, and an escape at its backslash. Reading that fails gives such a
fault, at its place. The one exception is a form whose text ends before its name, which is a matter
of the open parentheses.
-/

namespace JvmLisp.Source

/-- Characters of a quoted text, up to a point in front of its closing mark. -/
inductive InText : List Char → List Char → Prop
  | done (r : List Char) : InText r r
  | plain {c : Char} {s r : List Char} : c ≠ '"' → c ≠ '\\' → c ≠ '\n' → InText s r →
    InText (c :: s) r
  | escape {c d : Char} {s r : List Char} : Lexeme.unescape c = some d → InText s r →
    InText ('\\' :: c :: s) r

theorem InText.trans {s t r : List Char} (h : InText s t) (h' : InText t r) : InText s r := by
  induction h with
  | done => exact h'
  | plain hquote hbackslash hnewline _ ih => exact .plain hquote hbackslash hnewline (ih h')
  | escape hd _ ih => exact .escape hd (ih h')

/-- The line goes no further. -/
def LineEnds (r : List Char) : Prop :=
  r = [] ∨ r.head? = some '\n'

/-- A sign, which may be missing, and digits, whatever their value. -/
def IsDecimal (a : List Char) : Prop :=
  ∃ sign digits : List Char, (sign = [] ∨ sign = ['+'] ∨ sign = ['-']) ∧ a = sign ++ digits ∧
    digits ≠ [] ∧ ∀ c ∈ digits, c.isDigit

/-- A lexeme that starts a text has a fault, which is found where another text starts. -/
inductive Flaw : List Char → List Char → Malformed → Prop
  | emptyForm {s r : List Char} : Layout s (')' :: r) → Flaw ('(' :: s) ('(' :: s) .emptyForm
  | missingName {s r : List Char} {c : Char} : Layout s (c :: r) → c = '(' ∨ c = '"' →
    Flaw ('(' :: s) (c :: r) .missingName
  | unknownForm {s t r name : List Char} : Layout s t → Atom name t r →
    (∀ op : Operator, op.name ≠ String.ofList name) →
    Flaw ('(' :: s) t (.unknownForm (String.ofList name))
  | unterminatedText {s t r : List Char} : InText s t → t = r ∨ t = '\\' :: r → LineEnds r →
    Flaw ('"' :: s) ('"' :: s) .unterminatedText
  | invalidEscape {c : Char} {s r : List Char} : InText s ('\\' :: c :: r) →
    Lexeme.unescape c = none → c ≠ '\n' → Flaw ('"' :: s) ('\\' :: c :: r) (.invalidEscape c)
  | outOfRange {a s r : List Char} : Atom a s r → IsDecimal a → (∀ v, ¬Numeral a v) →
    Flaw s s (.outOfRange (String.ofList a))
  | notALiteral {a s r : List Char} : Atom a s r → ¬IsDecimal a →
    Flaw s s (.notALiteral (String.ofList a))

/-- An error that refers to the place of a flaw, which has been read. -/
def Cursor.Blames (start cursor : Cursor) (e : Error) : Prop :=
  ∃ mark fault, e = cursor.errorAt mark (.malformed fault) ∧ start.Leads mark ∧
    mark.Leads cursor ∧ Flaw start.rest mark.rest fault

theorem isDecimal_iff {a : List Char} :
    IsDecimal a ↔ (splitSign a).2 ≠ [] ∧ ∀ c ∈ (splitSign a).2, c.isDigit := by
  constructor
  · rintro ⟨sign, digits, hsign, rfl, hne, hdigits⟩
    rcases hsign with rfl | rfl | rfl
    · rw [List.nil_append, splitSign_of_isDigit hdigits]
      exact ⟨hne, hdigits⟩
    · exact ⟨hne, hdigits⟩
    · exact ⟨hne, hdigits⟩
  · rintro ⟨hne, hdigits⟩
    rcases hsplit : splitSign a with ⟨negative, digits⟩
    rw [hsplit] at hne hdigits
    unfold splitSign at hsplit
    split at hsplit <;> obtain ⟨-, rfl⟩ := Prod.mk.inj hsplit
    · exact ⟨['-'], _, .inr (.inr rfl), rfl, hne, hdigits⟩
    · exact ⟨['+'], _, .inr (.inl rfl), rfl, hne, hdigits⟩
    · exact ⟨[], a, .inl rfl, rfl, hne, hdigits⟩

theorem readInteger_eq_error {a : List Char} {fault : Malformed}
    (h : readInteger a = .error fault) :
    (IsDecimal a ∧ (∀ v, ¬Numeral a v) ∧ fault = .outOfRange (String.ofList a)) ∨
      (¬IsDecimal a ∧ fault = .notALiteral (String.ofList a)) := by
  have hnone (v : Int64) : ¬Numeral a v := by
    rw [← readInteger_eq_ok, h]
    exact nofun
  have hdigits : ((splitSign a).2.isEmpty || !(splitSign a).2.all Char.isDigit) = true ↔
      ¬IsDecimal a := by
    simp [isDecimal_iff, -not_and, not_and_or]
  simp only [readInteger] at h
  split at h
  · rename_i hbad
    obtain rfl := Except.error.inj h
    exact .inr ⟨hdigits.1 hbad, rfl⟩
  · rename_i hgood
    split at h
    · cases h
    · obtain rfl := Except.error.inj h
      exact .inl ⟨not_not.1 (mt hdigits.2 hgood), hnone, rfl⟩

namespace Lexeme

open Cursor (Blames Leads leads_cons)

variable {start cursor : Cursor} {e : Error}

theorem blames_fail {α : Type} {mark behind : Cursor} {fault : Malformed}
    (hmark : start.Leads mark) (hcursor : mark.Leads cursor)
    (hflaw : Flaw start.rest mark.rest fault)
    (h : (cursor.fail mark fault : Except Error α × Cursor) = (.error e, behind)) :
    Blames start behind e := by
  obtain ⟨he, rfl⟩ := Prod.mk.inj h
  obtain rfl := Except.error.inj he
  exact ⟨mark, fault, rfl, hmark, hcursor, hflaw⟩

/-- What has been read of a quoted text lies between the opening mark and the cursor. -/
theorem blames_readTextFrom {opening : Cursor} {content before s s₀ : List Char}
    (hopening : opening.rest = '"' :: s₀) (hleads : opening.Leads ⟨before, s⟩) (htext : InText s₀ s)
    (hread : readTextFrom opening content before s = (.error e, cursor)) :
    Blames opening cursor e := by
  -- A text that ends too early is found at its opening mark, which the cursor has passed.
  have hunterminated {behind : Cursor} {t r : List Char} (hbehind : opening.Leads behind)
      (ht : InText s₀ t) (hr : t = r ∨ t = '\\' :: r) (hends : LineEnds r)
      (hfail : (behind.fail opening .unterminatedText : Except Error String × Cursor) =
        (.error e, cursor)) : Blames opening cursor e :=
    blames_fail (.refl opening) hbehind (hopening ▸ .unterminatedText ht hr hends) hfail
  fun_induction readTextFrom opening content before s with
  | case1 content before =>
    exact hunterminated hleads htext (.inl rfl) (.inl rfl) hread
  | case2 content before rest => cases hread
  | case3 content before rest =>
    exact hunterminated hleads htext (.inl rfl) (.inr rfl) hread
  | case4 content before c rest d hd ih =>
    refine ih ?_ (htext.trans (.escape hd (.done rest))) hread
    exact (hleads.trans (leads_cons '\\' before _)).trans (leads_cons c _ rest)
  | case5 content before rest =>
    exact hunterminated (hleads.trans (leads_cons '\\' before _)) htext (.inr rfl) (.inr rfl)
      hread
  | case6 content before c rest hc hnewline =>
    refine blames_fail hleads (leads_cons '\\' before _) ?_ hread
    rw [hopening]
    exact .invalidEscape htext hc hnewline
  | case7 content before =>
    exact hunterminated (hleads.trans (leads_cons '\\' before _)) htext (.inr rfl) (.inl rfl)
      hread
  | case8 content before c rest hquote hnewline hescape hend ih =>
    have hbackslash := ne_backslash hescape hend
    exact ih (hleads.trans (leads_cons c before rest))
      (htext.trans (.plain hquote hbackslash hnewline (.done rest))) hread

theorem blames_readAtom {d : Char} {s : List Char} (hrest : start.rest = d :: s)
    (hatomic : isAtomic d) (hread : readAtom start = (.error e, cursor)) :
    Blames start cursor e := by
  have hspan := Cursor.leads_span isAtomic start
  have hatom : Atom (start.span isAtomic).1 start.rest (start.span isAtomic).2.rest :=
    atom_iff.2 ⟨rfl, rfl, by simp [Cursor.span, hrest, hatomic]⟩
  simp only [readAtom] at hread
  split at hread
  · cases hread
  · rename_i fault hfault
    refine blames_fail (.refl start) hspan ?_ hread
    rcases readInteger_eq_error hfault with ⟨hdecimal, hnone, rfl⟩ | ⟨hdecimal, rfl⟩
    · exact .outOfRange hatom hdecimal hnone
    · exact .notALiteral hatom hdecimal

/-- At an opening parenthesis, the text may also end before there is a name. -/
theorem blames_readOpening {s : List Char} (hrest : start.rest = '(' :: s)
    (hread : readOpening start = (.error e, cursor)) :
    Blames start cursor e ∨ cursor = start.advance.skipLayout ∧ cursor.rest = [] ∧
      e = cursor.errorAt start (.malformed .unclosedForm) := by
  have hhead : start.Leads start.advance.skipLayout :=
    (Cursor.leads_advance start).trans (Cursor.leads_skipLayout start.advance)
  have hspan := Cursor.leads_span isAtomic start.advance.skipLayout
  have hlayout : Layout s start.advance.skipLayout.rest := by
    rcases start with ⟨before, rest⟩
    obtain rfl : rest = '(' :: s := hrest
    exact Cursor.layout_skipLayout ⟨'(' :: before, s⟩
  have hsolid : Solid start.advance.skipLayout.rest := Cursor.solid_skipLayout start.advance
  simp only [readOpening] at hread
  split at hread
  · rename_i hnil
    obtain ⟨he, rfl⟩ := Prod.mk.inj hread
    exact .inr ⟨rfl, hnil, (Except.error.inj he).symm⟩
  · rename_i d t ht
    left
    rw [ht] at hlayout hsolid
    split at hread
    · rename_i hd
      subst hd
      refine blames_fail (.refl start) hhead ?_ hread
      rw [hrest]
      exact .emptyForm hlayout
    · rename_i hclosing
      split at hread
      · rename_i hstructural
        refine blames_fail hhead (.refl _) ?_ hread
        rw [hrest, ht]
        refine .missingName hlayout ?_
        simpa [isStructural, hclosing, (hsolid d rfl).2] using hstructural
      · rename_i hstructural
        have hatom : Atom (start.advance.skipLayout.span isAtomic).1 start.advance.skipLayout.rest
            (start.advance.skipLayout.span isAtomic).2.rest := by
          refine atom_iff.2 ⟨rfl, rfl, ?_⟩
          simp [Cursor.span, ht, isAtomic, hstructural, (hsolid d rfl).1]
        split at hread
        · cases hread
        · rename_i hname
          refine blames_fail hhead hspan ?_ hread
          rw [hrest]
          refine .unknownForm (ht ▸ hlayout) hatom ?_
          intro op hop
          rw [ofName?_eq_some.2 hop.symm] at hname
          cases hname

/-- Reading that fails where a lexeme is looked for gives the place of a flaw, unless the text ends
behind an opening parenthesis. -/
theorem blames_read {d : Char} {s : List Char} (hrest : start.rest = d :: s)
    (hsolid : Solid start.rest) (hd : d ≠ ')') (hread : read start = (.error e, cursor)) :
    Blames start cursor e ∨ d = '(' ∧ cursor = start.advance.skipLayout ∧ cursor.rest = [] ∧
      e = cursor.errorAt start (.malformed .unclosedForm) := by
  rcases start with ⟨before, rest⟩
  obtain rfl : rest = d :: s := hrest
  by_cases hopening : d = '('
  · subst hopening
    exact (blames_readOpening rfl hread).imp id fun h => ⟨rfl, h⟩
  · left
    by_cases hquote : d = '"'
    · subst hquote
      simp only [read] at hread
      split at hread
      · cases hread
      · rename_i hcontent
        obtain ⟨he, rfl⟩ := Prod.mk.inj hread
        obtain rfl := Except.error.inj he
        exact blames_readTextFrom rfl (leads_cons '"' before s) (.done s) hcontent
    · rw [read_of_ne hopening hquote] at hread
      refine blames_readAtom rfl ?_ hread
      obtain ⟨hblank, hcomment⟩ := hsolid d rfl
      simp [isAtomic, isStructural, hblank, hopening, hd, hquote, hcomment]

end Lexeme

end JvmLisp.Source
