import JvmLisp.Source.Lexeme
import Mathlib.Data.List.TakeWhile
import Mathlib.Data.Nat.Digits.Defs
import Mathlib.Tactic

/-! # The grammar of tokens

A token is a lexeme or a closing parenthesis. Each relation of the grammar holds between a text and
the rest of it: `Layout s r` says that `s` is layout and then `r`. That is how a rule can look at
what follows, as a comment and an atom must: both end only where they cannot go on.

Layout is cut off in one way only if what follows is no layout itself, so a text is scanned into
tokens in at most one way.
-/

namespace JvmLisp.Source

inductive Token where
  | lexeme (l : Lexeme)
  | closing
deriving DecidableEq

/-- White space and comments. A comment goes on to a line feed or to the end of the text. -/
inductive Layout : List Char → List Char → Prop
  | done (r : List Char) : Layout r r
  | blank {c : Char} {s r : List Char} : Text.isBlank c → Layout s r → Layout (c :: s) r
  | comment {body s r : List Char} : '\n' ∉ body → s = [] ∨ s.head? = some '\n' → Layout s r →
    Layout (';' :: (body ++ s)) r

/-- The longest run of atomic characters at the start of a text. It is not empty. -/
structure Atom (a s r : List Char) : Prop where
  split : s = a ++ r
  nonempty : a ≠ []
  atomic : ∀ c ∈ a, isAtomic c
  maximal : ∀ c, r.head? = some c → ¬isAtomic c

/-- The content of a quoted text behind its opening mark. -/
inductive Quoted : List Char → List Char → List Char → Prop
  | closing (r : List Char) : Quoted [] ('"' :: r) r
  | plain {c : Char} {content s r : List Char} : c ≠ '"' → c ≠ '\\' → c ≠ '\n' →
    Quoted content s r → Quoted (c :: content) (c :: s) r
  | escape {c d : Char} {content s r : List Char} : Lexeme.unescape c = some d →
    Quoted content s r → Quoted (d :: content) ('\\' :: c :: s) r

/-- The number that decimal digits stand for. -/
def decimalValue (digits : List Char) : Nat :=
  Nat.ofDigits 10 (digits.reverse.map fun c => c.toNat - '0'.toNat)

/-- A sign, which may be missing, and digits. They spell a value only if it fits a word. -/
inductive Numeral : List Char → Int64 → Prop
  | positive {sign digits : List Char} {v : Int64} : sign = [] ∨ sign = ['+'] → digits ≠ [] →
    (∀ c ∈ digits, c.isDigit) → v.toInt = decimalValue digits → Numeral (sign ++ digits) v
  | negative {digits : List Char} {v : Int64} : digits ≠ [] → (∀ c ∈ digits, c.isDigit) →
    v.toInt = -decimalValue digits → Numeral ('-' :: digits) v

inductive Spells : Token → List Char → List Char → Prop
  | closing (r : List Char) : Spells .closing (')' :: r) r
  | opening {op : Operator} {s t r : List Char} : Layout s t → Atom op.name.toList t r →
    Spells (.lexeme (.opening op)) ('(' :: s) r
  | text {content s r : List Char} : Quoted content s r →
    Spells (.lexeme (.text (String.ofList content))) ('"' :: s) r
  | integer {a s r : List Char} {v : Int64} : Atom a s r → Numeral a v →
    Spells (.lexeme (.integer v)) s r

/-- Tokens with layout between them. -/
inductive Scan : List Token → List Char → List Char → Prop
  | nil (s : List Char) : Scan [] s s
  | cons {t : Token} {ts : List Token} {s s' s'' r : List Char} : Layout s s' → Spells t s' s'' →
    Scan ts s'' r → Scan (t :: ts) s r

/-! ### Layout -/

/-- Neither white space nor a comment starts here. -/
def Solid (s : List Char) : Prop :=
  ∀ c, s.head? = some c → Text.isBlank c = false ∧ c ≠ ';'

theorem solid_nil : Solid [] := by
  simp [Solid]

theorem Layout.trans {s t r : List Char} (h : Layout s t) (h' : Layout t r) : Layout s r := by
  induction h with
  | done => exact h'
  | blank hc _ ih => exact .blank hc (ih h')
  | comment hbody hend _ ih => exact .comment hbody hend (ih h')

theorem Solid.layout_eq {s r : List Char} (hs : Solid s) (h : Layout s r) : r = s := by
  cases h with
  | done => rfl
  | blank hc => simp [(hs _ rfl).1] at hc
  | comment => exact absurd rfl (hs _ rfl).2

theorem isBlank_semicolon : Text.isBlank ';' = false := by
  decide

/-- A run of elements with a property, followed by something without it. -/
theorem span_append {α : Type} {p : α → Bool} {a r : List α} (ha : ∀ c ∈ a, p c)
    (hr : ∀ c, r.head? = some c → ¬p c) :
    (a ++ r).takeWhile p = a ∧ (a ++ r).dropWhile p = r := by
  rw [List.takeWhile_append_of_pos ha, List.dropWhile_append_of_pos ha]
  cases r with
  | nil => simp
  | cons c r => simp [hr c rfl]

/-- A run and what follows it are found in the whole. -/
theorem span_append_inj {α : Type} {p : α → Bool} {a b r s : List α} (ha : ∀ c ∈ a, p c)
    (hb : ∀ c ∈ b, p c) (hr : ∀ c, r.head? = some c → ¬p c) (hs : ∀ c, s.head? = some c → ¬p c)
    (h : a ++ r = b ++ s) : a = b ∧ r = s := by
  constructor
  · rw [← (span_append ha hr).1, h, (span_append hb hs).1]
  · rw [← (span_append ha hr).2, h, (span_append hb hs).2]

/-- A comment has one end: no part of it can stand for a line end. -/
theorem comment_unique {body body' s s' : List Char} (hbody : '\n' ∉ body) (hbody' : '\n' ∉ body')
    (hs : s = [] ∨ s.head? = some '\n') (hs' : s' = [] ∨ s'.head? = some '\n')
    (h : body ++ s = body' ++ s') : s = s' := by
  have cut {b t : List Char} (hb : '\n' ∉ b) (ht : t = [] ∨ t.head? = some '\n') :
      (b ++ t).dropWhile (· != '\n') = t := by
    refine (span_append ?_ ?_).2
    · intro c hc
      simpa using fun heq : c = '\n' => hb (heq ▸ hc)
    · intro c hc
      rcases ht with rfl | ht
      · simp at hc
      · obtain rfl := Option.some.inj (ht.symm.trans hc)
        simp
  rw [← cut hbody hs, h, cut hbody' hs']

/-- Layout is followed by only one text that is not layout. -/
theorem Layout.unique {s r r' : List Char} (h : Layout s r) (h' : Layout s r') (hr : Solid r)
    (hr' : Solid r') : r = r' := by
  induction h with
  | done => exact (hr.layout_eq h').symm
  | blank hc _ ih =>
    cases h' with
    | done => exact absurd hc (by simp [(hr' _ rfl).1])
    | blank _ h' => exact ih h' hr
    | comment => exact absurd hc (by simp [isBlank_semicolon])
  | @comment body s r hbody hend h ih =>
    generalize hs : ';' :: (body ++ s) = text at h'
    cases h' with
    | done => exact absurd rfl (hr' _ (congrArg List.head? hs).symm).2
    | blank hc =>
      obtain ⟨rfl, -⟩ := List.cons.inj hs
      exact absurd hc (by simp [isBlank_semicolon])
    | comment hbody' hend' h' =>
      obtain rfl := comment_unique hbody hbody' hend hend' (List.cons.inj hs).2
      exact ih h' hr

/-! ### Atoms -/

theorem atom_iff {a s r : List Char} :
    Atom a s r ↔ a = s.takeWhile isAtomic ∧ r = s.dropWhile isAtomic ∧ a ≠ [] := by
  constructor
  · rintro ⟨rfl, hne, hatomic, hmax⟩
    obtain ⟨htake, hdrop⟩ := span_append hatomic hmax
    exact ⟨htake.symm, hdrop.symm, hne⟩
  · rintro ⟨rfl, rfl, hne⟩
    refine ⟨List.takeWhile_append_dropWhile.symm, hne, ?_, ?_⟩
    · intro c hc
      exact List.mem_takeWhile_imp hc
    intro c hc hatomic
    have := List.head?_dropWhile_not isAtomic s
    simp_all

theorem Atom.head {a s r : List Char} (h : Atom a s r) : ∃ c, s.head? = some c ∧ isAtomic c := by
  obtain ⟨c, a', rfl⟩ := List.exists_cons_of_ne_nil h.nonempty
  exact ⟨c, by rw [h.split]; rfl, h.atomic c (by simp)⟩

theorem Atom.not_structural {a s r : List Char} {c : Char} (h : Atom a (c :: s) r) :
    isStructural c = false := by
  obtain ⟨d, hd, hatomic⟩ := h.head
  obtain rfl := Option.some.inj hd
  simp only [isAtomic, Bool.and_eq_true, Bool.not_eq_true'] at hatomic
  exact hatomic.2

theorem Atom.solid {a s r : List Char} (h : Atom a s r) : Solid s := by
  obtain ⟨c, hc, hatomic⟩ := h.head
  intro d hd
  obtain rfl := Option.some.inj (hc.symm.trans hd)
  simp only [isAtomic, isStructural, Bool.and_eq_true, Bool.not_eq_true', Bool.or_eq_false_iff,
    beq_eq_false_iff_ne] at hatomic
  exact ⟨hatomic.1, hatomic.2.2⟩

theorem Spells.solid {t : Token} {s r : List Char} (h : Spells t s r) : Solid s := by
  cases h with
  | integer h => exact h.solid
  | _ =>
    intro c hc
    obtain rfl := Option.some.inj hc
    decide

end JvmLisp.Source
