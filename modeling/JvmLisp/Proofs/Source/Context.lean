import JvmLisp.Proofs.Source.Place

/-! # Open parentheses

Which parentheses are open at a place can be told from the characters in front of it, one by one,
with no grammar: a parenthesis counts unless it stands in a quoted text or in a comment. Reading
keeps to this count. Layout, literals and names leave it as it is, an opening adds its own
parenthesis, and a lexeme always ends in the code.
-/

namespace JvmLisp.Source

/-- What the next character is part of. -/
inductive Region where
  | code
  | comment
  | text
  /-- In a text, behind a backslash. -/
  | escape
deriving DecidableEq

def Region.next : Region → Char → Region
  | code, c => if c = ';' then comment else if c = '"' then text else code
  | comment, c => if c = '\n' then code else comment
  | text, c => if c = '"' then code else if c = '\\' then escape else text
  | escape, _ => text

/-- The region behind some characters, which are given the last one first, and the offsets of the
parentheses that are open there, the innermost first. -/
def nesting : List Char → Region × List Nat
  | [] => (.code, [])
  | c :: before =>
    let (region, opened) := nesting before
    (region.next c,
      if region = .code ∧ c = '(' then before.length :: opened
      else if region = .code ∧ c = ')' then opened.tail
      else opened)

/-- The offsets of the parentheses that are open at the end of a text, the innermost first. -/
def openForms (s : List Char) : List Nat :=
  (nesting s.reverse).2

example : openForms "(print \"(\" ; (\n (+ 1 (+ 2)".toList = [16, 0] := by decide

variable {before : List Char} {opened : List Nat} {c : Char}

theorem nesting_of_ne_code {region : Region} (h : nesting before = (region, opened))
    (hregion : region ≠ .code) (c : Char) :
    nesting (c :: before) = (region.next c, opened) := by
  simp [nesting, h, hregion]

theorem nesting_of_not_structural (h : nesting before = (.code, opened))
    (hc : isStructural c = false) : nesting (c :: before) = (.code, opened) := by
  simp only [isStructural, Bool.or_eq_false_iff, beq_eq_false_iff_ne] at hc
  simp [nesting, h, hc, Region.next]

theorem isStructural_of_isBlank (h : Text.isBlank c = true) : isStructural c = false := by
  by_contra hc
  simp only [isStructural, Bool.not_eq_false, Bool.or_eq_true, beq_iff_eq] at hc
  rcases hc with ((rfl | rfl) | rfl) | rfl <;> exact absurd h (by decide)

namespace Cursor

/-- Behind layout there is code, unless a comment has gone on to the end of the text. -/
theorem nesting_skipLayoutFrom (inComment : Bool) (rest : List Char)
    (h : nesting before = (if inComment then .comment else .code, opened)) :
    ∃ region, nesting (skipLayoutFrom inComment before rest).before = (region, opened) ∧
      ((skipLayoutFrom inComment before rest).rest ≠ [] → region = .code) := by
  induction rest generalizing inComment before with
  | nil => exact ⟨_, h, fun hne => absurd rfl hne⟩
  | cons d rest ih =>
    rw [skipLayoutFrom]
    cases inComment with
    | true =>
      have hcomment : nesting before = (.comment, opened) := h
      have hd := nesting_of_ne_code hcomment (by decide) d
      by_cases hline : d = '\n'
      · subst hline
        exact ih false hd
      · rw [if_pos (by simp [hline])]
        exact ih true (hd.trans (by simp [Region.next, hline]))
    | false =>
      have hcode : nesting before = (.code, opened) := h
      rw [if_neg (by simp)]
      split
      · rename_i hblank
        exact ih false
          (nesting_of_not_structural hcode (isStructural_of_isBlank hblank))
      · split
        · rename_i hcomment
          obtain rfl := eq_of_beq hcomment
          exact ih true (by simp [nesting, hcode, Region.next])
        · exact ⟨.code, hcode, fun _ => rfl⟩

theorem nesting_skipLayout {start : Cursor} (h : nesting start.before = (.code, opened)) :
    ∃ region, nesting start.skipLayout.before = (region, opened) ∧
      (start.skipLayout.rest ≠ [] → region = .code) :=
  nesting_skipLayoutFrom false start.rest h

theorem nesting_span {start : Cursor} (h : nesting start.before = (.code, opened)) :
    nesting (start.span isAtomic).2.before = (.code, opened) := by
  have hrun (run before : List Char) (hbefore : nesting before = (.code, opened))
      (hall : ∀ c ∈ run, isAtomic c = true) :
      nesting (run.reverseAux before) = (.code, opened) := by
    induction run generalizing before with
    | nil => exact hbefore
    | cons c run ih =>
      have hc := hall c List.mem_cons_self
      rw [isAtomic, Bool.and_eq_true, Bool.not_eq_true', Bool.not_eq_true'] at hc
      exact ih _ (nesting_of_not_structural hbefore hc.2) fun d hd =>
        hall d (List.mem_cons_of_mem c hd)
  exact hrun _ _ h fun c hc => List.mem_takeWhile_imp hc

end Cursor

namespace Lexeme

/-- The parentheses that are open behind a lexeme which starts at an offset. -/
def opensAt (k : Nat) (opened : List Nat) : Lexeme → List Nat
  | opening _ => k :: opened
  | text _ | integer _ => opened

theorem nesting_readTextFrom {opening cursor : Cursor} {content s : List Char} {t : String}
    (h : nesting before = (.text, opened))
    (hread : readTextFrom opening content before s = (.ok t, cursor)) :
    nesting cursor.before = (.code, opened) := by
  fun_induction readTextFrom opening content before s with
  | case2 content before rest =>
    obtain ⟨-, rfl⟩ := Prod.mk.inj hread
    exact nesting_of_ne_code h (by decide) '"'
  | case4 content before c rest d hd ih =>
    have hescape := nesting_of_ne_code h (by decide) '\\'
    exact ih (nesting_of_ne_code hescape (by decide) c) hread
  | case8 content before c rest hquote hnewline hescape hend ih =>
    have hquote : c ≠ '"' := hquote
    have hne := ne_backslash hescape hend
    refine ih ((nesting_of_ne_code h (by decide) c).trans ?_) hread
    simp [Region.next, hquote, hne]
  | _ => simp [Cursor.fail] at hread

/-- Behind the parenthesis of a form, and layout, the parenthesis is open. -/
theorem nesting_head {start : Cursor} {s : List Char} (h : nesting start.before = (.code, opened))
    (hrest : start.rest = '(' :: s) :
    ∃ region, nesting start.advance.skipLayout.before = (region, start.offset :: opened) ∧
      (start.advance.skipLayout.rest ≠ [] → region = .code) := by
  rcases start with ⟨before, rest⟩
  obtain rfl : rest = '(' :: s := hrest
  apply Cursor.nesting_skipLayout
  simp only at h
  simp [Cursor.advance, nesting, h, Region.next, Cursor.offset]

theorem nesting_readOpening {start cursor : Cursor} {s : List Char} {l : Lexeme}
    (h : nesting start.before = (.code, opened)) (hrest : start.rest = '(' :: s)
    (hread : readOpening start = (.ok l, cursor)) :
    nesting cursor.before = (.code, l.opensAt start.offset opened) := by
  obtain ⟨region, hhead, hregion⟩ := nesting_head h hrest
  simp only [readOpening, Cursor.fail] at hread
  split at hread
  · cases hread
  · rename_i d t ht
    obtain rfl := hregion (by simp [ht])
    split at hread
    · cases hread
    · split at hread
      · cases hread
      · split at hread
        · obtain ⟨hl, rfl⟩ := Prod.mk.inj hread
          obtain rfl := Except.ok.inj hl
          exact Cursor.nesting_span hhead
        · cases hread

theorem nesting_readAtom {start cursor : Cursor} {l : Lexeme}
    (h : nesting start.before = (.code, opened)) (hread : readAtom start = (.ok l, cursor)) :
    nesting cursor.before = (.code, l.opensAt start.offset opened) := by
  simp only [readAtom, Cursor.fail] at hread
  split at hread
  · obtain ⟨hl, rfl⟩ := Prod.mk.inj hread
    obtain rfl := Except.ok.inj hl
    exact Cursor.nesting_span h
  · cases hread

/-- A lexeme ends in the code. -/
theorem nesting_read {start cursor : Cursor} {l : Lexeme}
    (h : nesting start.before = (.code, opened)) (hread : read start = (.ok l, cursor)) :
    nesting cursor.before = (.code, l.opensAt start.offset opened) := by
  rcases start with ⟨before, _ | ⟨d, rest⟩⟩
  · exact nesting_readAtom h hread
  · by_cases hopening : d = '('
    · subst hopening
      exact nesting_readOpening h rfl hread
    · by_cases hquote : d = '"'
      · subst hquote
        have htext : nesting ('"' :: before) = (.text, opened) := by
          simp only at h
          simp [nesting, h, Region.next]
        simp only [read] at hread
        split at hread
        · rename_i hcontent
          obtain ⟨hl, rfl⟩ := Prod.mk.inj hread
          obtain rfl := Except.ok.inj hl
          exact nesting_readTextFrom htext hcontent
        · cases hread
      · rw [read_of_ne hopening hquote] at hread
        exact nesting_readAtom h hread

end Lexeme

end JvmLisp.Source
