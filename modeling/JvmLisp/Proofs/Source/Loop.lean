import JvmLisp.Proofs.Source.Line
import JvmLisp.Proofs.Source.Lookahead
import Mathlib.Data.PFun

/-! # Loops over a text

Reading by loops that end only when an iteration leaves them. An iteration gives the result with
which it leaves the loop, on the left, or the state in which it goes on, on the right. The loop is
the fixed point of its iteration, a partial function: nothing bounds it beforehand. The cursor keeps
a record of its steps, in which also a step at the end of the text counts, which consumes nothing.

An iteration leaves its loop or goes on behind at least one character. So the loops end, and they
read what is read without them, with one step for each character.
-/

namespace JvmLisp.Source

/-- A cursor with a record of its steps. -/
structure Recorder where
  cursor : Cursor
  /-- What each step has given, the last one first. -/
  given : List (Option Char) := []

namespace Recorder

variable {r r' r'' : Recorder} {n m : Nat} {c : Char}

def advance (r : Recorder) : Recorder :=
  ⟨r.cursor.next.2, r.cursor.next.1 :: r.given⟩

/-- A number of steps leads from one to the other, and each of them consumes a character. -/
def Passes (r : Recorder) (n : Nat) (r' : Recorder) : Prop :=
  n ≤ r.cursor.rest.length ∧ advance^[n] r = r'

def Reaches (r r' : Recorder) : Prop :=
  ∃ n, r.Passes n r'

/-- At least one character has been consumed. -/
def Advances (r r' : Recorder) : Prop :=
  ∃ n, 0 < n ∧ r.Passes n r'

theorem cursor_advance (r : Recorder) : r.advance.cursor = r.cursor.advance :=
  congrArg Prod.snd r.cursor.next_eq

@[simp] theorem advance_cons (before rest : List Char) (given : List (Option Char)) :
    advance ⟨⟨before, c :: rest⟩, given⟩ = ⟨⟨c :: before, rest⟩, some c :: given⟩ := rfl

/-- The steps have given the characters that lie between, each of them once. -/
theorem iterate_advance (before rest : List Char) (given : List (Option Char))
    (h : n ≤ rest.length) : advance^[n] ⟨⟨before, rest⟩, given⟩ =
      ⟨⟨(rest.take n).reverse ++ before, rest.drop n⟩,
        ((rest.take n).map some).reverse ++ given⟩ := by
  induction n generalizing before rest given with
  | zero => rfl
  | succ n ih =>
    cases rest with
    | nil => simp at h
    | cons c rest =>
      rw [Function.iterate_succ_apply, advance_cons, ih _ _ _ (Nat.le_of_succ_le_succ h)]
      simp

theorem Passes.length (h : r.Passes n r') : n + r'.cursor.rest.length = r.cursor.rest.length := by
  obtain ⟨hn, rfl⟩ := h
  rcases r with ⟨⟨before, rest⟩, given⟩
  simp only at hn
  rw [iterate_advance before rest given hn]
  simp only [List.length_drop]
  omega

theorem Passes.trans (h : r.Passes n r') (h' : r'.Passes m r'') : r.Passes (m + n) r'' := by
  have hlength := h.length
  obtain ⟨hm, rfl⟩ := h'
  refine ⟨by omega, ?_⟩
  rw [Function.iterate_add_apply, h.2]

theorem Reaches.refl (r : Recorder) : r.Reaches r :=
  ⟨0, Nat.zero_le _, rfl⟩

theorem Reaches.trans (h : r.Reaches r') (h' : r'.Reaches r'') : r.Reaches r'' := by
  obtain ⟨n, h⟩ := h
  obtain ⟨m, h'⟩ := h'
  exact ⟨m + n, h.trans h'⟩

/-- What is reached with less text ahead has been advanced to. -/
theorem Reaches.advances (h : r.Reaches r')
    (hlt : r'.cursor.rest.length < r.cursor.rest.length) : r.Advances r' := by
  obtain ⟨n, h⟩ := h
  have hlength := h.length
  exact ⟨n, by omega, h⟩

theorem Advances.reaches (h : r.Advances r') : r.Reaches r' := by
  obtain ⟨n, -, h⟩ := h
  exact ⟨n, h⟩

theorem Advances.trans (h : r.Advances r') (h' : r'.Reaches r'') : r.Advances r'' := by
  obtain ⟨n, hn, h⟩ := h
  obtain ⟨m, h'⟩ := h'
  exact ⟨m + n, by omega, h.trans h'⟩

theorem Advances.length_lt (h : r.Advances r') :
    r'.cursor.rest.length < r.cursor.rest.length := by
  obtain ⟨n, hn, h⟩ := h
  have hlength := h.length
  omega

theorem advances_cons (c : Char) (before rest : List Char) (given : List (Option Char)) :
    Advances ⟨⟨before, c :: rest⟩, given⟩ ⟨⟨c :: before, rest⟩, some c :: given⟩ :=
  ⟨1, Nat.one_pos, by simp, rfl⟩

theorem advances_advance {rest : List Char} (h : r.cursor.rest = c :: rest) :
    r.Advances r.advance := by
  rcases r with ⟨⟨before, _⟩, given⟩
  obtain rfl := h
  exact advances_cons c before rest given

end Recorder

/-! ### Progress of a loop -/

variable {σ ρ : Type} {place : σ → Recorder} {turn : σ →. ρ ⊕ σ} {Good : σ → ρ → Prop}

/-- Every iteration leaves the loop or advances. -/
def Progresses (place : σ → Recorder) (turn : σ →. ρ ⊕ σ) : Prop :=
  ∀ s, (∃ r, turn s = Part.some (.inl r)) ∨
    ∃ s', turn s = Part.some (.inr s') ∧ (place s).Advances (place s')

/-- Every iteration leaves the loop with a good result, or it advances and whatever is good from
there on is good. -/
def Proceeds (place : σ → Recorder) (turn : σ →. ρ ⊕ σ) (Good : σ → ρ → Prop) : Prop :=
  ∀ s, (∃ r, turn s = Part.some (.inl r) ∧ Good s r) ∨
    ∃ s', turn s = Part.some (.inr s') ∧ (place s).Advances (place s') ∧ ∀ r, Good s' r → Good s r

theorem Proceeds.progresses (h : Proceeds place turn Good) : Progresses place turn := by
  intro s
  rcases h s with ⟨r, hleave, -⟩ | ⟨s', hagain, hadvances, -⟩
  · exact .inl ⟨r, hleave⟩
  · exact .inr ⟨s', hagain, hadvances⟩

theorem fix_of_leave {s : σ} {r : ρ} (h : turn s = Part.some (.inl r)) :
    turn.fix s = Part.some r :=
  Part.eq_some_iff.2 (PFun.fix_stop (Part.eq_some_iff.1 h))

theorem fix_of_again {s s' : σ} (h : turn s = Part.some (.inr s')) : turn.fix s = turn.fix s' :=
  PFun.fix_fwd_eq (Part.eq_some_iff.1 h)

/-- The text ahead gets shorter, so the loop ends. -/
theorem Proceeds.ends (h : Proceeds place turn Good) (s : σ) :
    ∃ r, turn.fix s = Part.some r ∧ Good s r := by
  induction hn : (place s).cursor.rest.length using Nat.strong_induction_on generalizing s with
  | _ n ih =>
    rcases h s with ⟨r, hleave, hgood⟩ | ⟨s', hagain, hadvances, hgood⟩
    · exact ⟨r, fix_of_leave hleave, hgood⟩
    · obtain ⟨r, hr, hgood'⟩ := ih _ (hn ▸ hadvances.length_lt) s' rfl
      exact ⟨r, (fix_of_again hagain).trans hr, hgood r hgood'⟩

namespace Recorder

variable {α : Type} {r r' : Recorder}

/-- Stops with an error, where the cursor of the record does. -/
def fail (r : Recorder) (mark : Cursor) (fault : Malformed) : Except Error α × Recorder :=
  ((r.cursor.fail mark fault).1, r)

/-! ### Layout -/

/-- An iteration over the characters of a comment. -/
def commentTurn : Recorder →. Recorder ⊕ Recorder := fun r =>
  match r.cursor.peek with
  | some c => if c != '\n' then Part.some (.inr r.advance) else Part.some (.inl r)
  | none => Part.some (.inl r)

/-- An iteration over white space and comments. -/
def layoutTurn : Recorder →. Recorder ⊕ Recorder := fun r =>
  match r.cursor.peek with
  | some c =>
    if Text.isBlank c then Part.some (.inr r.advance)
    else if c == ';' then do return .inr (← commentTurn.fix r)
    else Part.some (.inl r)
  | none => Part.some (.inl r)

def skipLayout : Recorder →. Recorder :=
  layoutTurn.fix

theorem proceeds_commentTurn : Proceeds id commentTurn fun r r' => r.Reaches r' ∧
    Cursor.skipLayoutFrom true r.cursor.before r.cursor.rest = r'.cursor.skipLayout := by
  rintro ⟨⟨before, _ | ⟨c, rest⟩⟩, given⟩
  · exact .inl ⟨_, rfl, .refl _, rfl⟩
  · by_cases hc : c = '\n'
    · subst hc
      exact .inl ⟨_, rfl, .refl _, rfl⟩
    · have hadvances := advances_cons c before rest given
      refine .inr ⟨_, by simp [commentTurn, Cursor.peek, hc], hadvances, ?_⟩
      rintro r' ⟨hreaches, hskip⟩
      refine ⟨hadvances.reaches.trans hreaches, ?_⟩
      rw [← hskip, Cursor.skipLayoutFrom, if_pos (by simpa using hc)]

/-- A comment is consumed at least to behind its semicolon, and what follows is layout as before. -/
theorem comment_ends (before rest : List Char) (given : List (Option Char)) :
    ∃ r, commentTurn.fix ⟨⟨before, ';' :: rest⟩, given⟩ = Part.some r ∧
      Advances ⟨⟨before, ';' :: rest⟩, given⟩ r ∧
      Cursor.skipLayout ⟨before, ';' :: rest⟩ = r.cursor.skipLayout := by
  have hadvances := advances_cons ';' before rest given
  obtain ⟨r, hloop, hreaches, hskip⟩ :=
    proceeds_commentTurn.ends ⟨⟨';' :: before, rest⟩, some ';' :: given⟩
  have hturn : commentTurn ⟨⟨before, ';' :: rest⟩, given⟩ =
      Part.some (.inr ⟨⟨';' :: before, rest⟩, some ';' :: given⟩) := rfl
  refine ⟨r, (fix_of_again hturn).trans hloop, hadvances.trans hreaches, ?_⟩
  rw [← hskip]
  simp [Cursor.skipLayout, Cursor.skipLayoutFrom, isBlank_semicolon]

theorem proceeds_layoutTurn : Proceeds id layoutTurn fun r r' => r.Reaches r' ∧
    r'.cursor = r.cursor.skipLayout := by
  rintro ⟨⟨before, _ | ⟨c, rest⟩⟩, given⟩
  · exact .inl ⟨_, rfl, .refl _, rfl⟩
  · by_cases hblank : Text.isBlank c = true
    · have hadvances := advances_cons c before rest given
      refine .inr ⟨_, by simp [layoutTurn, Cursor.peek, hblank], hadvances, ?_⟩
      rintro r' ⟨hreaches, hskip⟩
      refine ⟨hadvances.reaches.trans hreaches, hskip.trans ?_⟩
      simp [Cursor.skipLayout, Cursor.skipLayoutFrom, hblank]
    · by_cases hc : c = ';'
      · subst hc
        obtain ⟨r, hloop, hadvances, hskip⟩ := comment_ends before rest given
        refine .inr ⟨r, by simp [layoutTurn, Cursor.peek, hblank, hloop], hadvances, ?_⟩
        rintro r' ⟨hreaches, hskip'⟩
        exact ⟨hadvances.reaches.trans hreaches, hskip'.trans hskip.symm⟩
      · exact .inl ⟨_, by simp [layoutTurn, Cursor.peek, hblank, hc], .refl _,
          by simp [Cursor.skipLayout, Cursor.skipLayoutFrom, hblank, hc]⟩

theorem skipLayout_ends (r : Recorder) :
    ∃ r', r.skipLayout = Part.some r' ∧ r.Reaches r' ∧ r'.cursor = r.cursor.skipLayout :=
  proceeds_layoutTurn.ends r

/-! ### Lexemes -/

/-- What reading has come to, and where, is as expected. -/
def Gets (r : Recorder) (result : α × Recorder) (expected : α × Cursor) : Prop :=
  r.Reaches result.2 ∧ (result.1, result.2.cursor) = expected

/-- An iteration over the characters of an atom, of which those read so far are given, the last one
first. -/
def atomTurn : List Char × Recorder →. (List Char × Recorder) ⊕ (List Char × Recorder) :=
  fun (atom, r) =>
    match r.cursor.peek with
    | some c =>
      if isAtomic c then Part.some (.inr (c :: atom, r.advance))
      else Part.some (.inl (atom.reverse, r))
    | none => Part.some (.inl (atom.reverse, r))

/-- An iteration over the characters of a quoted text. An escape is consumed as a whole. -/
def textTurn (opening : Cursor) :
    List Char × Recorder →. (Except Error String × Recorder) ⊕ (List Char × Recorder) :=
  fun (content, r) =>
    match r.cursor.peek with
    | none => Part.some (.inl (r.fail opening .unterminatedText))
    | some c =>
      if c = '"' then Part.some (.inl (.ok (String.ofList content.reverse), r.advance))
      else if c = '\n' then Part.some (.inl (r.fail opening .unterminatedText))
      else if c = '\\' then
        match r.advance.cursor.peek with
        | none => Part.some (.inl (r.advance.fail opening .unterminatedText))
        | some d =>
          match Lexeme.unescape d with
          | some e => Part.some (.inr (e :: content, r.advance.advance))
          | none =>
            if d = '\n' then Part.some (.inl (r.advance.fail opening .unterminatedText))
            else Part.some (.inl (r.advance.fail r.cursor (.invalidEscape d)))
      else Part.some (.inr (c :: content, r.advance))

def readOpening (opening : Recorder) : Part (Except Error Lexeme × Recorder) := do
  let head ← opening.advance.skipLayout
  match head.cursor.peek with
  | none => return head.fail opening.cursor .unclosedForm
  | some c =>
    if c = ')' then return head.fail opening.cursor .emptyForm
    else if isStructural c then return head.fail head.cursor .missingName
    else
      let (name, behind) ← atomTurn.fix ([], head)
      match Operator.ofName? (String.ofList name) with
      | some operator => return (.ok (.opening operator), behind)
      | none => return behind.fail head.cursor (.unknownForm (String.ofList name))

def readAtom (start : Recorder) : Part (Except Error Lexeme × Recorder) := do
  let (atom, behind) ← atomTurn.fix ([], start)
  match readInteger atom with
  | .ok value => return (.ok (.integer value), behind)
  | .error fault => return behind.fail start.cursor fault

def read (start : Recorder) : Part (Except Error Lexeme × Recorder) :=
  match start.cursor.peek with
  | some '(' => start.readOpening
  | some '"' => do
    let (content, behind) ← (textTurn start.cursor).fix ([], start.advance)
    return (content.map .text, behind)
  | _ => start.readAtom

theorem Gets.here (r : Recorder) (x : α) : r.Gets (x, r) (x, r.cursor) :=
  ⟨.refl r, rfl⟩

theorem gets_fail (r : Recorder) (mark : Cursor) (fault : Malformed) :
    r.Gets (r.fail mark fault : Except Error α × Recorder) (r.cursor.fail mark fault) :=
  ⟨.refl r, rfl⟩

theorem Advances.gets {result : α × Recorder} {expected : α × Cursor} (h : r.Advances r')
    (h' : r'.Gets result expected) : r.Gets result expected :=
  ⟨h.reaches.trans h'.1, h'.2⟩

theorem proceeds_atomTurn : Proceeds Prod.snd atomTurn fun s result =>
    s.2.Gets result (s.1.reverse ++ (s.2.cursor.span isAtomic).1, (s.2.cursor.span isAtomic).2) := by
  rintro ⟨atom, ⟨⟨before, _ | ⟨c, rest⟩⟩, given⟩⟩
  · exact .inl ⟨_, rfl, .refl _, by simp [Cursor.span]⟩
  · by_cases hc : isAtomic c = true
    · have hadvances := advances_cons c before rest given
      have hturn : atomTurn (atom, ⟨⟨before, c :: rest⟩, given⟩) =
          Part.some (.inr (c :: atom, ⟨⟨c :: before, rest⟩, some c :: given⟩)) := by
        simp [atomTurn, Cursor.peek, hc]
      refine .inr ⟨_, hturn, hadvances, fun result hgets => ?_⟩
      simpa [Cursor.span, hc] using hadvances.gets hgets
    · have hturn : atomTurn (atom, ⟨⟨before, c :: rest⟩, given⟩) =
          Part.some (.inl (atom.reverse, ⟨⟨before, c :: rest⟩, given⟩)) := by
        simp [atomTurn, Cursor.peek, hc]
      exact .inl ⟨_, hturn, .refl _, by simp [Cursor.span, hc]⟩

theorem atom_ends (r : Recorder) :
    ∃ result, atomTurn.fix ([], r) = Part.some result ∧ r.Gets result (r.cursor.span isAtomic) :=
  proceeds_atomTurn.ends ([], r)

theorem proceeds_textTurn (opening : Cursor) : Proceeds Prod.snd (textTurn opening)
    fun s result => s.2.Gets result
      (Lexeme.readTextFrom opening s.1 s.2.cursor.before s.2.cursor.rest) := by
  rintro ⟨content, ⟨⟨before, rest⟩, given⟩⟩
  fun_cases Lexeme.readTextFrom opening content before rest with
  | case1 | case3 => exact .inl ⟨_, rfl, .here _ _⟩
  | case2 rest =>
    have hadvances := advances_cons '"' before rest given
    exact .inl ⟨_, rfl, hadvances.gets (.here _ _)⟩
  | case4 c rest d hd =>
    have hadvances := (advances_cons '\\' before (c :: rest) given).trans
      (advances_cons c ('\\' :: before) rest (some '\\' :: given)).reaches
    have hturn : textTurn opening (content, ⟨⟨before, '\\' :: c :: rest⟩, given⟩) =
        Part.some (.inr (d :: content,
          ⟨⟨c :: '\\' :: before, rest⟩, some c :: some '\\' :: given⟩)) := by
      simp [textTurn, Cursor.peek, hd]
    refine .inr ⟨_, hturn, hadvances, fun result hgets => ?_⟩
    simpa [Lexeme.readTextFrom, hd] using hadvances.gets hgets
  | case5 rest =>
    have hadvances := advances_cons '\\' before ('\n' :: rest) given
    exact .inl ⟨_, rfl, hadvances.gets (.here _ _)⟩
  | case6 c rest hd hc =>
    have hadvances := advances_cons '\\' before (c :: rest) given
    have hturn : textTurn opening (content, ⟨⟨before, '\\' :: c :: rest⟩, given⟩) =
        Part.some (.inl (fail ⟨⟨'\\' :: before, c :: rest⟩, some '\\' :: given⟩
          ⟨before, '\\' :: c :: rest⟩ (.invalidEscape c))) := by
      simp [textTurn, Cursor.peek, hd, hc]
    refine .inl ⟨_, hturn, ?_⟩
    simpa [Lexeme.readTextFrom, hd, hc] using hadvances.gets (gets_fail _ _ _)
  | case7 =>
    have hadvances := advances_cons '\\' before [] given
    exact .inl ⟨_, rfl, hadvances.gets (.here _ _)⟩
  | case8 c rest hquote hnewline hescape hend =>
    have hadvances := advances_cons c before rest given
    have hquote : c ≠ '"' := hquote
    have hnewline : c ≠ '\n' := hnewline
    have hne := Lexeme.ne_backslash hescape hend
    have hturn : textTurn opening (content, ⟨⟨before, c :: rest⟩, given⟩) =
        Part.some (.inr (c :: content, ⟨⟨c :: before, rest⟩, some c :: given⟩)) := by
      simp [textTurn, Cursor.peek, hquote, hnewline, hne]
    refine .inr ⟨_, hturn, hadvances, fun result hgets => hadvances.gets ?_⟩
    rwa [Lexeme.readTextFrom_plain hquote hne hnewline]

theorem text_ends (opening : Cursor) (r : Recorder) :
    ∃ result, (textTurn opening).fix ([], r) = Part.some result ∧
      r.Gets result (Lexeme.readTextFrom opening [] r.cursor.before r.cursor.rest) :=
  (proceeds_textTurn opening).ends ([], r)

theorem readAtom_ends (start : Recorder) :
    ∃ result, start.readAtom = Part.some result ∧ start.Gets result (Lexeme.readAtom start.cursor) := by
  obtain ⟨⟨atom, behind⟩, hloop, hreaches, hatom⟩ := atom_ends start
  simp only [readAtom, hloop, Lexeme.readAtom, ← hatom, Part.bind_eq_bind, Part.bind_some]
  rcases readInteger atom with fault | value
  · exact ⟨_, rfl, hreaches, rfl⟩
  · exact ⟨_, rfl, hreaches, rfl⟩

theorem readOpening_ends {opening : Recorder} {s : List Char}
    (hrest : opening.cursor.rest = '(' :: s) :
    ∃ result, opening.readOpening = Part.some result ∧
      opening.Gets result (Lexeme.readOpening opening.cursor) := by
  rcases opening with ⟨⟨before, rest⟩, given⟩
  obtain rfl : rest = '(' :: s := hrest
  have hadvances := advances_cons '(' before s given
  obtain ⟨head, hskip, hreaches, hcursor⟩ :=
    skipLayout_ends ⟨⟨'(' :: before, s⟩, some '(' :: given⟩
  have hhead := hadvances.trans hreaches
  simp only [readOpening, advance_cons, hskip, Lexeme.readOpening, Cursor.advance, ← hcursor,
    Part.bind_eq_bind, Part.bind_some]
  rcases head with ⟨⟨before', _ | ⟨c, rest⟩⟩, given'⟩
  · exact ⟨_, rfl, hhead.gets (gets_fail _ _ _)⟩
  · simp only [Cursor.peek, List.head?_cons]
    split
    · exact ⟨_, rfl, hhead.gets (gets_fail _ _ _)⟩
    · split
      · exact ⟨_, rfl, hhead.gets (gets_fail _ _ _)⟩
      · obtain ⟨⟨name, behind⟩, hloop, hreaches', hname⟩ :=
          atom_ends ⟨⟨before', c :: rest⟩, given'⟩
        simp only [hloop, ← hname, Part.bind_some]
        rcases Operator.ofName? (String.ofList name) with _ | operator
        · exact ⟨_, rfl, hhead.gets ⟨hreaches', rfl⟩⟩
        · exact ⟨_, rfl, hhead.gets ⟨hreaches', rfl⟩⟩

theorem read_ends (start : Recorder) :
    ∃ result, start.read = Part.some result ∧ start.Gets result (Lexeme.read start.cursor) := by
  rcases start with ⟨⟨before, _ | ⟨c, rest⟩⟩, given⟩
  · exact readAtom_ends ⟨⟨before, []⟩, given⟩
  · by_cases hopening : c = '('
    · subst hopening
      exact readOpening_ends rfl
    · by_cases hquote : c = '"'
      · subst hquote
        have hadvances := advances_cons '"' before rest given
        obtain ⟨⟨content, behind⟩, hloop, hreaches, hcontent⟩ :=
          text_ends ⟨before, '"' :: rest⟩ ⟨⟨'"' :: before, rest⟩, some '"' :: given⟩
        refine ⟨(content.map .text, behind), ?_, hadvances.reaches.trans hreaches, ?_⟩
        · simp [read, Cursor.peek, hloop]
        · rw [Lexeme.read_quote, ← hcontent]
      · rw [Lexeme.read_of_ne hopening hquote]
        have hread : read ⟨⟨before, c :: rest⟩, given⟩ = readAtom ⟨⟨before, c :: rest⟩, given⟩ := by
          simp only [read, Cursor.peek, List.head?_cons]
          split <;> simp_all
        rw [hread]
        exact readAtom_ends _

end Recorder

end JvmLisp.Source
