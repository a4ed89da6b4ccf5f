import JvmLisp.Operator
import JvmLisp.Source.Cursor
import JvmLisp.Source.Integer
import JvmLisp.Text.Blank

/-! # Lexemes

The parts of a source text: the opening of a form with its name, quoted text and integers. Between
them stands layout, which is white space and comments. Reading gives the lexeme at the cursor, or
the error there, and the cursor behind what was read.

The main statement is that a lexeme is never empty: the cursor behind it has less text ahead.
-/

namespace JvmLisp.Source

inductive Lexeme where
  | opening (operator : Operator)
  | text (content : String)
  | integer (value : Int64)
deriving DecidableEq

/-- These characters end an atom. -/
def isStructural (c : Char) : Bool :=
  c == '(' || c == ')' || c == '"' || c == ';'

def isAtomic (c : Char) : Bool :=
  !Text.isBlank c && !isStructural c

namespace Cursor

/-- Skips white space and comments. A comment starts with a semicolon and ends before a line feed. -/
def skipLayoutFrom (inComment : Bool) (before : List Char) : List Char → Cursor
  | [] => ⟨before, []⟩
  | c :: rest =>
    if inComment && c != '\n' then skipLayoutFrom true (c :: before) rest
    else if Text.isBlank c then skipLayoutFrom false (c :: before) rest
    else if c == ';' then skipLayoutFrom true (c :: before) rest
    else ⟨before, c :: rest⟩

def skipLayout (c : Cursor) : Cursor :=
  skipLayoutFrom false c.before c.rest

/-- An error at a mark, with the line as far as the cursor has read it. -/
def errorAt (c mark : Cursor) (cause : Cause) : Error :=
  ⟨cause, some (c.locate mark.position)⟩

/-- Stops at the cursor, with a fault at a mark. -/
def fail {α : Type} (c mark : Cursor) (fault : Malformed) : Except Error α × Cursor :=
  (.error (c.errorAt mark (.malformed fault)), c)

end Cursor

namespace Lexeme

/-- The character that an escape stands for. -/
def unescape : Char → Option Char
  | 'n' => some '\n'
  | 't' => some '\t'
  | 'r' => some '\r'
  | '\\' => some '\\'
  | '"' => some '"'
  | _ => none

/-- Reads quoted text up to the closing mark, which must stand on the line of the opening one.
`content` holds the characters read so far, the last one first. -/
def readTextFrom (opening : Cursor) (content before : List Char) :
    List Char → Except Error String × Cursor
  | [] => Cursor.fail ⟨before, []⟩ opening .unterminatedText
  | '"' :: rest => (.ok (String.ofList content.reverse), ⟨'"' :: before, rest⟩)
  | '\n' :: rest => Cursor.fail ⟨before, '\n' :: rest⟩ opening .unterminatedText
  | '\\' :: c :: rest =>
    match unescape c with
    | some d => readTextFrom opening (d :: content) (c :: '\\' :: before) rest
    | none =>
      if c = '\n' then Cursor.fail ⟨'\\' :: before, c :: rest⟩ opening .unterminatedText
      else Cursor.fail ⟨'\\' :: before, c :: rest⟩ ⟨before, '\\' :: c :: rest⟩ (.invalidEscape c)
  | ['\\'] => Cursor.fail ⟨'\\' :: before, []⟩ opening .unterminatedText
  | c :: rest => readTextFrom opening (c :: content) (c :: before) rest

/-- Reads the name behind an opening parenthesis. -/
def readOpening (opening : Cursor) : Except Error Lexeme × Cursor :=
  let head := opening.advance.skipLayout
  match head.rest with
  | [] => head.fail opening .unclosedForm
  | c :: _ =>
    if c = ')' then head.fail opening .emptyForm
    else if isStructural c then head.fail head .missingName
    else
      let (name, cursor) := head.span isAtomic
      match Operator.ofName? (String.ofList name) with
      | some operator => (.ok (.opening operator), cursor)
      | none => cursor.fail head (.unknownForm (String.ofList name))

def readAtom (start : Cursor) : Except Error Lexeme × Cursor :=
  let (atom, cursor) := start.span isAtomic
  match readInteger atom with
  | .ok value => (.ok (.integer value), cursor)
  | .error fault => cursor.fail start fault

/-- Reads the lexeme at the cursor. -/
def read (start : Cursor) : Except Error Lexeme × Cursor :=
  match start.rest with
  | '(' :: _ => readOpening start
  | '"' :: rest =>
    match readTextFrom start [] ('"' :: start.before) rest with
    | (.ok content, cursor) => (.ok (.text content), cursor)
    | (.error e, cursor) => (.error e, cursor)
  | _ => readAtom start

end Lexeme

/-! ### Progress -/

theorem Cursor.skipLayoutFrom_length_le (inComment : Bool) (before text : List Char) :
    (skipLayoutFrom inComment before text).rest.length ≤ text.length := by
  induction text generalizing inComment before with
  | nil => simp [skipLayoutFrom]
  | cons c rest ih =>
    have h₁ := ih true (c :: before)
    have h₂ := ih false (c :: before)
    simp only [skipLayoutFrom, List.length_cons]
    split
    · omega
    · split
      · omega
      · split
        · omega
        · simp

theorem Cursor.skipLayout_length_le (c : Cursor) : c.skipLayout.rest.length ≤ c.rest.length :=
  skipLayoutFrom_length_le false c.before c.rest

theorem Cursor.advance_length (c : Cursor) : c.advance.rest.length = c.rest.length - 1 := by
  rcases c with ⟨before, _ | ⟨c, rest⟩⟩ <;> simp [advance]

theorem Cursor.span_length_le (p : Char → Bool) (c : Cursor) :
    (c.span p).2.rest.length ≤ c.rest.length :=
  (List.dropWhile_sublist p).length_le

namespace Lexeme

theorem readTextFrom_length_le (opening : Cursor) (content before text : List Char) :
    (readTextFrom opening content before text).2.rest.length ≤ text.length := by
  fun_induction readTextFrom opening content before text <;> simp_all [Cursor.fail] <;> omega

theorem readOpening_length_lt {start cursor : Cursor} {lexeme : Lexeme} (h : start.rest ≠ [])
    (hr : readOpening start = (.ok lexeme, cursor)) : cursor.rest.length < start.rest.length := by
  have h₀ : 0 < start.rest.length := List.length_pos_iff.2 h
  have h₁ := start.advance.skipLayout_length_le
  have h₂ := start.advance_length
  have h₃ := Cursor.span_length_le isAtomic start.advance.skipLayout
  simp only [readOpening, Cursor.fail] at hr
  split at hr
  · simp at hr
  · split at hr
    · simp at hr
    · split at hr
      · simp at hr
      · split at hr
        · obtain ⟨_, rfl⟩ := Prod.mk.inj hr
          omega
        · simp at hr

theorem readAtom_length_lt {start cursor : Cursor} {lexeme : Lexeme}
    (hr : readAtom start = (.ok lexeme, cursor)) : cursor.rest.length < start.rest.length := by
  have happ : start.rest.takeWhile isAtomic ++ start.rest.dropWhile isAtomic = start.rest :=
    List.takeWhile_append_dropWhile
  simp only [readAtom, Cursor.span, Cursor.fail] at hr
  split at hr
  · rename_i value hvalue
    obtain ⟨_, rfl⟩ := Prod.mk.inj hr
    have hne : start.rest.takeWhile isAtomic ≠ [] := by
      intro hnil
      rw [hnil] at hvalue
      simp [readInteger, splitSign] at hvalue
    have hlen := congrArg List.length happ
    have hpos := List.length_pos_iff.2 hne
    simp only [List.length_append] at hlen
    simp only
    omega
  · simp at hr

/-- A lexeme is not empty. -/
theorem read_length_lt {start cursor : Cursor} {lexeme : Lexeme}
    (hr : read start = (.ok lexeme, cursor)) : cursor.rest.length < start.rest.length := by
  unfold read at hr
  split at hr
  · rename_i rest hrest
    exact readOpening_length_lt (by simp [hrest]) hr
  · rename_i rest hrest
    have hle := readTextFrom_length_le start [] ('"' :: start.before) rest
    split at hr
    · rename_i content next hnext
      obtain ⟨_, rfl⟩ := Prod.mk.inj hr
      rw [hnext] at hle
      simp only [hrest, List.length_cons]
      exact Nat.lt_succ_of_le hle
    · simp at hr
  · exact readAtom_length_lt hr

end Lexeme
end JvmLisp.Source
