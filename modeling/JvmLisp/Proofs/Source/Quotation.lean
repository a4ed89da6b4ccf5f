import JvmLisp.Proofs.Source.Fault
import JvmLisp.Proofs.Source.Flaw
import JvmLisp.Proofs.Source.Lookahead

/-! # Quoted text

Every text can be written between quotation marks on one line and read back. What follows an opening
mark comes to one of three ends, whichever is first: the closing mark, the end of the line, or a
backslash in front of a character that has no meaning there. Reading tells which.
-/

namespace JvmLisp.Source

/-- A character as it is written between quotation marks: by its escape if it has one. -/
def writeChar : Char → List Char
  | '\n' => ['\\', 'n']
  | '\t' => ['\\', 't']
  | '\r' => ['\\', 'r']
  | '\\' => ['\\', '\\']
  | '"' => ['\\', '"']
  | c => [c]

/-- A text between quotation marks. -/
def writeText (t : List Char) : List Char :=
  '"' :: (t.flatMap writeChar ++ ['"'])

/-- The line ends in front of the closing mark, or behind a backslash. -/
def Unterminated (s : List Char) : Prop :=
  ∃ t r, InText s t ∧ (t = r ∨ t = '\\' :: r) ∧ LineEnds r

/-- A character that has no escape, nor ends the line, is the first to stand behind a backslash. -/
def Misescapes (s : List Char) (c : Char) : Prop :=
  ∃ r, InText s ('\\' :: c :: r) ∧ c ∉ ['n', 't', 'r', '\\', '"', '\n']

variable {s t r content before : List Char} {c : Char} {opening cursor : Cursor}

theorem quoted_writeChar (h : Quoted t s r) (c : Char) : Quoted (c :: t) (writeChar c ++ s) r := by
  unfold writeChar
  split
  · exact .escape (by rfl) h
  · exact .escape (by rfl) h
  · exact .escape (by rfl) h
  · exact .escape (by rfl) h
  · exact .escape (by rfl) h
  · rename_i hnewline _ _ hbackslash hquote
    exact .plain hquote hbackslash hnewline h

theorem quoted_flatMap_writeChar (t r : List Char) :
    Quoted t (t.flatMap writeChar ++ '"' :: r) r := by
  induction t with
  | nil => exact .closing r
  | cons c t ih =>
    rw [List.flatMap_cons, List.append_assoc]
    exact quoted_writeChar ih c

theorem not_atom_quote (h : Atom t ('"' :: s) r) : False :=
  absurd h.not_structural (by decide)

theorem Cursor.eq_of_text_rest {c c' : Cursor} (htext : c.text = c'.text)
    (hrest : c.rest = c'.rest) : c = c' := by
  rcases c with ⟨before, rest⟩
  rcases c' with ⟨before', rest'⟩
  obtain rfl : rest = rest' := hrest
  simpa [Cursor.text] using htext

namespace Lexeme

theorem unescape_eq_none_iff : unescape c = none ↔ c ∉ ['n', 't', 'r', '\\', '"'] := by
  unfold unescape
  split <;> simp_all

/-- Reading passes over the characters of a text. -/
theorem readTextFrom_of_inText (h : InText s r) (opening : Cursor) (content before : List Char) :
    ∃ content' before', readTextFrom opening content before s =
      readTextFrom opening content' before' r := by
  induction h generalizing content before with
  | done r => exact ⟨content, before, rfl⟩
  | plain hquote hbackslash hnewline _ ih =>
    rw [readTextFrom_plain hquote hbackslash hnewline]
    exact ih _ _
  | escape hd _ ih =>
    rw [readTextFrom, hd]
    exact ih _ _

theorem readTextFrom_of_unterminated (h : Unterminated s) (opening : Cursor)
    (content before : List Char) :
    ∃ cursor, readTextFrom opening content before s =
      Cursor.fail cursor opening .unterminatedText := by
  obtain ⟨t, r, htext, ht, hr⟩ := h
  obtain ⟨content', before', hread⟩ := readTextFrom_of_inText htext opening content before
  rw [hread]
  rcases r with _ | ⟨d, r⟩
  · rcases ht with rfl | rfl
    · exact ⟨_, rfl⟩
    · exact ⟨_, rfl⟩
  · obtain rfl : d = '\n' := by simpa [LineEnds] using hr
    rcases ht with rfl | rfl
    · exact ⟨_, rfl⟩
    · exact ⟨_, rfl⟩

theorem readTextFrom_of_misescapes (h : Misescapes s c) (opening : Cursor)
    (content before : List Char) :
    ∃ cursor mark, readTextFrom opening content before s =
      Cursor.fail cursor mark (.invalidEscape c) := by
  obtain ⟨r, htext, hc⟩ := h
  obtain ⟨content', before', hread⟩ := readTextFrom_of_inText htext opening content before
  have hescape : unescape c = none := unescape_eq_none_iff.2 (by simp_all)
  have hnewline : c ≠ '\n' := by simp_all
  rw [hread, readTextFrom, hescape]
  exact ⟨_, _, if_neg hnewline⟩

/-- What makes reading fail at an opening mark. -/
theorem cause_of_read_quote {e : Error} (h : read ⟨before, '"' :: s⟩ = (.error e, cursor)) :
    (e.cause = .malformed .unterminatedText ∧ Unterminated s) ∨
      ∃ c, e.cause = .malformed (.invalidEscape c) ∧ Misescapes s c := by
  have hsolid : Solid ('"' :: s) := by
    intro d hd
    obtain rfl := Option.some.inj hd
    decide
  rcases blames_read rfl hsolid (by decide) h with hblames | ⟨hd, -⟩
  · obtain ⟨mark, fault, rfl, -, -, hflaw⟩ := hblames
    generalize mark.rest = found at hflaw
    cases hflaw with
    | unterminatedText htext hr hends => exact .inl ⟨rfl, _, _, htext, hr, hends⟩
    | invalidEscape htext hc hnewline =>
      refine .inr ⟨_, rfl, _, htext, ?_⟩
      rw [unescape_eq_none_iff] at hc
      simp_all
    | outOfRange hatom | notALiteral hatom => exact (not_atom_quote hatom).elim
  · cases hd

theorem read_quote_eq_ok {l : Lexeme} :
    read ⟨before, '"' :: s⟩ = (.ok l, cursor) ↔ ∃ t, Quoted t s cursor.rest ∧
      l = .text (String.ofList t) ∧ cursor.text = Cursor.text ⟨before, '"' :: s⟩ := by
  constructor
  · intro h
    have hleads := leads_read ⟨before, '"' :: s⟩
    rw [h] at hleads
    cases spells_of_read h with
    | text hquoted => exact ⟨_, hquoted, rfl, hleads.text_eq⟩
    | integer hatom => exact (not_atom_quote hatom).elim
  · rintro ⟨t, hquoted, rfl, htext⟩
    obtain ⟨cursor', hrest, hread⟩ := read_of_spells (.text hquoted) before
    have hleads := leads_read ⟨before, '"' :: s⟩
    rw [hread] at hleads
    have hcursor : cursor' = cursor :=
      Cursor.eq_of_text_rest (hleads.text_eq.trans htext.symm) hrest
    rw [hread, hcursor]

/-! ### Messages -/

theorem message_unterminatedText :
    (Cause.malformed .unterminatedText).message = "syntax error: unterminated string" := rfl

theorem message_invalidEscape (c : Char) :
    (Cause.malformed (.invalidEscape c)).message =
      "syntax error: invalid escape sequence: \\" ++ c.toString :=
  Malformed.cause_message rfl (by decide)

theorem message_invalidEscape_ne (c : Char) :
    (Cause.malformed (.invalidEscape c)).message ≠
      (Cause.malformed .unterminatedText).message := by
  -- The fifteenth character tells them apart.
  rw [message_invalidEscape]
  exact append_ne_of_getElem? 14 (by decide) (by decide)

theorem message_invalidEscape_inj {d : Char}
    (h : (Cause.malformed (.invalidEscape c)).message =
      (Cause.malformed (.invalidEscape d)).message) : c = d := by
  rw [message_invalidEscape, message_invalidEscape, String.append_right_inj] at h
  simpa [Char.toString] using h

/-- A text that is written between quotation marks is read back, and what follows it is left. From
any text that starts with a quotation mark, reading gives a content exactly if what it consumes is a
way to write that content. It fails exactly in two cases: the text is unterminated, if the line ends
before anything else, or an escape is invalid, if a backslash stands before another character. -/
theorem read_quotation (before : List Char) :
    (∀ t r, read ⟨before, writeText t ++ r⟩ =
      (.ok (.text (String.ofList t)), ⟨(writeText t).reverse ++ before, r⟩)) ∧
    ∀ s,
      (∀ l cursor, read ⟨before, '"' :: s⟩ = (.ok l, cursor) ↔ ∃ t, Quoted t s cursor.rest ∧
        l = .text (String.ofList t) ∧ cursor.text = Cursor.text ⟨before, '"' :: s⟩) ∧
      (∀ e cursor, read ⟨before, '"' :: s⟩ = (.error e, cursor) →
        e.message = "syntax error: unterminated string" ∨
          ∃ c : Char, e.message = "syntax error: invalid escape sequence: \\" ++ c.toString) ∧
      ((∃ e cursor, read ⟨before, '"' :: s⟩ = (.error e, cursor) ∧
        e.message = "syntax error: unterminated string") ↔ Unterminated s) ∧
      ∀ c : Char, (∃ e cursor, read ⟨before, '"' :: s⟩ = (.error e, cursor) ∧
        e.message = "syntax error: invalid escape sequence: \\" ++ c.toString) ↔
          Misescapes s c := by
  simp only [← message_unterminatedText, ← message_invalidEscape]
  refine ⟨?_, fun s => ⟨fun l cursor => read_quote_eq_ok, ?_, ?_, ?_⟩⟩
  · intro t r
    have hwritten : writeText t ++ r = '"' :: (t.flatMap writeChar ++ '"' :: r) := by
      simp [writeText]
    rw [hwritten, read_quote_eq_ok]
    exact ⟨t, quoted_flatMap_writeChar t r, rfl, by simp [Cursor.text, writeText]⟩
  · intro e cursor hread
    obtain ⟨hcause, -⟩ | ⟨c, hcause, -⟩ := cause_of_read_quote hread
    · exact .inl (by rw [Error.message, hcause])
    · exact .inr ⟨c, by rw [Error.message, hcause]⟩
  · constructor
    · rintro ⟨e, cursor, hread, hmessage⟩
      obtain ⟨-, hends⟩ | ⟨c, hcause, -⟩ := cause_of_read_quote hread
      · exact hends
      · rw [Error.message, hcause] at hmessage
        exact absurd hmessage (message_invalidEscape_ne c)
    · intro hends
      obtain ⟨cursor, hread⟩ :=
        readTextFrom_of_unterminated hends ⟨before, '"' :: s⟩ [] ('"' :: before)
      exact ⟨_, cursor, by rw [read_quote, hread]; rfl, rfl⟩
  · intro c
    constructor
    · rintro ⟨e, cursor, hread, hmessage⟩
      obtain ⟨hcause, -⟩ | ⟨d, hcause, hescape⟩ := cause_of_read_quote hread
      · rw [Error.message, hcause] at hmessage
        exact absurd hmessage.symm (message_invalidEscape_ne c)
      · rw [Error.message, hcause] at hmessage
        rwa [← message_invalidEscape_inj hmessage]
    · intro hescape
      obtain ⟨cursor, mark, hread⟩ :=
        readTextFrom_of_misescapes hescape ⟨before, '"' :: s⟩ [] ('"' :: before)
      exact ⟨_, cursor, by rw [read_quote, hread]; rfl, rfl⟩

/-- An escaped mark does not end the text, and a bad escape comes before the end of the line. -/
theorem read_quotation_escapes :
    (∃ e cursor, read ⟨[], "\"a\\\"\\q\n".toList⟩ = (.error e, cursor) ∧
      e.message = "syntax error: invalid escape sequence: \\q") ∧
    read ⟨[], "\"\\n\\\\\"\"".toList⟩ = (.ok (.text "\n\\"), ⟨"\"\\\\n\\\"".toList, ['"']⟩) := by
  obtain ⟨hwritten, houtcome⟩ := read_quotation []
  refine ⟨?_, hwritten ['\n', '\\'] ['"']⟩
  apply ((houtcome "a\\\"\\q\n".toList).2.2.2 'q').2
  refine ⟨['\n'], .plain (by decide) (by decide) (by decide) (.escape rfl (.done _)), by decide⟩

end Lexeme

end JvmLisp.Source
