import JvmLisp.Proofs.Program.Caret
import JvmLisp.Proofs.Text.Spelling

/-! # Reports of three lines

A report is the place with the message, the quoted line, and the caret with the blanks in front of
it. It has no other lines, whatever of the source text the message quotes: names and numerals are
read up to white space, a character behind a backslash is no line feed, and the content of a quoted
text is quoted again with its line feeds as escapes.
-/

namespace JvmLisp

open Source (Atom Cursor Flaw lineAt positionAt)

namespace Text

/-! ### Texts on one line -/

def OneLine (t : String) : Prop :=
  '\n' ∉ t.toList

@[simp] theorem oneLine_append {s t : String} : OneLine (s ++ t) ↔ OneLine s ∧ OneLine t := by
  simp [OneLine]

theorem oneLine_ofList {s : List Char} : OneLine (String.ofList s) ↔ '\n' ∉ s := by
  rw [OneLine, String.toList_ofList]

theorem oneLine_toString (n : Nat) : OneLine (toString n) := by
  rw [OneLine, Nat.toString_eq_repr, Nat.toList_repr]
  exact newline_notMem_toDigits n

theorem newline_notMem_escape (mark c : Char) : '\n' ∉ escape mark c := by
  unfold escape
  split_ifs with h₀ ht hn
  · decide
  · decide
  · decide
  · decide
  · simp [Ne.symm hn]
  · simp [Ne.symm hn]
  · exact (Written.code c).newline_notMem

theorem oneLine_quoteChar (c : Char) : OneLine (quoteChar c) := by
  simpa [quoteChar, quoteWith, OneLine] using newline_notMem_escape '\x27' c

end Text

open Text (OneLine oneLine_append oneLine_ofList oneLine_toString)

/-! ### Messages -/

theorem Source.Atom.newline_notMem {a s r : List Char} (h : Atom a s r) : '\n' ∉ a := by
  intro hmem
  have hatomic := h.atomic _ hmem
  revert hatomic
  decide

theorem Source.Flaw.oneLine_message {s t : List Char} {fault : Malformed} (h : Flaw s t fault) :
    OneLine fault.message := by
  cases h with
  | emptyForm =>
    change OneLine "empty form"
    simp [OneLine]
  | missingName =>
    change OneLine "expected a form name"
    simp [OneLine]
  | unterminatedText =>
    change OneLine "unterminated string"
    simp [OneLine]
  | @unknownForm _ _ _ name _ hatom =>
    change OneLine ("unknown form `" ++ String.ofList name ++ "`")
    simpa [OneLine] using hatom.newline_notMem
  | @outOfRange a _ _ hatom =>
    change OneLine ("integer literal `" ++ String.ofList a ++ "` is out of range")
    simpa [OneLine] using hatom.newline_notMem
  | @notALiteral a _ _ hatom =>
    change OneLine ("expected a literal, found `" ++ String.ofList a ++ "`")
    simpa [OneLine] using hatom.newline_notMem
  | @invalidEscape c _ _ _ _ hc =>
    change OneLine ("invalid escape sequence: \\" ++ c.toString)
    simpa [OneLine] using hc.symm

theorem Jvm.Pool.oneLine_of_checkText {text : String} {err : Error}
    (h : checkText text = .error err) : OneLine err.cause.message := by
  have hquote : '\n' ∉ (Text.quote text).toList := Text.newline_notMem_quote text
  simp only [checkText] at h
  split at h
  · rename_i c _
    have hchar : '\n' ∉ (Text.quoteChar c).toList := Text.oneLine_quoteChar c
    obtain rfl := Except.error.inj h
    by_cases hc : c.toNat = 0
    · rw [if_pos hc]
      change OneLine ("invalid constant: " ++
        ("text " ++ Text.quote text ++ " contains a null byte"))
      simpa [OneLine] using hquote
    · rw [if_neg hc]
      change OneLine ("invalid constant: " ++ ("character " ++ Text.quoteChar c ++ " in " ++
        Text.quote text ++ " is outside the supported one-byte range"))
      simpa [OneLine] using ⟨hchar, hquote⟩
  · split at h
    · cases h
    · obtain rfl := Except.error.inj h
      have hbytes : '\n' ∉ (toString text.utf8ByteSize).toList := oneLine_toString _
      change OneLine ("limit exceeded: " ++
        ("text constant of " ++ toString text.utf8ByteSize ++ " bytes exceeds 65535"))
      simpa [OneLine] using hbytes

theorem Culprit.oneLine_message {source : List Char} {k : Nat} {cause : Cause}
    (h : Culprit source k cause) : OneLine cause.message := by
  cases h with
  | unclosed =>
    change OneLine ("syntax error: " ++ "unclosed form")
    simp [OneLine]
  | stray =>
    change OneLine ("syntax error: " ++ "unexpected `)`")
    simp [OneLine]
  | full =>
    change OneLine ("limit exceeded: " ++ "constant pool is full (65535 slots)")
    simp [OneLine]
  | @flaw _ _ fault _ hflaw =>
    change OneLine ("syntax error: " ++ fault.message)
    simpa [OneLine] using hflaw.oneLine_message
  | constant _ _ _ hcheck => exact Jvm.Pool.oneLine_of_checkText hcheck
  | @operand f _ e =>
    have hname (type : ValueType) : '\n' ∉ type.name.toList := by cases type <;> simp [ValueType.name]
    cases f.operator with
    | print =>
      change OneLine ("type error: cannot print a value of type " ++ e.type.name)
      simpa [OneLine] using hname e.type
    | add =>
      change OneLine ("type mismatch: expected " ++ "long" ++ ", got " ++ e.type.name)
      simpa [OneLine] using hname e.type

/-! ### Reports -/

theorem Source.Position.oneLine_text (p : Position) : OneLine p.text := by
  rw [text, oneLine_append, oneLine_append]
  exact ⟨⟨oneLine_toString _, by simp [OneLine]⟩, oneLine_toString _⟩

theorem Source.newline_notMem_lineAt (n : Nat) (s : List Char) : '\n' ∉ lineAt n s := by
  induction n generalizing s with
  | zero =>
    intro h
    simpa using List.mem_takeWhile_imp h
  | succ n ih =>
    cases s with
    | nil => simp [lineAt]
    | cons c s => exact ih _

theorem Source.Cursor.oneLine_lineText (c : Cursor) (n : Nat) : OneLine (c.lineText n) := by
  cases n with
  | zero => simp [lineText, OneLine]
  | succ n =>
    rw [lineText, oneLine_ofList]
    intro h
    exact newline_notMem_lineAt n _ (List.mem_of_mem_filter h)

namespace Error

/-- A blank keeps a tab of the quoted line, and is a space behind the end of the line. -/
theorem getElem?_padding {text : List Char} {column j : Nat} (h : j < column - 1) :
    (padding text column)[j]? = some (if text[j]? = some '\t' then '\t' else ' ') := by
  rw [padding, List.getElem?_take_of_lt h]
  by_cases hj : j < text.length
  · rw [List.getElem?_append_left (by rwa [List.length_map])]
    simp [hj]
  · rw [List.getElem?_append_right (by rw [List.length_map]; omega), List.length_map]
    have hspace : (List.replicate (column - 1 - text.length) ' ')[j - text.length]? = some ' ' := by
      rw [List.getElem?_replicate, if_pos (by omega)]
    rw [hspace, List.getElem?_eq_none (by omega)]
    rfl

theorem newline_notMem_padding (line : List Char) (column : Nat) : '\n' ∉ padding line column := by
  intro h
  rcases List.mem_append.1 (List.mem_of_mem_take h) with h | h
  · obtain ⟨c, -, hc⟩ := List.mem_map.1 h
    split at hc <;> cases hc
  · cases List.eq_of_mem_replicate h

theorem render_eq {e : Error} {location : Source.Location} (h : e.location = some location) :
    e.render = location.position.text ++ ": " ++ e.message ++ "\n" ++ location.quoted ++ "\n" ++
      String.ofList (padding location.quoted.toList location.position.column) ++ "^" := by
  rw [render, h]

end Error

namespace Compiler

variable {source : List Char} {e : Error}

theorem pushText_of_checkText {text : String} {e : Error}
    (h : Jvm.Pool.checkText text = .error e) : ∃ a, Form.pushText text {} = (.error e, a) := by
  have hfind : Jvm.Pool.find? (.utf8 text) {} = (.ok none, {}) := by
    simp [Jvm.Pool.find?]
  simp only [Form.pushText, Jvm.bind_apply, Build.intern, Build.interning, Jvm.Pool.intern,
    Jvm.Pool.internText, hfind, h]
  exact ⟨_, rfl⟩

end Compiler

end JvmLisp
