import JvmLisp.Proofs.Source.Reading

/-! # Places in a text

A cursor stands at an offset of the text that it reads. What it reports as its place is the line and
the column of this offset, and no other offset has the same ones. Reading only ever moves a cursor
ahead in its text.

The line of a place, as far as it has been read, begins with the characters in front of the place
and goes on with those from there up to the cursor.
-/

namespace JvmLisp.Source

variable {s t : List Char} {c : Char} {k k' : Nat}

/-- The end of a text, behind its last line feed. -/
def lastLine (s : List Char) : List Char :=
  (s.reverse.takeWhile (· != '\n')).reverse

/-- The place of an offset, by the line feeds in front of it and the characters since the last of
them. -/
def positionAt (s : List Char) (k : Nat) : Position :=
  ⟨1 + (s.take k).count '\n', 1 + (lastLine (s.take k)).length⟩

/-- Text without a line feed makes the last line longer. -/
theorem lastLine_append (h : '\n' ∉ t) : lastLine (s ++ t) = lastLine s ++ t := by
  have hall : ∀ c ∈ t.reverse, (c != '\n') = true := by
    intro c hc
    exact bne_iff_ne.2 fun heq => h (heq ▸ List.mem_reverse.1 hc)
  rw [lastLine, List.reverse_append, List.takeWhile_append_of_pos hall, List.reverse_append,
    List.reverse_reverse, lastLine]

theorem lastLine_of_notMem (h : '\n' ∉ s) : lastLine s = s :=
  lastLine_append (s := []) h

theorem lastLine_newline (s : List Char) : lastLine ('\n' :: s) = lastLine s := by
  rw [lastLine, List.reverse_cons, List.takeWhile_append, lastLine]
  split
  · rename_i hlength
    rw [(List.takeWhile_prefix _).eq_of_length hlength]
    simp
  · rfl

theorem lastLine_cons_of_mem (h : '\n' ∈ s) : lastLine (c :: s) = lastLine s := by
  rw [lastLine, List.reverse_cons, List.takeWhile_append, if_neg, lastLine]
  intro hlength
  have hself := (List.takeWhile_prefix (· != '\n')).eq_of_length hlength
  simpa using List.takeWhile_eq_self_iff.1 hself '\n' (List.mem_reverse.2 h)

theorem lineAt_nil (n : Nat) : lineAt n [] = [] := by
  cases n <;> rfl

theorem lineAt_succ_newline (n : Nat) (s : List Char) :
    lineAt (n + 1) ('\n' :: s) = lineAt n s := rfl

theorem lineAt_zero_cons (hc : c ≠ '\n') (s : List Char) :
    lineAt 0 (c :: s) = c :: lineAt 0 s := by
  simp [lineAt, hc]

theorem lineAt_succ_cons (hc : c ≠ '\n') (n : Nat) (s : List Char) :
    lineAt (n + 1) (c :: s) = lineAt (n + 1) s := by
  cases s with
  | nil => simp [lineAt, hc, lineAt_nil]
  | cons d s => simp [lineAt, hc]

/-- The line in which a text ends and another goes on. -/
theorem lineAt_append (s t : List Char) :
    lineAt (s.count '\n') (s ++ t) = lastLine s ++ t.takeWhile (· != '\n') := by
  induction s with
  | nil => rfl
  | cons c s ih =>
    by_cases hc : c = '\n'
    · subst hc
      rw [List.count_cons_self, lastLine_newline, ← ih]
      rfl
    · rw [List.count_cons_of_ne hc, List.cons_append]
      by_cases hs : '\n' ∈ s
      · obtain ⟨n, hn⟩ := Nat.exists_eq_succ_of_ne_zero (List.count_pos_iff.2 hs).ne'
        rw [lastLine_cons_of_mem hs, ← ih, hn, lineAt_succ_cons hc]
      · have hline : '\n' ∉ c :: s := by simp [Ne.symm hc, hs]
        rw [List.count_eq_zero.2 hs] at ih ⊢
        rw [lineAt_zero_cons hc, ih, lastLine_of_notMem hs, lastLine_of_notMem hline,
          List.cons_append]

/-- Different offsets are in different lines or in different columns. -/
theorem positionAt_inj (hk : k ≤ s.length) (hk' : k' ≤ s.length)
    (h : positionAt s k = positionAt s k') : k = k' := by
  wlog hle : k ≤ k' generalizing k k'
  · exact (this hk' hk h.symm (Nat.le_of_not_le hle)).symm
  obtain ⟨hline, hcolumn⟩ := Position.mk.inj h
  have htake : s.take k' = s.take k ++ (s.drop k).take (k' - k) := by
    rw [← List.take_add, Nat.add_sub_cancel' hle]
  have hbetween : '\n' ∉ (s.drop k).take (k' - k) := by
    rw [htake, List.count_append] at hline
    exact List.count_eq_zero.1 (by omega)
  rw [htake, lastLine_append hbetween, List.length_append] at hcolumn
  simp only [List.length_take, List.length_drop] at hcolumn
  omega

namespace Cursor

variable {c c' c'' : Cursor}

/-- The whole text that a cursor reads. -/
def text (c : Cursor) : List Char :=
  c.before.reverse ++ c.rest

def offset (c : Cursor) : Nat :=
  c.before.length

theorem take_offset (c : Cursor) : c.text.take c.offset = c.before.reverse := by
  simp [text, offset]

theorem drop_offset (c : Cursor) : c.text.drop c.offset = c.rest := by
  simp [text, offset]

theorem offset_add_length (c : Cursor) : c.offset + c.rest.length = c.text.length := by
  simp [text, offset]

theorem position_eq (c : Cursor) : c.position = positionAt c.text c.offset := by
  rw [positionAt, take_offset, lastLine, List.reverse_reverse, List.length_reverse,
    List.count_reverse]
  rfl

theorem seen_eq (c : Cursor) : c.seen = c.text.take (c.offset + 1) := by
  rw [seen, List.reverseAux_eq, List.take_add, take_offset, drop_offset]

/-- The line of a place that the cursor has passed or stands at. -/
theorem lineText_of_le (hk : k ≤ c.offset) :
    c.lineText (positionAt c.text k).line = String.ofList ((lastLine (c.text.take k) ++
      ((c.text.drop k).take (c.offset + 1 - k)).takeWhile (· != '\n')).filter (· != '\r')) := by
  have hseen : c.seen = c.text.take k ++ (c.text.drop k).take (c.offset + 1 - k) := by
    rw [seen_eq, ← List.take_add]
    congr 1
    omega
  rw [positionAt, Nat.add_comm, lineText, hseen, lineAt_append]

/-! ### Moving ahead -/

/-- Both cursors read the same text, and the second is not further back. -/
structure Leads (c c' : Cursor) : Prop where
  text_eq : c'.text = c.text
  length_le : c'.rest.length ≤ c.rest.length

theorem Leads.refl (c : Cursor) : c.Leads c :=
  ⟨rfl, le_rfl⟩

theorem Leads.trans (h : c.Leads c') (h' : c'.Leads c'') : c.Leads c'' :=
  ⟨h'.text_eq.trans h.text_eq, h'.length_le.trans h.length_le⟩

theorem Leads.offset_le (h : c.Leads c') : c.offset ≤ c'.offset := by
  have hc := c.offset_add_length
  have hc' := c'.offset_add_length
  have hle := h.length_le
  rw [h.text_eq] at hc'
  omega

theorem leads_cons (d : Char) (before rest : List Char) :
    Leads ⟨before, d :: rest⟩ ⟨d :: before, rest⟩ :=
  ⟨by simp [text], by simp⟩

theorem leads_advance (c : Cursor) : c.Leads c.advance := by
  rcases c with ⟨before, _ | ⟨d, rest⟩⟩
  · exact .refl _
  · exact leads_cons d before rest

theorem leads_skipLayoutFrom (inComment : Bool) (before rest : List Char) :
    Leads ⟨before, rest⟩ (skipLayoutFrom inComment before rest) := by
  induction rest generalizing inComment before with
  | nil => exact .refl _
  | cons d rest ih =>
    have hahead (b : Bool) := (leads_cons d before rest).trans (ih b (d :: before))
    rw [skipLayoutFrom]
    split
    · exact hahead true
    · split
      · exact hahead false
      · split
        · exact hahead true
        · exact .refl _

theorem leads_skipLayout (c : Cursor) : c.Leads c.skipLayout :=
  leads_skipLayoutFrom false c.before c.rest

theorem leads_span (p : Char → Bool) (c : Cursor) : c.Leads (c.span p).2 := by
  refine ⟨?_, c.span_length_le p⟩
  simp [text, span, List.reverseAux_eq]

end Cursor

namespace Lexeme

open Cursor (Leads leads_advance leads_cons leads_skipLayout leads_span)

/-- A backslash, whether it stands before a character or at the end, begins an escape. -/
theorem ne_backslash {d : Char} {rest : List Char}
    (hescape : ∀ e rest', d = '\\' → rest = e :: rest' → False)
    (hend : d = '\\' → rest = [] → False) : d ≠ '\\' := by
  intro hd
  cases rest with
  | nil => exact hend hd rfl
  | cons e rest => exact hescape e rest hd rfl

theorem leads_readTextFrom (opening : Cursor) (content before rest : List Char) :
    Leads ⟨before, rest⟩ (readTextFrom opening content before rest).2 := by
  fun_induction readTextFrom opening content before rest with
  | case2 content before rest => exact leads_cons '"' before rest
  | case4 content before c rest d hd ih =>
    exact ((leads_cons '\\' before _).trans (leads_cons c _ rest)).trans ih
  | case5 content before rest | case6 content before c rest | case7 content before =>
    exact leads_cons '\\' before _
  | case8 content before c rest _ _ _ _ ih => exact (leads_cons c before rest).trans ih
  | _ => exact .refl _

/-- Behind the parenthesis and layout stands what has to be the name of the form. -/
theorem leads_readOpening_head (opening : Cursor) :
    opening.advance.skipLayout.Leads (readOpening opening).2 := by
  have hname := leads_span isAtomic opening.advance.skipLayout
  simp only [readOpening, Cursor.fail]
  split
  · exact .refl _
  · split
    · exact .refl _
    · split
      · exact .refl _
      · split
        · exact hname
        · exact hname

theorem leads_readOpening (opening : Cursor) : opening.Leads (readOpening opening).2 :=
  ((leads_advance opening).trans (leads_skipLayout opening.advance)).trans
    (leads_readOpening_head opening)

theorem leads_readAtom (start : Cursor) : start.Leads (readAtom start).2 := by
  have hspan := leads_span isAtomic start
  simp only [readAtom, Cursor.fail]
  split
  · exact hspan
  · exact hspan

theorem read_quote (before rest : List Char) :
    read ⟨before, '"' :: rest⟩ =
      let outcome := readTextFrom ⟨before, '"' :: rest⟩ [] ('"' :: before) rest
      (outcome.1.map text, outcome.2) := by
  simp only [read]
  rcases readTextFrom ⟨before, '"' :: rest⟩ [] ('"' :: before) rest with ⟨_ | _, _⟩ <;> rfl

theorem read_of_ne {d : Char} (hopening : d ≠ '(') (hquote : d ≠ '"') (before rest : List Char) :
    read ⟨before, d :: rest⟩ = readAtom ⟨before, d :: rest⟩ := by
  rw [read]
  split <;> simp_all

/-- Reading moves ahead, whether it succeeds or fails. -/
theorem leads_read (start : Cursor) : start.Leads (read start).2 := by
  rcases start with ⟨before, _ | ⟨d, rest⟩⟩
  · exact leads_readAtom ⟨before, []⟩
  · by_cases hopening : d = '('
    · subst hopening
      exact leads_readOpening _
    · by_cases hquote : d = '"'
      · subst hquote
        rw [read_quote]
        exact (leads_cons '"' before rest).trans (leads_readTextFrom _ _ _ _)
      · rw [read_of_ne hopening hquote]
        exact leads_readAtom _

end Lexeme

end JvmLisp.Source
