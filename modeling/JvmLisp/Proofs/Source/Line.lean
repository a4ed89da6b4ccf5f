import JvmLisp.Proofs.Source.Place

/-! # Lines of a text

What a cursor can quote of its text, line by line, after any number of steps from the start. A line
that has ended is quoted as a whole, the current one up to the character at the cursor, and of the
lines ahead there is nothing.
-/

namespace JvmLisp.Source

variable {s t : List Char} {n : Nat}

/-- A character that is kept in its line. -/
def isKept (c : Char) : Bool :=
  c != '\r' && c != '\n'

/-- The lines behind the one in which a text goes on are those of its continuation. -/
theorem lineAt_count_add (s t : List Char) (n : Nat) :
    lineAt (s.count '\n' + (n + 1)) (s ++ t) = lineAt (n + 1) t := by
  induction s with
  | nil => simp
  | cons c s ih =>
    by_cases hc : c = '\n'
    · subst hc
      rw [List.count_cons_self, Nat.add_right_comm, List.cons_append, lineAt_succ_newline, ih]
    · rw [List.count_cons_of_ne hc, List.cons_append, ← Nat.add_assoc, lineAt_succ_cons hc,
        Nat.add_assoc, ih]

/-- A line that has ended does not depend on what follows. -/
theorem lineAt_append_of_lt (h : n < s.count '\n') (t : List Char) :
    lineAt n (s ++ t) = lineAt n s := by
  induction s generalizing n with
  | nil => simp at h
  | cons c s ih =>
    by_cases hc : c = '\n'
    · subst hc
      rw [List.count_cons_self] at h
      cases n with
      | zero => rfl
      | succ n => exact ih (Nat.lt_of_succ_lt_succ h)
    · rw [List.count_cons_of_ne hc] at h
      cases n with
      | zero => rw [List.cons_append, lineAt_zero_cons hc, lineAt_zero_cons hc, ih h]
      | succ n => rw [List.cons_append, lineAt_succ_cons hc, lineAt_succ_cons hc, ih h]

/-- Cutting a text at its line feeds gives its lines. -/
theorem getElem?_splitOn_newline (h : n ≤ s.count '\n') :
    (s.splitOn '\n')[n]? = some (lineAt n s) := by
  rw [List.splitOn_eq_splitOnP]
  induction s generalizing n with
  | nil =>
    obtain rfl : n = 0 := by simpa using h
    rfl
  | cons c s ih =>
    rw [List.splitOnP_cons_eq_if_modifyHead]
    by_cases hc : c = '\n'
    · subst hc
      rw [List.count_cons_self] at h
      cases n with
      | zero => rfl
      | succ n => simpa [lineAt_succ_newline] using ih (Nat.le_of_succ_le_succ h)
    · rw [List.count_cons_of_ne hc] at h
      cases n with
      | zero => simp [hc, ih h, lineAt_zero_cons hc]
      | succ n => simp [hc, ih h, lineAt_succ_cons hc]

theorem newline_notMem_lastLine (s : List Char) : '\n' ∉ lastLine s := by
  intro h
  rw [lastLine, List.mem_reverse] at h
  simpa using List.mem_takeWhile_imp h

/-- The line feeds of a text are in front of its last line. -/
theorem length_lastLine_add_count_le (s : List Char) :
    (lastLine s).length + s.count '\n' ≤ s.length := by
  have happ : s.reverse.takeWhile (· != '\n') ++ s.reverse.dropWhile (· != '\n') = s.reverse :=
    List.takeWhile_append_dropWhile
  have hlast : (s.reverse.takeWhile (· != '\n')).count '\n' = 0 :=
    List.count_eq_zero.2 fun h => newline_notMem_lastLine s (List.mem_reverse.2 h)
  have hcount := congrArg (List.count '\n') happ
  have hlength := congrArg List.length happ
  have hle : (s.reverse.dropWhile (· != '\n')).count '\n' ≤ _ := List.count_le_length
  rw [List.count_append, List.count_reverse, hlast] at hcount
  rw [List.length_append, List.length_reverse] at hlength
  rw [lastLine, List.length_reverse]
  omega

namespace Cursor

variable {c : Cursor}

/-! ### Steps -/

theorem next_eq (c : Cursor) : c.next = (c.peek, c.advance) := by
  rcases c with ⟨before, _ | ⟨d, rest⟩⟩ <;> rfl

theorem peek_eq (c : Cursor) : c.peek = c.text[c.offset]? := by
  rw [← List.head?_drop, drop_offset]
  rfl

theorem text_advance (c : Cursor) : c.advance.text = c.text :=
  (leads_advance c).text_eq

theorem offset_advance (c : Cursor) : c.advance.offset = min (c.offset + 1) c.text.length := by
  rcases c with ⟨before, _ | ⟨d, rest⟩⟩
  · simp [advance, offset, text]
  · simp [advance, offset, text]

/-- From the start of a text, as many characters are consumed as there are steps, up to the end. -/
theorem iterate_advance_ofText (s : List Char) (k : Nat) :
    (advance^[k] (ofText s)).text = s ∧ (advance^[k] (ofText s)).offset = min k s.length := by
  induction k with
  | zero => simp [ofText, text, offset]
  | succ k ih =>
    rw [Function.iterate_succ_apply', text_advance, offset_advance, ih.1, ih.2]
    exact ⟨rfl, by omega⟩

theorem position_newline (before rest : List Char) :
    position ⟨'\n' :: before, rest⟩ = ⟨(position ⟨before, '\n' :: rest⟩).line + 1, 1⟩ := by
  simp [position, Nat.add_assoc]

theorem position_cons {d : Char} (hd : d ≠ '\n') (before rest : List Char) :
    position ⟨d :: before, rest⟩ = ⟨(position ⟨before, d :: rest⟩).line,
      (position ⟨before, d :: rest⟩).column + 1⟩ := by
  simp [position, hd, Nat.add_assoc]

/-! ### Quoted lines -/

theorem count_seen (c : Cursor) :
    c.seen.count '\n' = c.before.count '\n' + c.peek.toList.count '\n' := by
  rw [seen, List.reverseAux_eq, List.count_append, List.count_reverse, List.take_one, peek]

theorem one_le_position_line (c : Cursor) : 1 ≤ c.position.line :=
  Nat.le_add_right 1 _

/-- A line that has been read up to its line feed is quoted as a whole. -/
theorem lineText_of_ended (h : n < c.seen.count '\n') :
    c.lineText (n + 1) = String.ofList ((lineAt n c.text).filter (· != '\r')) := by
  have hline := lineAt_append_of_lt h (c.text.drop (c.offset + 1))
  rw [seen_eq, List.take_append_drop] at hline
  rw [lineText, hline, seen_eq]

theorem lineText_of_gt (h : c.position.line < n) : c.lineText n = "" := by
  obtain ⟨k, rfl⟩ : ∃ k, n = c.before.reverse.count '\n' + (k + 1) + 1 := by
    rw [List.count_reverse]
    exact ⟨n - 2 - c.before.count '\n', by simp only [position] at h; omega⟩
  have hahead : lineAt (k + 1) (c.rest.take 1) = [] := by
    rcases c.rest with _ | ⟨d, rest⟩
    · rfl
    · by_cases hd : d = '\n'
      · subst hd
        exact lineAt_nil k
      · exact lineAt_succ_cons hd k []
  rw [lineText, seen, List.reverseAux_eq, lineAt_count_add, hahead]
  rfl

/-- Neither a carriage return nor the line feed at the cursor is quoted. -/
theorem lineText_current (c : Cursor) :
    c.lineText c.position.line =
      String.ofList ((lastLine c.before.reverse ++ c.peek.toList).filter isKept) := by
  have hbefore : ∀ d ∈ lastLine c.before.reverse, (d != '\n') = true := by
    intro d hd
    apply bne_iff_ne.2
    rintro rfl
    exact newline_notMem_lastLine _ hd
  have hpeek : (c.rest.take 1).takeWhile (· != '\n') = c.peek.toList.filter (· != '\n') := by
    rw [peek]
    rcases c.rest with _ | ⟨d, rest⟩
    · rfl
    · by_cases hd : d = '\n' <;> simp [hd]
  have hline : c.position.line = c.before.reverse.count '\n' + 1 := by
    rw [List.count_reverse, Nat.add_comm]
    rfl
  have hkept : ∀ line : List Char,
      line.filter isKept = (line.filter (· != '\n')).filter (· != '\r') := fun _ =>
    List.filter_filter.symm
  rw [hline, lineText, seen, List.reverseAux_eq, lineAt_append, hpeek, hkept,
    List.filter_append (p := (· != '\n')), List.filter_eq_self.2 hbefore]

end Cursor

end JvmLisp.Source
