import JvmLisp.Proofs.Source.Line
import JvmLisp.Source.Tracker

/-! # Counting and cursors

A tracker that reads a text comes through the same places as a cursor: what it has kept by then is
what the cursor would compute from the text that it has consumed. So one step of the tracker is one
step of the cursor, and after any number of steps both quote the same lines.

The place in numbers is that of the cursor as long as 32 bits hold it. They fail to behind the last
character of the longest texts, if these have one line or nothing but line feeds.
-/

namespace JvmLisp.Source

variable {s : List Char} {n : Nat}

namespace Tracker

variable {t : Tracker} {c : Char}

theorem record_eq (t : Tracker) : t.record =
    { t with lineText := String.ofList (t.lineText.toList ++ t.current.toList.filter isKept) } := by
  rcases t with ⟨ahead, current, line, column, lineText, lines⟩
  rcases current with _ | c
  · simp [record]
  · by_cases hfeed : c = '\n'
    · simp [record, hfeed, isKept]
    · by_cases hreturn : c = '\r'
      · simp [record, hreturn, isKept]
      · have hkept : isKept c = true := by simp [isKept, hfeed, hreturn]
        simp only [record, Option.toList_some, List.filter_cons, hkept]
        simp

theorem pull_eq (t : Tracker) : t.pull =
    { t with
      ahead := t.ahead.tail
      current := t.ahead.head?
      lineText := String.ofList (t.lineText.toList ++ t.ahead.head?.toList.filter isKept) } := by
  rw [pull, record_eq]

theorem next_eq (t : Tracker) : t.next = (t.current, t.advance) := by
  rcases hcurrent : t.current with _ | c <;> simp only [advance, next, hcurrent]

/-- At the end of the text a step changes nothing. -/
theorem advance_of_end (h : t.current = none) : t.advance = t := by
  rw [advance, next, h]

/-- Consuming a line feed ends the line. -/
theorem advance_of_newline (h : t.current = some '\n') : t.advance =
    { ahead := t.ahead.tail
      current := t.ahead.head?
      line := t.line + 1
      column := 1
      lineText := String.ofList (t.ahead.head?.toList.filter isKept)
      lines := t.lines.push t.lineText } := by
  simp [advance, next, h, pull_eq]

theorem advance_of_ne (h : t.current = some c) (hc : c ≠ '\n') : t.advance =
    { t with
      ahead := t.ahead.tail
      current := t.ahead.head?
      column := t.column + 1
      lineText := String.ofList (t.lineText.toList ++ t.ahead.head?.toList.filter isKept) } := by
  simp [advance, next, h, hc, pull_eq]

end Tracker

namespace Cursor

variable {c : Cursor}

/-- What a tracker has kept where the cursor stands. -/
def tracker (c : Cursor) : Tracker where
  ahead := c.rest.tail
  current := c.peek
  line := UInt32.ofNat c.position.line
  column := UInt32.ofNat c.position.column
  lineText := c.lineText c.position.line
  lines := ((List.range (c.before.count '\n')).map fun n => c.lineText (n + 1)).toArray

theorem tracker_ofText (s : List Char) : (ofText s).tracker = Tracker.ofText s := by
  rw [Tracker.ofText, Tracker.pull, Tracker.record_eq, tracker, lineText_current]
  rfl

/-- The lines that have ended depend on the text alone. -/
theorem lines_tracker (c : Cursor) : c.tracker.lines =
    ((List.range (c.before.count '\n')).map fun n =>
      String.ofList ((lineAt n c.text).filter (· != '\r'))).toArray := by
  refine congrArg List.toArray (List.map_congr_left fun n hn => lineText_of_ended ?_)
  rw [count_seen]
  exact Nat.lt_add_right _ (List.mem_range.1 hn)

/-- The line that ends at a line feed joins those that have ended before. -/
theorem tracker_advance_newline (before rest : List Char) :
    tracker ⟨'\n' :: before, rest⟩ = (tracker ⟨before, '\n' :: rest⟩).advance := by
  have hposition := position_newline before rest
  have htext := (leads_cons '\n' before rest).text_eq
  have hended := lineText_of_ended (c := ⟨before, '\n' :: rest⟩) (n := before.count '\n')
    (by simp [count_seen, peek])
  rw [← Nat.add_comm 1] at hended
  rw [Tracker.advance_of_newline rfl]
  refine Tracker.ext rfl rfl ?line ?column ?lineText ?lines
  case line => exact (congrArg (UInt32.ofNat ·.line) hposition).trans (UInt32.ofNat_add _ 1)
  case column => exact congrArg (UInt32.ofNat ·.column) hposition
  case lineText =>
    refine (lineText_current _).trans ?_
    simp [lastLine, tracker, peek]
  case lines =>
    refine (lines_tracker _).trans ?_
    rw [htext, lines_tracker, List.count_cons_self, List.range_succ, List.map_append,
      List.map_singleton, ← hended, ← List.push_toArray]
    rfl

theorem tracker_advance_cons {d : Char} (hd : d ≠ '\n') (before rest : List Char) :
    tracker ⟨d :: before, rest⟩ = (tracker ⟨before, d :: rest⟩).advance := by
  have hposition := position_cons hd before rest
  have htext := (leads_cons d before rest).text_eq
  have hline : lastLine (before.reverse ++ [d]) = lastLine before.reverse ++ [d] :=
    lastLine_append (by simpa using Ne.symm hd)
  rw [Tracker.advance_of_ne rfl hd]
  refine Tracker.ext rfl rfl ?line ?column ?lineText ?lines
  case line => exact congrArg (UInt32.ofNat ·.line) hposition
  case column =>
    exact (congrArg (UInt32.ofNat ·.column) hposition).trans (UInt32.ofNat_add _ 1)
  case lineText =>
    refine (lineText_current _).trans (congrArg String.ofList ?_)
    rw [tracker, lineText_current, String.toList_ofList, ← List.filter_append]
    simp [hline, peek]
  case lines =>
    refine (lines_tracker _).trans ?_
    rw [htext, lines_tracker, List.count_cons_of_ne hd]

/-- One step of the tracker is one step of the cursor. -/
theorem tracker_advance (c : Cursor) : c.advance.tracker = c.tracker.advance := by
  rcases c with ⟨before, _ | ⟨d, rest⟩⟩
  · exact (Tracker.advance_of_end rfl).symm
  · by_cases hd : d = '\n'
    · subst hd
      exact tracker_advance_newline before rest
    · exact tracker_advance_cons hd before rest

/-- A tracker that has been moved as often as a cursor has kept what the cursor shows. -/
theorem tracker_iterate_advance (s : List Char) (k : Nat) :
    (advance^[k] (ofText s)).tracker = Tracker.advance^[k] (Tracker.ofText s) := by
  induction k with
  | zero => exact tracker_ofText s
  | succ k ih =>
    rw [Function.iterate_succ_apply', Function.iterate_succ_apply', tracker_advance, ih]

theorem one_le_position_column (c : Cursor) : 1 ≤ c.position.column :=
  Nat.le_add_right 1 _

theorem line_add_column_le (c : Cursor) : c.position.line + c.position.column ≤ c.offset + 2 := by
  have hle := length_lastLine_add_count_le c.before.reverse
  rw [lastLine, List.reverse_reverse, List.length_reverse, List.length_reverse,
    List.count_reverse] at hle
  simp only [position, offset]
  omega

/-- Where 32 bits do not hold the line, the text ends and its last line is empty like line zero. -/
theorem lineText_mod (hlength : c.text.length < 2 ^ 32) :
    c.lineText (c.position.line % 2 ^ 32) = c.lineText c.position.line := by
  have hle := c.line_add_column_le
  have hoffset := c.offset_add_length
  by_cases hsmall : c.position.line < 2 ^ 32
  · rw [Nat.mod_eq_of_lt hsmall]
  · have hwraps : c.position.line = 2 ^ 32 := by
      have hcolumn := c.one_le_position_column
      omega
    have hrest : c.rest = [] := List.length_eq_zero_iff.1 (by simp only [position] at *; omega)
    have hlast : c.before.takeWhile (· != '\n') = [] :=
      List.length_eq_zero_iff.1 (by simp only [position] at *; omega)
    rw [lineText_current, lastLine, List.reverse_reverse, hlast, peek, hrest, hwraps]
    rfl

theorem getElem?_lines_tracker (c : Cursor) (n : Nat) :
    (c.tracker.lines[n]?).getD "" = if n + 1 < c.position.line then c.lineText (n + 1) else "" := by
  by_cases hn : n < c.before.count '\n'
  · have hline : n + 1 < c.position.line := by
      simp only [position]
      omega
    simp [tracker, hn, hline]
  · have hline : ¬n + 1 < c.position.line := by
      simp only [position]
      omega
    simp [tracker, hn, hline]

/-- The index of line zero is behind every line. -/
theorem toNat_index (n : UInt32) :
    (n.toUInt64 - 1).toNat = if n.toNat = 0 then 2 ^ 64 - 1 else n.toNat - 1 := by
  have hlt := n.toNat_lt
  have hindex : (n.toUInt64 - 1).toNat = (2 ^ 64 - 1 + n.toNat) % 2 ^ 64 := by
    rw [UInt64.toNat_sub, UInt32.toNat_toUInt64]
    rfl
  split <;> omega

/-- Of a line that is not the current one, the tracker has kept what the cursor would quote. -/
theorem lineText_kept {n : UInt32} (hlength : c.text.length < 2 ^ 32)
    (hne : n.toNat ≠ c.position.line) :
    (c.tracker.lines[(n.toUInt64 - 1).toNat]?).getD "" = c.lineText n.toNat := by
  have hoffset := c.offset_add_length
  have hle := c.line_add_column_le
  rw [getElem?_lines_tracker, toNat_index]
  by_cases hzero : n.toNat = 0
  · rw [if_pos hzero, if_neg (by omega), hzero]
    rfl
  · rw [if_neg hzero, Nat.sub_add_cancel (Nat.one_le_iff_ne_zero.2 hzero)]
    split
    · rfl
    · rename_i hge
      exact (lineText_of_gt (by omega)).symm

/-- A tracker quotes what the cursor does, for any mark. -/
theorem location_tracker (hlength : c.text.length < 2 ^ 32) (m : Mark) :
    c.tracker.location m = c.locate m.position := by
  have hline : c.tracker.line.toNat = c.position.line % 2 ^ 32 := UInt32.toNat_ofNat'
  refine congrArg (Location.mk m.position) ?_
  change (if m.line = c.tracker.line then c.lineText c.position.line else _) =
    c.lineText m.line.toNat
  by_cases hcurrent : m.line = c.tracker.line
  · rw [if_pos hcurrent, hcurrent, hline, lineText_mod hlength]
  · have hne : m.line.toNat ≠ c.position.line := by
      intro h
      have hlt := m.line.toNat_lt
      exact hcurrent (UInt32.toNat_inj.1 (by rw [hline]; omega))
    rw [if_neg hcurrent]
    exact lineText_kept hlength hne

theorem mark_tracker_eq {line column : Nat} (h : c.position = ⟨line, column⟩) :
    c.tracker.mark = ⟨UInt32.ofNat line, UInt32.ofNat column⟩ := by
  rw [Tracker.mark, tracker, h]

/-- Where 32 bits do not hold the place, 2^32 - 1 characters have been consumed which are all line
feeds or of which none is. -/
theorem position_of_exceeds (hlength : c.text.length < 2 ^ 32)
    (h : 2 ^ 32 ≤ c.position.line ∨ 2 ^ 32 ≤ c.position.column) : c.offset + 1 = 2 ^ 32 ∧
      (c.position = ⟨2 ^ 32, 1⟩ ∧ (∀ d ∈ c.text, d = '\n') ∨
        c.position = ⟨1, 2 ^ 32⟩ ∧ '\n' ∉ c.text) := by
  have hle := c.line_add_column_le
  have hoffset := c.offset_add_length
  have hline := c.one_le_position_line
  have hcolumn := c.one_le_position_column
  have htext : c.text = c.before.reverse := by
    rw [text, List.length_eq_zero_iff.1 (show c.rest.length = 0 by omega), List.append_nil]
  have hcount : c.text.count '\n' = c.position.line - 1 := by
    rw [htext, List.count_reverse, position, Nat.add_sub_cancel_left]
  refine ⟨by omega, ?_⟩
  rcases h with hlines | hcolumns
  · have hplace : c.position.line = 2 ^ 32 ∧ c.position.column = 1 := by omega
    refine .inl ⟨by rw [← hplace.1, ← hplace.2], fun d hd => ?_⟩
    exact (List.count_eq_length.1 (by omega) d hd).symm
  · have hplace : c.position.line = 1 ∧ c.position.column = 2 ^ 32 := by omega
    refine .inr ⟨by rw [← hplace.1, ← hplace.2], ?_⟩
    exact List.count_eq_zero.1 (by omega)

/-- The place in numbers is that of the cursor, unless 2^32 - 1 characters have been consumed which
are all line feeds or of which none is. -/
theorem mark_tracker (hlength : c.text.length < 2 ^ 32) :
    c.tracker.mark.position = c.position ∨ c.offset + 1 = 2 ^ 32 ∧
      (c.tracker.mark = ⟨0, 1⟩ ∧ (∀ d ∈ c.text, d = '\n') ∨
        c.tracker.mark = ⟨1, 0⟩ ∧ '\n' ∉ c.text) := by
  by_cases hfits : c.position.line < 2 ^ 32 ∧ c.position.column < 2 ^ 32
  · exact .inl (congrArg₂ Position.mk (UInt32.toNat_ofNat_of_lt' hfits.1)
      (UInt32.toNat_ofNat_of_lt' hfits.2))
  · obtain ⟨hend, hposition⟩ := position_of_exceeds hlength (by omega)
    refine .inr ⟨hend, hposition.imp (And.imp_left fun h => ?_) (And.imp_left fun h => ?_)⟩
    · exact (mark_tracker_eq h).trans rfl
    · exact (mark_tracker_eq h).trans rfl

/-- An error is placed where the tracker is at the mark, with the line that it quotes when the
compiler stops. -/
theorem errorAt_eq {mark : Cursor} (hleads : mark.Leads c) (hlength : c.text.length < 2 ^ 32)
    (hmark : mark.offset + 1 < 2 ^ 32) (cause : Cause) :
    c.errorAt mark cause = ⟨cause, some (c.tracker.location mark.tracker.mark)⟩ := by
  have hposition : mark.tracker.mark.position = mark.position := by
    refine (mark_tracker (hleads.text_eq ▸ hlength)).resolve_right fun h => ?_
    exact hmark.ne h.1
  rw [errorAt, location_tracker hlength, hposition]

end Cursor

/-- What a tracker shows of a text when it has consumed a number of characters. -/
structure Tracker.Shows (s : List Char) (n : Nat) (t : Tracker) : Prop where
  current : t.current = s[n]?
  next : t.next = (s[n]?, t.advance)
  ended : s[n]? = none → t.next = (none, t)
  /-- The line feeds that have been consumed, and the characters since the last of them, are counted
  from one and in 32 bits. -/
  mark : t.mark = ⟨1 + UInt32.ofNat ((s.take n).count '\n'),
    1 + UInt32.ofNat (lastLine (s.take n)).length⟩
  /-- The counters wrap only behind the last of 2^32 - 1 characters which are all line feeds or of
  which none is. -/
  counted : t.mark.position = ⟨1 + (s.take n).count '\n', 1 + (lastLine (s.take n)).length⟩ ∨
    n + 1 = 2 ^ 32 ∧ (t.mark = ⟨0, 1⟩ ∧ (∀ d ∈ s, d = '\n') ∨ t.mark = ⟨1, 0⟩ ∧ '\n' ∉ s)
  place : ∀ m : Mark, (t.location m).position = m.position
  /-- The current line is quoted up to and including the current character. -/
  ofCurrent : ∀ m : Mark, m.line.toNat = 1 + (s.take n).count '\n' → (t.location m).quoted =
    String.ofList ((lastLine (s.take n) ++ s[n]?.toList).filter isKept)
  /-- A line that has ended is quoted as a whole. -/
  ofEarlier : ∀ m : Mark, 1 ≤ m.line.toNat ∧ m.line.toNat < 1 + (s.take n).count '\n' →
    ∃ line, (s.splitOn '\n')[m.line.toNat - 1]? = some line ∧
      (t.location m).quoted = String.ofList (line.filter (· != '\r'))
  ofOther : ∀ m : Mark, m.line.toNat = 0 ∨ 1 + (s.take n).count '\n' < m.line.toNat →
    (t.location m).quoted = ""

theorem Cursor.shows_tracker {c : Cursor} (hlength : c.text.length < 2 ^ 32) :
    c.tracker.Shows c.text c.offset := by
  have hline : c.position.line = 1 + (c.text.take c.offset).count '\n' := by
    rw [position_eq, positionAt]
  have hquoted (m : Mark) : (c.tracker.location m).quoted = c.lineText m.line.toNat := by
    rw [location_tracker hlength]
    rfl
  constructor
  case current => exact peek_eq c
  case next => rw [Tracker.next_eq, ← peek_eq]; rfl
  case ended =>
    intro hend
    have hcurrent : c.tracker.current = none := (peek_eq c).trans hend
    rw [Tracker.next_eq, Tracker.advance_of_end hcurrent, hcurrent]
  case mark =>
    rw [mark_tracker_eq (position_eq c), UInt32.ofNat_add, UInt32.ofNat_add]
    rfl
  case counted => simpa only [position_eq, positionAt] using mark_tracker hlength
  case place => exact fun m => rfl
  case ofCurrent =>
    intro m hm
    rw [hquoted, hm, ← hline, lineText_current, take_offset, ← peek_eq]
  case ofEarlier =>
    rintro m ⟨hpos, hlt⟩
    obtain ⟨i, hi⟩ := Nat.exists_eq_add_of_le' hpos
    rw [hquoted, hi, Nat.add_sub_cancel]
    have hcount : i < (c.text.take c.offset).count '\n' := by omega
    have hle : (c.text.take c.offset).count '\n' ≤ c.text.count '\n' :=
      (List.take_sublist _ _).count_le _
    refine ⟨_, getElem?_splitOn_newline (by omega), lineText_of_ended ?_⟩
    rw [count_seen, ← List.count_reverse, ← take_offset]
    omega
  case ofOther =>
    rintro m (hm | hm)
    · rw [hquoted, hm]
      rfl
    · exact (hquoted m).trans (lineText_of_gt (hline ▸ hm))

namespace Tracker

end Tracker
end JvmLisp.Source
