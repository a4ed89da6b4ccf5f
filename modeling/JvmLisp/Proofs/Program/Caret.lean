import JvmLisp.Proofs.Program.Blame

/-! # The caret below the quoted line

The line that an error quotes holds the character at the place of the error. Columns count all
characters of the line, and the quoted line leaves out carriage returns, so the column of the
character in the quoted line is less by the carriage returns in front of it. If there are none, the
caret stands below the character: each character in front of it has a blank below, and a tab has a
tab.
-/

namespace JvmLisp

open Source (Cursor lastLine positionAt)

namespace Error

/-- What stands below a character in front of the caret. -/
def blankBelow (c : Char) : Char :=
  if c = '\t' then '\t' else ' '

theorem length_padding (line : List Char) (column : Nat) :
    (padding line column).length = column - 1 := by
  simp only [padding, List.length_take, List.length_append, List.length_map,
    List.length_replicate]
  omega

theorem take_padding {line : List Char} {column n : Nat} (hcolumn : n ≤ column - 1)
    (hline : n ≤ line.length) :
    (padding line column).take n = (line.take n).map blankBelow := by
  have hmap : n ≤ (line.map blankBelow).length := by rwa [List.length_map]
  rw [padding, List.take_take, Nat.min_eq_left hcolumn, List.map_take]
  exact List.take_append_of_le_length hmap

end Error

namespace Compiler

variable {source : List Char} {e : Error} {k : Nat} {quoted : String} {c : Char}

/-- The line that an error quotes, up to the place of the error and the character there. -/
theorem quoted_of_error (hlength : source.length < 2 ^ 32) (he : (compile source).1 = .error e)
    (hlocation : e.location = some ⟨positionAt source k, quoted⟩) (hc : source[k]? = some c)
    (hnewline : c ≠ '\n') (hreturn : c ≠ '\r') :
    ∃ post, quoted.toList = (lastLine (source.take k)).filter (· != '\r') ++ c :: post := by
  obtain ⟨mark, cursor, rfl, hleads, herr, -⟩ := exists_faults hlength he
  have hlt : k < mark.text.length := (List.getElem?_eq_some_iff.1 hc).1
  have hplace : mark.position = positionAt mark.text k ∧
      cursor.lineText mark.position.line = quoted := by
    rw [herr] at hlocation
    exact Source.Location.mk.inj (Option.some.inj hlocation)
  obtain rfl : mark.offset = k := by
    have hoffset := mark.offset_add_length
    refine Source.positionAt_inj (by omega) hlt.le ?_
    rw [← mark.position_eq, hplace.1]
  obtain ⟨s, hs⟩ : ∃ s, mark.text.drop mark.offset = c :: s := by
    rw [List.getElem?_eq_some_iff] at hc
    obtain ⟨_, rfl⟩ := hc
    exact ⟨_, List.drop_eq_getElem_cons hlt⟩
  obtain ⟨n, hn⟩ : ∃ n, cursor.offset + 1 - mark.offset = n + 1 :=
    ⟨cursor.offset - mark.offset, by have := hleads.offset_le; omega⟩
  refine ⟨((s.take n).takeWhile (· != '\n')).filter (· != '\r'), ?_⟩
  rw [← hplace.2, hplace.1, ← hleads.text_eq, Cursor.lineText_of_le hleads.offset_le,
    hleads.text_eq, hs, hn, String.toList_ofList]
  simp [hnewline, hreturn]

/-- The character at the place of an error is in the quoted line, in the reported column less the
carriage returns in front of it. The caret stands in the reported column, and the blanks in front of
it begin with those below the characters in front of the place: without carriage returns, the caret
stands below the character. -/
theorem compile_error_caret (hlength : source.length < 2 ^ 32) (he : (compile source).1 = .error e)
    (hlocation : e.location = some ⟨positionAt source k, quoted⟩) (hc : source[k]? = some c)
    (hnewline : c ≠ '\n') (hreturn : c ≠ '\r') :
    let column := (positionAt source k).column
    let place := column - 1 - (lastLine (source.take k)).count '\r'
    quoted.toList[place]? = some c ∧ ∃ blanks : List Char, blanks.length = column - 1 ∧
      blanks.take place = (quoted.toList.take place).map Error.blankBelow ∧
      e.render = (positionAt source k).text ++ ": " ++ e.message ++ "\n" ++ quoted ++ "\n" ++
        String.ofList blanks ++ "^" := by
  intro column place
  obtain ⟨post, hquoted⟩ := quoted_of_error hlength he hlocation hc hnewline hreturn
  have hplace : place = ((lastLine (source.take k)).filter (· != '\r')).length := by
    have hsplit := (lastLine (source.take k)).length_eq_length_filter_add (· == '\r')
    have hcolumn : column - 1 = (lastLine (source.take k)).length := Nat.add_sub_cancel_left ..
    rw [← List.countP_eq_length_filter, ← List.count] at hsplit
    simp only [place, hcolumn, hsplit]
    exact Nat.add_sub_cancel_left ..
  have hle : place ≤ quoted.toList.length := by
    rw [hplace, hquoted, List.length_append]
    exact Nat.le_add_right ..
  refine ⟨?_, Error.padding quoted.toList column, Error.length_padding .., ?_, ?_⟩
  · rw [hplace, hquoted, List.getElem?_append_right le_rfl, Nat.sub_self]
    rfl
  · exact Error.take_padding (Nat.sub_le ..) hle
  · rw [Error.render, hlocation]

/-- A carriage return in front of the place: the character is the third of the quoted line, and the
caret stands in the fourth column, below the character behind it. -/
theorem compile_error_caret_carriage_return :
    let source := "(+\r2x)".toList
    source.length < 2 ^ 32 ∧ source[3]? = some '2' ∧ positionAt source 3 = ⟨1, 4⟩ ∧
      ∃ e quoted, (compile source).1 = .error e ∧
        e.location = some ⟨positionAt source 3, quoted⟩ ∧ quoted.toList[2]? = some '2' ∧
        quoted.toList[3]? = some 'x' ∧ ∃ blanks : List Char, blanks.length = 3 ∧
          e.render = (positionAt source 3).text ++ ": " ++ e.message ++ "\n" ++ quoted ++ "\n" ++
            String.ofList blanks ++ "^" := by
  intro source
  have hlength : source.length < 2 ^ 32 := by decide
  obtain ⟨e, c, hrun, hlocation⟩ : ∃ e c, run { cursor := Cursor.ofText source } = (.error e, c) ∧
      e.location = some ⟨positionAt source 3, String.ofList ['(', '+', '2', 'x', ')']⟩ :=
    ⟨_, _, (run_of_next rfl).trans (run_of_stop rfl), rfl⟩
  have he := compile_of_run_error hrun
  obtain ⟨hquoted, blanks, hblanks, -, hrender⟩ :=
    compile_error_caret hlength he hlocation rfl (by decide) (by decide)
  refine ⟨hlength, rfl, by decide, e, _, he, hlocation, hquoted, ?_, blanks, hblanks, hrender⟩
  rw [String.toList_ofList]
  rfl

end Compiler

end JvmLisp
