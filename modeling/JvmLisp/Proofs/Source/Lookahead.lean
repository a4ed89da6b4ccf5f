import JvmLisp.Proofs.Source.Place

/-! # Looking one character ahead

Two texts that begin alike and differ from some point on. As long as reading stops in front of this
point, it cannot tell the texts apart: it gives the same lexeme or the same error, with the same
line quoted, and leaves two cursors that again stand side by side.
-/

namespace JvmLisp.Source

variable {w w' : List Char}

namespace Cursor

/-- Two cursors have consumed the same, and have the same ahead of them up to the rests `w` and `w'`
of their texts, which are at least one character away. -/
structure Beside (w w' : List Char) (c c' : Cursor) : Prop where
  before_eq : c'.before = c.before
  ahead : ∃ u, u ≠ [] ∧ c.rest = u ++ w ∧ c'.rest = u ++ w'

variable {c c' mark mark' : Cursor}

theorem beside_mk (before : List Char) {u : List Char} (hu : u ≠ []) :
    Beside w w' ⟨before, u ++ w⟩ ⟨before, u ++ w'⟩ :=
  ⟨rfl, u, hu, rfl, rfl⟩

theorem Beside.exists_eq (h : Beside w w' c c') :
    ∃ before d u, c = ⟨before, d :: (u ++ w)⟩ ∧ c' = ⟨before, d :: (u ++ w')⟩ := by
  rcases c with ⟨before, rest⟩
  rcases c' with ⟨before', rest'⟩
  obtain ⟨hbefore, u, hu, hrest, hrest'⟩ := h
  obtain ⟨d, u, rfl⟩ := List.exists_cons_of_ne_nil hu
  obtain rfl : before' = before := hbefore
  obtain rfl : rest = d :: (u ++ w) := hrest
  obtain rfl : rest' = d :: (u ++ w') := hrest'
  exact ⟨before', d, u, rfl, rfl⟩

/-- What has been read so far includes the current character, and no more. -/
theorem Beside.errorAt_eq (h : Beside w w' c c') (hmark : mark'.before = mark.before)
    (cause : Cause) : c'.errorAt mark' cause = c.errorAt mark cause := by
  obtain ⟨before, d, u, rfl, rfl⟩ := h.exists_eq
  have hposition : mark'.position = mark.position := by rw [position, position, hmark]
  have hseen : seen ⟨before, d :: (u ++ w')⟩ = seen ⟨before, d :: (u ++ w)⟩ := rfl
  have hline (n : Nat) :
      lineText ⟨before, d :: (u ++ w')⟩ n = lineText ⟨before, d :: (u ++ w)⟩ n := by
    cases n with
    | zero => rfl
    | succ n => rw [lineText, lineText, hseen]
  rw [errorAt, errorAt, locate, locate, hposition, hline]

/-- Two outcomes are the same, and their cursors stand side by side. -/
structure Agree {α : Type} (w w' : List Char) (o o' : Except Error α × Cursor) : Prop where
  result_eq : o'.1 = o.1
  beside : Beside w w' o.2 o'.2

theorem Beside.fail {α : Type} (h : Beside w w' c c') (hmark : mark'.before = mark.before)
    (fault : Malformed) :
    Agree w w' (c.fail mark fault : Except Error α × Cursor) (c'.fail mark' fault) :=
  ⟨congrArg Except.error (h.errorAt_eq hmark _), h⟩

theorem Beside.ok {α : Type} (h : Beside w w' c c') (x : α) :
    Agree w w' (.ok x, c) (.ok x, c') :=
  ⟨rfl, h⟩

theorem skipLayoutFrom_beside (inComment : Bool) (before u : List Char)
    (hin : w.length < (skipLayoutFrom inComment before (u ++ w)).rest.length) :
    Beside w w' (skipLayoutFrom inComment before (u ++ w))
      (skipLayoutFrom inComment before (u ++ w')) := by
  induction u generalizing inComment before with
  | nil => exact absurd hin (Nat.not_lt.2 (skipLayoutFrom_length_le inComment before w))
  | cons d u ih =>
    rw [List.cons_append, skipLayoutFrom] at hin ⊢
    rw [List.cons_append, skipLayoutFrom]
    split_ifs at hin ⊢
    · exact ih _ _ hin
    · exact ih _ _ hin
    · exact ih _ _ hin
    · exact beside_mk before (List.cons_ne_nil d u)

theorem Beside.skipLayout (h : Beside w w' c c') (hin : w.length < c.skipLayout.rest.length) :
    Beside w w' c.skipLayout c'.skipLayout := by
  obtain ⟨before, d, u, rfl, rfl⟩ := h.exists_eq
  exact skipLayoutFrom_beside false before (d :: u) hin

theorem Beside.advance (h : Beside w w' c c') (hin : w.length < c.advance.rest.length) :
    Beside w w' c.advance c'.advance := by
  obtain ⟨before, d, u, rfl, rfl⟩ := h.exists_eq
  refine beside_mk (d :: before) ?_
  rintro rfl
  exact absurd hin (Nat.lt_irrefl _)

/-- A run of characters that ends in front of the point is the same in both texts. -/
theorem Beside.span (h : Beside w w' c c') {p : Char → Bool}
    (hin : w.length < (c.span p).2.rest.length) :
    (c'.span p).1 = (c.span p).1 ∧ Beside w w' (c.span p).2 (c'.span p).2 := by
  obtain ⟨before, d, u, rfl, rfl⟩ := h.exists_eq
  by_cases hall : ∀ a ∈ d :: u, p a = true
  · simp only [Cursor.span, ← List.cons_append, List.dropWhile_append_of_pos hall] at hin
    exact absurd hin (Nat.not_lt.2 (List.dropWhile_sublist p).length_le)
  · have hdrop : (d :: u).dropWhile p ≠ [] := by rwa [Ne, List.dropWhile_eq_nil_iff]
    have htake : ((d :: u).takeWhile p).length ≠ (d :: u).length := by
      intro hlength
      exact hall (List.takeWhile_eq_self_iff.1 ((List.takeWhile_prefix p).eq_of_length hlength))
    simp only [Cursor.span, ← List.cons_append, List.takeWhile_append, if_neg htake,
      List.dropWhile_append, List.isEmpty_iff, if_neg hdrop]
    exact ⟨trivial, beside_mk _ hdrop⟩

end Cursor

namespace Lexeme

open Cursor (Agree Beside beside_mk)

variable {c c' start start' opening opening' : Cursor}

/-- A character that is neither a mark nor a line end nor an escape belongs to the text. -/
theorem readTextFrom_plain {d : Char} (hquote : d ≠ '"') (hescape : d ≠ '\\') (hnewline : d ≠ '\n')
    (content before rest : List Char) :
    readTextFrom opening content before (d :: rest) =
      readTextFrom opening (d :: content) (d :: before) rest := by
  rw [readTextFrom.eq_def]
  split <;> simp_all

theorem readTextFrom_escape_length_le (opening : Cursor) (content before rest : List Char) :
    (readTextFrom opening content before ('\\' :: rest)).2.rest.length ≤ rest.length := by
  cases rest with
  | nil => simp [readTextFrom, Cursor.fail]
  | cons d rest =>
    rw [readTextFrom]
    split
    · exact (readTextFrom_length_le ..).trans (Nat.le_succ _)
    · split <;> simp [Cursor.fail]

theorem readTextFrom_agree (hopening : opening'.before = opening.before)
    (content before u : List Char)
    (hin : w.length < (readTextFrom opening content before (u ++ w)).2.rest.length) :
    Agree w w' (readTextFrom opening content before (u ++ w))
      (readTextFrom opening' content before (u ++ w')) := by
  induction content, before, u using readTextFrom.induct with
  | case1 content before =>
    exact absurd hin (Nat.not_lt.2 (readTextFrom_length_le opening content before w))
  | case2 content before rest =>
    simp only [List.cons_append, readTextFrom] at hin ⊢
    exact (beside_mk _ (List.ne_nil_of_length_pos (by simpa using hin))).ok _
  | case3 content before rest =>
    simp only [List.cons_append, readTextFrom]
    exact (beside_mk before (List.cons_ne_nil '\n' rest)).fail hopening _
  | case4 content before d rest e he ih =>
    simp only [List.cons_append, readTextFrom, he] at hin ⊢
    exact ih hin
  | case5 content before rest hnone =>
    simp only [List.cons_append, readTextFrom, hnone]
    exact (beside_mk ('\\' :: before) (List.cons_ne_nil '\n' rest)).fail hopening _
  | case6 content before d rest hnone hne =>
    simp only [List.cons_append, readTextFrom, hnone, if_neg hne]
    exact (beside_mk ('\\' :: before) (List.cons_ne_nil d rest)).fail rfl _
  | case7 content before =>
    exact absurd hin (Nat.not_lt.2 (readTextFrom_escape_length_le opening content before w))
  | case8 content before d rest hquote hnewline hescape hend ih =>
    have hne := ne_backslash hescape hend
    rw [List.cons_append, readTextFrom_plain hquote hne hnewline] at hin ⊢
    rw [List.cons_append, readTextFrom_plain hquote hne hnewline]
    exact ih hin

theorem readOpening_agree (h : Beside w w' opening opening')
    (hin : w.length < (readOpening opening).2.rest.length) :
    Agree w w' (readOpening opening) (readOpening opening') := by
  -- Wherever reading stops, the head of the form is in front of the point.
  have hhead := hin.trans_le (leads_readOpening_head opening).length_le
  have hadvance := h.advance (hhead.trans_le (Cursor.leads_skipLayout _).length_le)
  have hskip := hadvance.skipLayout hhead
  obtain ⟨before, d, u, heq, heq'⟩ := hskip.exists_eq
  rw [heq, heq'] at hskip
  simp only [readOpening, heq, heq'] at hin ⊢
  by_cases hclose : d = ')'
  · rw [if_pos hclose, if_pos hclose]
    exact hskip.fail h.before_eq _
  · rw [if_neg hclose] at hin
    rw [if_neg hclose, if_neg hclose]
    by_cases hstructural : isStructural d = true
    · rw [if_pos hstructural, if_pos hstructural]
      exact hskip.fail rfl _
    · rw [if_neg hstructural] at hin
      rw [if_neg hstructural, if_neg hstructural]
      have hspan : w.length < (Cursor.span isAtomic ⟨before, d :: (u ++ w)⟩).2.rest.length := by
        split at hin <;> exact hin
      obtain ⟨hname, hbehind⟩ := hskip.span hspan
      rw [hname]
      split
      · exact hbehind.ok _
      · exact hbehind.fail rfl _

theorem readAtom_agree (h : Beside w w' start start')
    (hin : w.length < (readAtom start).2.rest.length) :
    Agree w w' (readAtom start) (readAtom start') := by
  have hspan : w.length < (start.span isAtomic).2.rest.length := by
    simp only [readAtom] at hin
    split at hin <;> exact hin
  obtain ⟨hatom, hbehind⟩ := h.span hspan
  simp only [readAtom]
  rw [hatom]
  split
  · exact hbehind.ok _
  · exact hbehind.fail h.before_eq _

/-- Reading that stops in front of the point gives the same from both texts. -/
theorem read_agree (h : Beside w w' start start')
    (hin : w.length < (read start).2.rest.length) :
    Agree w w' (read start) (read start') := by
  obtain ⟨before, d, u, rfl, rfl⟩ := h.exists_eq
  by_cases hopening : d = '('
  · subst hopening
    exact readOpening_agree h hin
  · by_cases hquote : d = '"'
    · subst hquote
      rw [read_quote] at hin ⊢
      rw [read_quote]
      obtain ⟨hresult, hbehind⟩ := readTextFrom_agree h.before_eq [] ('"' :: before) u hin
      exact ⟨congrArg (Except.map Lexeme.text) hresult, hbehind⟩
    · rw [read_of_ne hopening hquote] at hin ⊢
      rw [read_of_ne hopening hquote]
      exact readAtom_agree h hin

end Lexeme

end JvmLisp.Source
