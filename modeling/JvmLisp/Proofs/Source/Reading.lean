import JvmLisp.Proofs.Source.Grammar

/-! # Reading follows the grammar

Each reading function gives a result exactly on the texts that the grammar spells it with, and
leaves the rest that the grammar leaves. What is skipped is the longest layout, and what is read as
an integer is a numeral whose value fits.
-/

namespace JvmLisp.Source

/-! ### Layout -/

/-- Inside a comment the rest of the line comes first. -/
theorem Cursor.layout_skipLayoutFrom (inComment : Bool) (before text : List Char) :
    (∃ body s, text = body ++ s ∧ '\n' ∉ body ∧ (inComment = false → body = []) ∧
      (inComment = true → s = [] ∨ s.head? = some '\n') ∧
      Layout s (skipLayoutFrom inComment before text).rest) ∧
    Solid (skipLayoutFrom inComment before text).rest := by
  induction text generalizing inComment before with
  | nil => exact ⟨⟨[], [], by simp [skipLayoutFrom, Layout.done]⟩, solid_nil⟩
  | cons c text ih =>
    rw [skipLayoutFrom]
    split
    · rename_i hc
      simp only [Bool.and_eq_true, bne_iff_ne] at hc
      obtain ⟨⟨body, s, rfl, hbody, -, hend, hlayout⟩, hsolid⟩ := ih true (c :: before)
      exact ⟨⟨c :: body, s, rfl, by simp [hbody, Ne.symm hc.2], by simp [hc.1],
        fun _ => hend rfl, hlayout⟩, hsolid⟩
    · rename_i hc
      have hend : inComment = true → (c :: text).head? = some '\n' := by
        intro hin
        simpa [hin] using hc
      split
      · rename_i hblank
        obtain ⟨⟨body, s, rfl, -, hnil, -, hlayout⟩, hsolid⟩ := ih false (c :: before)
        obtain rfl := hnil rfl
        exact ⟨⟨[], c :: s, rfl, by simp, by simp, fun h => .inr (hend h),
          .blank hblank hlayout⟩, hsolid⟩
      · rename_i hblank
        split
        · rename_i hsemi
          obtain rfl := eq_of_beq hsemi
          obtain ⟨⟨body, s, rfl, hbody, -, hline, hlayout⟩, hsolid⟩ := ih true (';' :: before)
          exact ⟨⟨[], _, rfl, by simp, by simp, fun h => .inr (hend h),
            .comment hbody (hline rfl) hlayout⟩, hsolid⟩
        · rename_i hsemi
          refine ⟨⟨[], _, rfl, by simp, by simp, fun h => .inr (hend h), .done _⟩, ?_⟩
          intro d hd
          obtain rfl := Option.some.inj hd
          exact ⟨by simpa using hblank, by simpa using hsemi⟩

theorem Cursor.layout_skipLayout (c : Cursor) : Layout c.rest c.skipLayout.rest := by
  obtain ⟨⟨body, s, hs, -, hnil, -, hlayout⟩, -⟩ := layout_skipLayoutFrom false c.before c.rest
  rw [hs, hnil rfl]
  exact hlayout

theorem Cursor.solid_skipLayout (c : Cursor) : Solid c.skipLayout.rest :=
  (layout_skipLayoutFrom false c.before c.rest).2

theorem Cursor.skipLayout_rest {c : Cursor} {r : List Char} (h : Layout c.rest r) (hr : Solid r) :
    c.skipLayout.rest = r :=
  c.layout_skipLayout.unique h c.solid_skipLayout hr

/-! ### Integers -/

theorem foldl_digits_ge (n : Nat) (digits : List Char) :
    n * 10 ^ digits.length ≤ digits.foldl (fun n c => 10 * n + (c.toNat - '0'.toNat)) n := by
  induction digits generalizing n with
  | nil => simp
  | cons c digits ih =>
    refine le_trans ?_ (ih _)
    rw [List.length_cons, pow_succ', ← mul_assoc]
    exact Nat.mul_le_mul_right _ (by dsimp only; omega)

theorem digitsValue_eq (digits : List Char) : digitsValue digits = decimalValue digits := by
  rw [digitsValue, decimalValue, Nat.ofDigits_eq_foldr, List.map_reverse, List.foldr_reverse,
    List.foldl_map]
  congr 1
  funext n c
  simp [Nat.add_comm]

theorem digitsValue_dropWhile (digits : List Char) :
    digitsValue (digits.dropWhile (· == '0')) = digitsValue digits := by
  induction digits with
  | nil => rfl
  | cons c digits ih =>
    by_cases hc : c = '0'
    · subst hc
      simpa [digitsValue] using ih
    · simp [hc]

/-- A number with more digits than any word, none of them a leading zero, fits no word. -/
theorem le_digitsValue {digits : List Char} (hdigits : ∀ c ∈ digits, c.isDigit)
    (hlong : maxDigits < (digits.dropWhile (· == '0')).length) : 2 ^ 63 < digitsValue digits := by
  rw [← digitsValue_dropWhile]
  have hsub := (List.dropWhile_sublist (l := digits) (· == '0')).subset
  have hhead := List.head?_dropWhile_not (· == '0') digits
  rcases hd : digits.dropWhile (· == '0') with _ | ⟨c, rest⟩
  · simp [hd] at hlong
  · rw [hd] at hlong hsub hhead
    have hc : 1 ≤ c.toNat - '0'.toNat := by
      have hdigit := hdigits c (hsub (by simp))
      have hne : c ≠ '0' := by simpa using hhead
      have hne' : c.toNat ≠ 48 := fun h => hne (Char.toNat_inj.1 h)
      simp only [Char.isDigit, Bool.and_eq_true, decide_eq_true_eq, ge_iff_le,
        UInt32.le_iff_toNat_le] at hdigit
      have : 48 ≤ c.toNat := hdigit.1
      have : '0'.toNat = 48 := rfl
      omega
    have hge := foldl_digits_ge (c.toNat - '0'.toNat) rest
    simp only [maxDigits, List.length_cons] at hlong
    calc 2 ^ 63 < 1 * 10 ^ 19 := by norm_num
      _ ≤ (c.toNat - '0'.toNat) * 10 ^ rest.length :=
        Nat.mul_le_mul hc (Nat.pow_le_pow_right (by norm_num) (by omega))
      _ ≤ _ := hge
      _ = _ := by simp [digitsValue]

theorem Int64.eq_ofInt_iff {n : Int} {v : Int64} (hlo : -2 ^ 63 ≤ n) (hhi : n < 2 ^ 63) :
    Int64.ofInt n = v ↔ v.toInt = n := by
  constructor
  · rintro rfl
    exact Int64.toInt_ofInt_of_le hlo hhi
  · rintro rfl
    exact Int64.ofInt_toInt v

theorem signedValue?_eq_some {negative : Bool} {digits : List Char} {v : Int64}
    (hdigits : ∀ c ∈ digits, c.isDigit) :
    signedValue? negative (digits.dropWhile (· == '0')) = some v ↔
      v.toInt = if negative then -(decimalValue digits : Int) else decimalValue digits := by
  have hlo := Int64.le_toInt v
  have hhi := Int64.toInt_lt v
  rw [signedValue?, digitsValue_dropWhile, digitsValue_eq, Int64.toInt_minValue,
    Int64.toInt_maxValue]
  split
  · rename_i hlong
    have hbig := le_digitsValue hdigits hlong
    rw [digitsValue_eq] at hbig
    simp only [reduceCtorEq, false_iff]
    cases negative <;> simp <;> omega
  · dsimp only
    generalize (if negative then -(decimalValue digits : Int) else decimalValue digits) = value
    split
    · rename_i hrange
      rw [Option.some.injEq, Int64.eq_ofInt_iff hrange.1 (Int.lt_of_le_sub_one hrange.2)]
    · rename_i hrange
      simp only [reduceCtorEq, false_iff]
      intro h
      exact hrange (h ▸ ⟨hlo, Int.le_sub_one_of_lt hhi⟩)

theorem readInteger_append (sign digits : List Char) {negative : Bool} {v : Int64}
    (h : splitSign (sign ++ digits) = (negative, digits)) :
    readInteger (sign ++ digits) = .ok v ↔ digits ≠ [] ∧ (∀ c ∈ digits, c.isDigit) ∧
      v.toInt = if negative then -(decimalValue digits : Int) else decimalValue digits := by
  simp only [readInteger, h]
  split
  · rename_i hbad
    simp only [Bool.or_eq_true, List.isEmpty_iff, Bool.not_eq_true', List.all_eq_false] at hbad
    simp only [reduceCtorEq, false_iff]
    rintro ⟨hne, hall, -⟩
    obtain hnil | ⟨c, hc, hdigit⟩ := hbad
    · exact hne hnil
    · exact hdigit (hall c hc)
  · rename_i hgood
    simp only [Bool.or_eq_true, List.isEmpty_iff, Bool.not_eq_true', List.all_eq_false,
      not_or, not_exists, not_and, not_not] at hgood
    rw [← signedValue?_eq_some hgood.2]
    split <;> simp_all

theorem splitSign_of_isDigit {digits : List Char} (h : ∀ c ∈ digits, c.isDigit) :
    splitSign digits = (false, digits) := by
  unfold splitSign
  split
  · simp [Char.isDigit] at h
  · simp [Char.isDigit] at h
  · rfl

theorem readInteger_eq_ok {a : List Char} {v : Int64} :
    readInteger a = .ok v ↔ Numeral a v := by
  constructor
  · intro h
    rcases hsplit : splitSign a with ⟨negative, digits⟩
    unfold splitSign at hsplit
    split at hsplit <;> obtain ⟨rfl, rfl⟩ := Prod.mk.inj hsplit
    · obtain ⟨hne, hall, hv⟩ := (readInteger_append ['-'] _ rfl).1 h
      exact .negative hne hall (by simpa using hv)
    · obtain ⟨hne, hall, hv⟩ := (readInteger_append ['+'] _ rfl).1 h
      exact @Numeral.positive ['+'] _ _ (.inr rfl) hne hall (by simpa using hv)
    · rename_i hminus hplus
      have hsplit : splitSign ([] ++ a) = (false, a) := by simp [splitSign]
      obtain ⟨hne, hall, hv⟩ := (readInteger_append [] a hsplit).1 h
      exact @Numeral.positive [] _ _ (.inl rfl) hne hall (by simpa using hv)
  · intro h
    cases h with
    | positive hsign hne hall hv =>
      rcases hsign with rfl | rfl
      · exact (readInteger_append [] _ (splitSign_of_isDigit hall)).2 ⟨hne, hall, by simpa using hv⟩
      · exact (readInteger_append ['+'] _ rfl).2 ⟨hne, hall, by simpa using hv⟩
    | negative hne hall hv =>
      exact (readInteger_append ['-'] _ rfl).2 ⟨hne, hall, by simpa using hv⟩

/-! ### Quoted text -/

namespace Lexeme

theorem quoted_of_readTextFrom {opening cursor : Cursor} {content before s : List Char}
    {text : String} (h : readTextFrom opening content before s = (.ok text, cursor)) :
    ∃ more, Quoted more s cursor.rest ∧ text = String.ofList (content.reverse ++ more) := by
  fun_induction readTextFrom opening content before s with
  | case2 content before rest =>
    obtain ⟨rfl, rfl⟩ := by simpa using h
    exact ⟨[], .closing _, by simp⟩
  | case4 content before c rest d hd ih =>
    obtain ⟨more, hmore, rfl⟩ := ih h
    exact ⟨d :: more, .escape hd hmore, by simp⟩
  | case8 content before c rest hquote hnewline hescape hend ih =>
    obtain ⟨more, hmore, rfl⟩ := ih h
    refine ⟨c :: more, .plain hquote ?_ hnewline hmore, by simp⟩
    rintro rfl
    cases rest with
    | nil => exact hend rfl rfl
    | cons d rest => exact hescape d rest rfl rfl
  | _ => simp [Cursor.fail] at h

theorem readTextFrom_of_quoted {more s r : List Char} (h : Quoted more s r) (opening : Cursor)
    (content before : List Char) : ∃ cursor, cursor.rest = r ∧
      readTextFrom opening content before s =
        (.ok (String.ofList (content.reverse ++ more)), cursor) := by
  induction h generalizing content before with
  | closing r => exact ⟨⟨'"' :: before, r⟩, rfl, by simp [readTextFrom]⟩
  | @plain c more s r hquote hbackslash hnewline h ih =>
    obtain ⟨cursor, hr, hread⟩ := ih (c :: content) (c :: before)
    refine ⟨cursor, hr, ?_⟩
    rw [readTextFrom.eq_def]
    split <;> simp_all
  | @escape c d more s r hd h ih =>
    obtain ⟨cursor, hr, hread⟩ := ih (d :: content) (c :: '\\' :: before)
    refine ⟨cursor, hr, ?_⟩
    rw [readTextFrom, hd]
    simpa using hread

/-! ### Lexemes -/

theorem ofName?_eq_some {name : String} {op : Operator} :
    Operator.ofName? name = some op ↔ name = op.name := by
  unfold Operator.ofName?
  cases op <;> simp only [Operator.name] <;> grind

theorem readOpening_eq_ok {before s : List Char} {cursor : Cursor} {lexeme : Lexeme}
    (h : readOpening ⟨before, '(' :: s⟩ = (.ok lexeme, cursor)) :
    Spells (.lexeme lexeme) ('(' :: s) cursor.rest := by
  set head := Cursor.skipLayout ⟨'(' :: before, s⟩ with hhead
  have hlayout : Layout s head.rest := Cursor.layout_skipLayout ⟨'(' :: before, s⟩
  have hsolid : Solid head.rest := Cursor.solid_skipLayout ⟨'(' :: before, s⟩
  simp only [readOpening, Cursor.advance, ← hhead, Cursor.fail] at h
  split at h
  · simp at h
  · rename_i c rest hrest
    split at h
    · simp at h
    · split at h
      · simp at h
      · rename_i hstructural
        split at h
        · rename_i op hop
          obtain ⟨hlexeme, rfl⟩ := Prod.mk.inj h
          obtain rfl := Except.ok.inj hlexeme
          refine .opening hlayout (atom_iff.2 ⟨?_, rfl, ?_⟩)
          · rw [← ofName?_eq_some.1 hop, String.toList_ofList]
            rfl
          · cases op <;> simp [Operator.name]
        · simp at h

theorem spells_of_read {start cursor : Cursor} {lexeme : Lexeme}
    (h : read start = (.ok lexeme, cursor)) : Spells (.lexeme lexeme) start.rest cursor.rest := by
  obtain ⟨before, s⟩ := start
  unfold read at h
  split at h
  · rename_i rest hs
    obtain rfl : s = '(' :: rest := hs
    exact readOpening_eq_ok h
  · rename_i rest hs
    obtain rfl : s = '"' :: rest := hs
    split at h
    · rename_i content next hread
      obtain ⟨hlexeme, rfl⟩ := Prod.mk.inj h
      obtain rfl := Except.ok.inj hlexeme
      obtain ⟨more, hmore, rfl⟩ := quoted_of_readTextFrom hread
      exact .text hmore
    · simp at h
  · simp only [readAtom, Cursor.span, Cursor.fail] at h
    split at h
    · rename_i v hv
      obtain ⟨hlexeme, rfl⟩ := Prod.mk.inj h
      obtain rfl := Except.ok.inj hlexeme
      refine .integer (atom_iff.2 ⟨rfl, rfl, ?_⟩) (readInteger_eq_ok.1 hv)
      intro hnil
      rw [hnil] at hv
      simp [readInteger, splitSign] at hv
    · simp at h

theorem read_of_spells {lexeme : Lexeme} {s r : List Char} (h : Spells (.lexeme lexeme) s r)
    (before : List Char) : ∃ cursor, cursor.rest = r ∧ read ⟨before, s⟩ = (.ok lexeme, cursor) := by
  cases h with
  | @opening op s t r hlayout hatom =>
    obtain ⟨c, hc, -⟩ := hatom.head
    have hhead : (Cursor.skipLayout ⟨'(' :: before, s⟩).rest = t :=
      Cursor.skipLayout_rest hlayout hatom.solid
    obtain ⟨rest, rfl⟩ := List.head?_eq_some_iff.1 hc
    have hstructural : isStructural c = false := hatom.not_structural
    have hclosing : c ≠ ')' := by
      rintro rfl
      simp [isStructural] at hstructural
    obtain ⟨htake, hdrop, -⟩ := atom_iff.1 hatom
    refine ⟨((Cursor.skipLayout ⟨'(' :: before, s⟩).span isAtomic).2, ?_, ?_⟩
    · rw [hdrop, ← hhead]
      rfl
    · have hname : Operator.ofName? (String.ofList ((c :: rest).takeWhile isAtomic)) = some op := by
        rw [ofName?_eq_some, ← htake, String.ofList_toList]
      simp only [read, readOpening, Cursor.advance]
      rw [hhead]
      simp only [Cursor.span, hhead, hclosing, hstructural, hname]
      rfl
  | @text content s r hquoted =>
    obtain ⟨cursor, hr, hread⟩ := readTextFrom_of_quoted hquoted ⟨before, '"' :: s⟩ []
      ('"' :: before)
    exact ⟨cursor, hr, by simp [read, hread]⟩
  | @integer a s r v hatom hnumeral =>
    obtain ⟨htake, hdrop, -⟩ := atom_iff.1 hatom
    obtain ⟨c, hc, -⟩ := hatom.head
    obtain ⟨rest, rfl⟩ := List.head?_eq_some_iff.1 hc
    refine ⟨(Cursor.span isAtomic ⟨before, c :: rest⟩).2, hdrop.symm, ?_⟩
    have hread : readAtom ⟨before, c :: rest⟩ =
        (.ok (.integer v), (Cursor.span isAtomic ⟨before, c :: rest⟩).2) := by
      simp only [readAtom, Cursor.span, ← htake, readInteger_eq_ok.2 hnumeral]
    unfold read
    split
    · rename_i heq
      obtain ⟨rfl, -⟩ := List.cons.inj heq
      exact absurd hatom.not_structural (by decide)
    · rename_i heq
      obtain ⟨rfl, -⟩ := List.cons.inj heq
      exact absurd hatom.not_structural (by decide)
    · exact hread

end Lexeme

/-! ### Scanning -/

theorem Spells.ne_nil {t : Token} {s r : List Char} (h : Spells t s r) : s ≠ [] := by
  cases h with
  | integer h =>
    rw [h.split]
    simp [h.nonempty]
  | _ => simp

theorem not_spells_closing {l : Lexeme} {s r : List Char} :
    ¬Spells (.lexeme l) (')' :: s) r := by
  intro h
  cases h with
  | integer h => exact absurd h.not_structural (by decide)

theorem Spells.unique {t t' : Token} {s r r' : List Char} (h : Spells t s r)
    (h' : Spells t' s r') : t = t' ∧ r = r' := by
  rcases t with l | _ <;> rcases t' with l' | _
  · obtain ⟨cursor, rfl, hread⟩ := Lexeme.read_of_spells h []
    obtain ⟨cursor', rfl, hread'⟩ := Lexeme.read_of_spells h' []
    obtain ⟨hl, rfl⟩ := Prod.mk.inj (hread.symm.trans hread')
    obtain rfl := Except.ok.inj hl
    exact ⟨rfl, rfl⟩
  · cases h'
    exact absurd h not_spells_closing
  · cases h
    exact absurd h' not_spells_closing
  · cases h
    cases h'
    exact ⟨rfl, rfl⟩

/-- A whole text is scanned into tokens in one way only. -/
theorem Scan.unique {ts ts' : List Token} {s r r' : List Char} (h : Scan ts s r)
    (h' : Scan ts' s r') (hr : Layout r []) (hr' : Layout r' []) : ts = ts' := by
  induction h generalizing ts' with
  | nil s =>
    cases h' with
    | nil => rfl
    | cons hlayout hspells _ =>
      exact absurd (hlayout.unique hr hspells.solid solid_nil) hspells.ne_nil
  | cons hlayout hspells _ ih =>
    cases h' with
    | nil => exact absurd (hlayout.unique hr' hspells.solid solid_nil) hspells.ne_nil
    | cons hlayout' hspells' hscan' =>
      obtain rfl := hlayout.unique hlayout' hspells.solid hspells'.solid
      obtain ⟨rfl, rfl⟩ := hspells.unique hspells'
      rw [ih hscan' hr]

theorem Spells.length_lt {t : Token} {s r : List Char} (h : Spells t s r) :
    r.length < s.length := by
  cases t with
  | lexeme l =>
    obtain ⟨cursor, rfl, hread⟩ := Lexeme.read_of_spells h []
    exact Lexeme.read_length_lt hread
  | closing =>
    cases h
    exact Nat.lt_succ_self _

/-- There are no more tokens than characters. -/
theorem Scan.length_le {ts : List Token} {s r : List Char} (h : Scan ts s r) :
    ts.length + r.length ≤ s.length := by
  induction h with
  | nil s => simp
  | @cons t ts s s' s'' r hlayout hspells hscan ih =>
    have hrest : (Cursor.skipLayout ⟨[], s⟩).rest = s' :=
      Cursor.skipLayout_rest hlayout hspells.solid
    have hle := Cursor.skipLayout_length_le ⟨[], s⟩
    have hlt := hspells.length_lt
    simp only [hrest, List.length_cons] at hle ⊢
    omega

/-- A token that is read is the next of a scan. -/
theorem Scan.of_read {s r : List Char} {l : Lexeme} {cursor : Cursor} {ts : List Token}
    (hread : Lexeme.read (Cursor.skipLayout ⟨[], s⟩) = (.ok l, cursor))
    (h : Scan ts cursor.rest r) : Scan (.lexeme l :: ts) s r :=
  .cons (Cursor.layout_skipLayout ⟨[], s⟩) (Lexeme.spells_of_read hread) h

theorem Scan.of_closing {s s' r : List Char} {ts : List Token}
    (hrest : (Cursor.skipLayout ⟨[], s⟩).rest = ')' :: s') (h : Scan ts s' r) :
    Scan (.closing :: ts) s r :=
  .cons (Cursor.layout_skipLayout ⟨[], s⟩) (hrest ▸ .closing s') h

end JvmLisp.Source
