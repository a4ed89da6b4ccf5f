import JvmLisp.Proofs.Source.Flaw

/-! # Numbers that atoms stand for

A sign, which may be missing, and digits stand for a number of any size, and for one only. So there
are three kinds of atoms: those of a number that fits a word, those of a number that does not, and
all others. Reading an atom tells its kind, although it counts the digits behind leading zeros before
it looks at their value. The decimal text of a word is an atom of the first kind.
-/

namespace JvmLisp.Source

/-- An atom is a sign, which may be missing, and digits. It stands for their value, of any size. -/
inductive Denotes : List Char → Int → Prop
  | positive {sign digits : List Char} : sign = [] ∨ sign = ['+'] → digits ≠ [] →
    (∀ c ∈ digits, c.isDigit) → Denotes (sign ++ digits) (decimalValue digits)
  | negative {digits : List Char} : digits ≠ [] → (∀ c ∈ digits, c.isDigit) →
    Denotes ('-' :: digits) (-decimalValue digits)

variable {a s r : List Char} {c : Char} {z z' : Int} {v : Int64}

theorem Denotes.eq_value (h : Denotes a z) :
    z = if (splitSign a).1 then -(decimalValue (splitSign a).2 : Int)
      else decimalValue (splitSign a).2 := by
  cases h with
  | positive hsign _ hdigits =>
    rcases hsign with rfl | rfl
    · rw [List.nil_append, splitSign_of_isDigit hdigits]
      rfl
    · rfl
  | negative => rfl

theorem Denotes.unique (h : Denotes a z) (h' : Denotes a z') : z' = z := by
  rw [h.eq_value, h'.eq_value]

theorem numeral_iff : Numeral a v ↔ Denotes a v.toInt := by
  constructor
  · intro h
    cases h with
    | positive hsign hne hdigits hv =>
      rw [hv]
      exact .positive hsign hne hdigits
    | negative hne hdigits hv =>
      rw [hv]
      exact .negative hne hdigits
  · intro h
    generalize hz : v.toInt = z at h
    cases h with
    | positive hsign hne hdigits => exact .positive hsign hne hdigits hz
    | negative hne hdigits => exact .negative hne hdigits hz

theorem isDecimal_iff_denotes : IsDecimal a ↔ ∃ z, Denotes a z := by
  constructor
  · rintro ⟨sign, digits, hsign, rfl, hne, hdigits⟩
    rcases hsign with rfl | rfl | rfl
    · exact ⟨_, .positive (.inl rfl) hne hdigits⟩
    · exact ⟨_, .positive (.inr rfl) hne hdigits⟩
    · exact ⟨_, .negative hne hdigits⟩
  · rintro ⟨z, h⟩
    cases h with
    | positive hsign hne hdigits =>
      exact ⟨_, _, hsign.imp_right .inl, rfl, hne, hdigits⟩
    | negative hne hdigits => exact ⟨['-'], _, .inr (.inr rfl), rfl, hne, hdigits⟩

/-! ### Reading -/

theorem readInteger_of_denotes (h : Denotes a v.toInt) : readInteger a = .ok v :=
  readInteger_eq_ok.2 (numeral_iff.2 h)

theorem readInteger_of_not_fits (h : Denotes a z) (hz : ¬(-2 ^ 63 ≤ z ∧ z < 2 ^ 63)) :
    readInteger a = .error (.outOfRange (String.ofList a)) := by
  cases hread : readInteger a with
  | ok v =>
    -- The atom stands for what is read, and that fits.
    have hv : v.toInt = z := h.unique (numeral_iff.1 (readInteger_eq_ok.1 hread))
    exact absurd ⟨hv ▸ v.le_toInt, hv ▸ v.toInt_lt⟩ hz
  | error fault =>
    rcases readInteger_eq_error hread with ⟨-, -, rfl⟩ | ⟨hdecimal, -⟩
    · rfl
    · exact absurd (isDecimal_iff_denotes.2 ⟨z, h⟩) hdecimal

theorem readInteger_of_not_denotes (h : ∀ z, ¬Denotes a z) :
    readInteger a = .error (.notALiteral (String.ofList a)) := by
  cases hread : readInteger a with
  | ok v => exact absurd (numeral_iff.1 (readInteger_eq_ok.1 hread)) (h _)
  | error fault =>
    rcases readInteger_eq_error hread with ⟨hdecimal, -⟩ | ⟨-, rfl⟩
    · obtain ⟨z, hz⟩ := isDecimal_iff_denotes.1 hdecimal
      exact absurd hz (h z)
    · rfl

/-- At an atom, its text decides what is read. -/
theorem Lexeme.read_of_atom (h : Atom a s r) (before : List Char) :
    read ⟨before, s⟩ = match readInteger a with
      | .ok value => (.ok (.integer value), ⟨a.reverse ++ before, r⟩)
      | .error fault => Cursor.fail ⟨a.reverse ++ before, r⟩ ⟨before, s⟩ fault := by
  obtain ⟨d, hd, -⟩ := h.head
  obtain ⟨rest, rfl⟩ := List.head?_eq_some_iff.1 hd
  obtain ⟨htake, hdrop, -⟩ := atom_iff.1 h
  have hopening : d ≠ '(' := by
    rintro rfl
    exact absurd h.not_structural (by decide)
  have hquote : d ≠ '"' := by
    rintro rfl
    exact absurd h.not_structural (by decide)
  have hspan : Cursor.span isAtomic ⟨before, d :: rest⟩ = (a, ⟨a.reverse ++ before, r⟩) := by
    rw [Cursor.span, ← htake, ← hdrop, List.reverseAux_eq]
  rw [read_of_ne hopening hquote]
  cases hread : readInteger a with
  | ok v => simp only [readAtom, hspan, hread]
  | error fault => simp only [readAtom, hspan, hread]

/-! ### Decimal text -/

theorem isAtomic_of_isDigit (h : c.isDigit) : isAtomic c := by
  have hcode : 48 ≤ c.toNat ∧ c.toNat ≤ 57 := Char.isDigit_iff_toNat.1 h
  have hblank : Text.isBlank c = false := by
    simp only [Text.isBlank, Text.blankRanges, Text.covers]
    simp
    omega
  have hstructural : isStructural c = false := by
    have hne (d : Char) (hd : ¬d.isDigit) : c ≠ d := by
      rintro rfl
      exact hd h
    simp [isStructural, hne]
  simp [isAtomic, hblank, hstructural]

/-- A number that is followed by white space or structure is an atom. -/
theorem Denotes.atom (h : Denotes a z) (hr : ∀ c, r.head? = some c → ¬isAtomic c) :
    Atom a (a ++ r) r := by
  have hsign : isAtomic '+' ∧ isAtomic '-' := by decide
  cases h with
  | positive hs hne hdigits =>
    refine ⟨rfl, by simp [hne], ?_, hr⟩
    intro c hc
    rcases List.mem_append.1 hc with hc | hc
    · rcases hs with rfl | rfl
      · cases hc
      · obtain rfl := List.mem_singleton.1 hc
        exact hsign.1
    · exact isAtomic_of_isDigit (hdigits c hc)
  | negative hne hdigits =>
    refine ⟨rfl, by simp, ?_, hr⟩
    intro c hc
    rcases List.mem_cons.1 hc with rfl | hc
    · exact hsign.2
    · exact isAtomic_of_isDigit (hdigits c hc)

theorem toDigits_spells (n : Nat) : Nat.toDigits 10 n ≠ [] ∧
    (∀ c ∈ Nat.toDigits 10 n, c.isDigit) ∧ decimalValue (Nat.toDigits 10 n) = n := by
  refine ⟨Nat.toDigits_ne_nil, ?_, ?_⟩
  · intro c hc
    exact Nat.isDigit_of_mem_toDigits (by decide) (by decide) hc
  · rw [← digitsValue_eq]
    exact Nat.ofDigitChars_ten_toDigits

theorem toList_toString_of_nonneg (h : 0 ≤ z) :
    (toString z).toList = Nat.toDigits 10 z.toNat := by
  rw [Int.toString_eq_repr, Int.repr_eq_if, if_pos h, Nat.toList_repr]

theorem denotes_toString (z : Int) : Denotes (toString z).toList z := by
  by_cases hz : 0 ≤ z
  · obtain ⟨hne, hdigits, hvalue⟩ := toDigits_spells z.toNat
    have h := Denotes.positive (.inl rfl) hne hdigits
    rwa [hvalue, Int.toNat_of_nonneg hz, List.nil_append, ← toList_toString_of_nonneg hz] at h
  · obtain ⟨hne, hdigits, hvalue⟩ := toDigits_spells (-z).toNat
    have h := Denotes.negative hne hdigits
    rw [hvalue, Int.toNat_of_nonneg (by omega), Int.neg_neg] at h
    rw [Int.toString_eq_repr, Int.repr_eq_if, if_neg hz, String.toList_append, Nat.toList_repr]
    exact h

theorem denotes_plus_toString (hz : 0 ≤ z) : Denotes ('+' :: (toString z).toList) z := by
  obtain ⟨hne, hdigits, hvalue⟩ := toDigits_spells z.toNat
  have h := Denotes.positive (.inr rfl) hne hdigits
  rwa [hvalue, Int.toNat_of_nonneg hz, ← toList_toString_of_nonneg hz] at h

end JvmLisp.Source
