import JvmLisp.Proofs.Source.Reading

/-! # Faults of reading

What a lexeme can be refused for. Every fault is one of the named ones, and an atom that is refused
as a literal is not empty, because reading starts where no layout and no parenthesis stands. So two
messages that a reader would have for a text that ends too early are never given.
-/

namespace JvmLisp

theorem append_ne_of_getElem? {s t u : String} (k : Nat) (hk : k < s.toList.length)
    (h : s.toList[k]? ≠ u.toList[k]?) : s ++ t ≠ u := by
  rintro rfl
  rw [String.toList_append, List.getElem?_append_left hk] at h
  exact h rfl

namespace Malformed

/-- All malformed text is reported with the same words in front. -/
theorem cause_message {fault : Malformed} {start text whole : String}
    (h : fault.message = start ++ text) (hwhole : "syntax error: " ++ start = whole) :
    (Cause.malformed fault).message = whole ++ text := by
  have hmessage : (Cause.malformed fault).message = "syntax error: " ++ fault.message := rfl
  rw [hmessage, h, ← String.append_assoc, hwhole]

/-- The faults that a source text can have. -/
def Readable : Malformed → Prop
  | notALiteral atom => atom ≠ ""
  | other _ => False
  | _ => True

theorem Readable.message_ne {fault : Malformed} (h : fault.Readable) :
    fault.message ≠ "unexpected end of input" ∧
      fault.message ≠ "expected a literal, found ``" := by
  cases fault with
  | unclosedForm | emptyForm | missingName | strayClose | unterminatedText => decide
  | unknownForm name =>
    have hmessage : (unknownForm name).message = "unknown form `" ++ (name ++ "`") :=
      String.append_assoc
    -- The third character differs from that of both texts.
    rw [hmessage]
    constructor <;> exact append_ne_of_getElem? 2 (by decide) (by decide)
  | invalidEscape c =>
    constructor <;> exact append_ne_of_getElem? 0 (by decide) (by decide)
  | outOfRange atom =>
    have hmessage : (outOfRange atom).message =
        "integer literal `" ++ (atom ++ "` is out of range") := String.append_assoc
    rw [hmessage]
    constructor <;> exact append_ne_of_getElem? 0 (by decide) (by decide)
  | notALiteral atom =>
    have hmessage : (notALiteral atom).message = "expected a literal, found `" ++ (atom ++ "`") :=
      String.append_assoc
    have hempty : "expected a literal, found ``" = "expected a literal, found `" ++ ("" ++ "`") :=
      rfl
    rw [hmessage]
    constructor
    · exact append_ne_of_getElem? 0 (by decide) (by decide)
    · rw [hempty, Ne, String.append_right_inj, String.append_left_inj]
      exact h
  | other message => exact h.elim

end Malformed

namespace Source

/-- The error of an outcome, if there is one, is a readable fault. -/
def OnlyReadable {α : Type} (outcome : Except Error α × Cursor) : Prop :=
  ∀ e, outcome.1 = .error e → ∃ fault : Malformed, fault.Readable ∧ e.cause = .malformed fault

theorem onlyReadable_fail {α : Type} (c mark : Cursor) {fault : Malformed} (h : fault.Readable) :
    OnlyReadable (c.fail mark fault : Except Error α × Cursor) := by
  intro e he
  obtain rfl := Except.error.inj he
  exact ⟨fault, h, rfl⟩

theorem onlyReadable_ok {α : Type} (x : α) (c : Cursor) : OnlyReadable (.ok x, c) := by
  intro e he
  cases he

theorem readInteger_error {atom : List Char} {fault : Malformed} (hne : atom ≠ [])
    (h : readInteger atom = .error fault) : fault.Readable := by
  simp only [readInteger] at h
  split at h
  · obtain rfl := Except.error.inj h
    simpa [Malformed.Readable] using hne
  · split at h
    · cases h
    · obtain rfl := Except.error.inj h
      trivial

namespace Lexeme

theorem onlyReadable_readTextFrom (opening : Cursor) (content before s : List Char) :
    OnlyReadable (readTextFrom opening content before s) := by
  fun_induction readTextFrom opening content before s with
  | case2 => exact onlyReadable_ok _ _
  | case4 _ _ _ _ _ _ ih | case8 _ _ _ _ _ _ _ _ ih => exact ih
  | _ => exact onlyReadable_fail _ _ trivial

theorem onlyReadable_readOpening (opening : Cursor) : OnlyReadable (readOpening opening) := by
  simp only [readOpening]
  split
  · exact onlyReadable_fail _ _ trivial
  · split
    · exact onlyReadable_fail _ _ trivial
    · split
      · exact onlyReadable_fail _ _ trivial
      · split
        · exact onlyReadable_ok _ _
        · exact onlyReadable_fail _ _ trivial

theorem onlyReadable_readAtom {start : Cursor} {c : Char} {s : List Char} (hrest : start.rest = c :: s)
    (hc : isAtomic c) : OnlyReadable (readAtom start) := by
  have hne : start.rest.takeWhile isAtomic ≠ [] := by simp [hrest, hc]
  simp only [readAtom, Cursor.span]
  split
  · exact onlyReadable_ok _ _
  · rename_i fault hfault
    exact onlyReadable_fail _ _ (readInteger_error hne hfault)

/-- Reading finds a readable fault or none, wherever a lexeme is looked for. -/
theorem onlyReadable_read {start : Cursor} {c : Char} {s : List Char} (hrest : start.rest = c :: s)
    (hsolid : Solid start.rest) (hc : c ≠ ')') : OnlyReadable (read start) := by
  rw [hrest] at hsolid
  rw [read]
  split
  · exact onlyReadable_readOpening start
  · rename_i rest _
    have htext := onlyReadable_readTextFrom start [] ('"' :: start.before) rest
    split
    · exact onlyReadable_ok _ _
    · rename_i hread
      rw [hread] at htext
      intro e he
      obtain rfl := Except.error.inj he
      exact htext _ rfl
  · rename_i hopening hquote
    obtain ⟨hblank, hcomment⟩ := hsolid c rfl
    have hparenthesis : c ≠ '(' := fun h => hopening s (by rw [hrest, h])
    have hmark : c ≠ '"' := fun h => hquote s (by rw [hrest, h])
    refine onlyReadable_readAtom hrest ?_
    simp [isAtomic, isStructural, hblank, hparenthesis, hc, hmark, hcomment]

end Lexeme

end Source

end JvmLisp
