import JvmLisp.Jvm.Descriptor
import Mathlib.Data.List.TakeWhile
import Mathlib.Tactic

/-! # Reading descriptors

Descriptors are read back into types. Reading is the inverse of writing for all types whose class
names have no semicolon in them, since a semicolon ends the name. So a text without any separator
between its parts still has one meaning, and the words that arguments take can be counted in it.
-/

namespace JvmLisp.Jvm

namespace FieldType

/-- Reads a type at the start of a text. -/
def read : List Char → Option (FieldType × List Char)
  | 'B' :: r => some (byte, r)
  | 'C' :: r => some (char, r)
  | 'D' :: r => some (double, r)
  | 'F' :: r => some (float, r)
  | 'I' :: r => some (int, r)
  | 'J' :: r => some (long, r)
  | 'S' :: r => some (short, r)
  | 'Z' :: r => some (boolean, r)
  | 'L' :: r => match r.dropWhile (· != ';') with
    | ';' :: r' => some (object (String.ofList (r.takeWhile (· != ';'))), r')
    | _ => none
  | '[' :: r => (read r).map fun (t, r) => (array t, r)
  | _ => none

theorem read_length_lt {s r : List Char} {t : FieldType} (h : read s = some (t, r)) :
    r.length < s.length := by
  fun_induction read s generalizing t with
  | case9 s r' hdrop =>
    have hle := (List.dropWhile_suffix (l := s) (· != ';')).length_le
    rw [hdrop] at hle
    simp only [Option.some.injEq, Prod.mk.injEq] at h
    simp only [← h.2, List.length_cons] at hle ⊢
    omega
  | case11 s ih =>
    simp only [Option.map_eq_some_iff, Prod.mk.injEq] at h
    obtain ⟨⟨t', r'⟩, hread, -, rfl⟩ := h
    have hlt : r'.length < s.length := ih hread
    simp only [List.length_cons]
    omega
  | _ => simp_all

/-- Reads types up to something that is not a type. -/
def readAll (s : List Char) : List FieldType × List Char :=
  match _h : read s with
  | some (t, r) => (t :: (readAll r).1, (readAll r).2)
  | none => ([], s)
termination_by s.length
decreasing_by all_goals exact read_length_lt _h

/-- No class name in the type holds the semicolon that would end it. -/
def Plain : FieldType → Prop
  | object name => ';' ∉ name.toList
  | array element => Plain element
  | _ => True

theorem textAfter_eq (start : String) (t : FieldType) : t.textAfter start = start ++ t.text := by
  induction t generalizing start with
  | array element ih =>
    rw [text, textAfter, textAfter, ih, ih ("" ++ "[")]
    simp [String.append_assoc]
  | object name => simp [text, textAfter, String.append_assoc]
  | _ => simp [text, textAfter]

theorem toList_text_array (element : FieldType) :
    (array element).text.toList = '[' :: element.text.toList := by
  simp [text, textAfter, textAfter_eq "["]

theorem toList_text_object (name : String) (r : List Char) :
    (object name).text.toList ++ r = 'L' :: (name.toList ++ ';' :: r) := by
  simp [text, textAfter]

theorem read_text {t : FieldType} (h : t.Plain) (r : List Char) :
    read (t.text.toList ++ r) = some (t, r) := by
  induction t with
  | object name =>
    have hname : ∀ c ∈ name.toList, (c != ';') = true := by
      intro c hc
      apply bne_iff_ne.2
      rintro rfl
      exact h hc
    rw [toList_text_object, read, List.takeWhile_append_of_pos hname,
      List.dropWhile_append_of_pos hname]
    simp
  | array element ih =>
    rw [toList_text_array]
    simp [read, ih h]
  | _ => rfl

theorem readAll_of_read {s r : List Char} {t : FieldType} (h : read s = some (t, r)) :
    readAll s = (t :: (readAll r).1, (readAll r).2) := by
  rw [readAll]
  split <;> simp_all

theorem readAll_of_none {s : List Char} (h : read s = none) : readAll s = ([], s) := by
  rw [readAll]
  split <;> simp_all

theorem readAll_texts {ts : List FieldType} (h : ∀ t ∈ ts, t.Plain) {r : List Char}
    (hr : read r = none) : readAll ((String.join (ts.map text)).toList ++ r) = (ts, r) := by
  induction ts with
  | nil => simpa [String.join] using readAll_of_none hr
  | cons t ts ih =>
    obtain ⟨ht, hts⟩ := List.forall_mem_cons.1 h
    have hread := read_text ht ((String.join (ts.map text)).toList ++ r)
    rw [List.map_cons, String.join_cons, String.toList_append, List.append_assoc,
      readAll_of_read hread, ih hts]

end FieldType

namespace MethodType

def readResult : List Char → Option (Option FieldType)
  | ['V'] => some none
  | s => match FieldType.read s with
    | some (t, []) => some (some t)
    | _ => none

/-- Reads the descriptor of a method. -/
def read : List Char → Option MethodType
  | '(' :: s => match FieldType.readAll s with
    | (params, ')' :: r) => (readResult r).map fun result => { params, result }
    | _ => none
  | _ => none

theorem readResult_text {t : FieldType} (h : t.Plain) :
    readResult t.text.toList = some (some t) := by
  have hread := FieldType.read_text h []
  rw [List.append_nil] at hread
  unfold readResult
  split
  · rename_i htext
    rw [htext] at hread
    cases hread
  · rw [hread]

theorem toList_text (m : MethodType) :
    m.text.toList = '(' :: ((String.join (m.params.map FieldType.text)).toList ++
      ')' :: (m.result.elim "V" FieldType.text).toList) := by
  rcases m with ⟨params, _ | t⟩ <;> simp [text, String.join_cons]

theorem read_text {m : MethodType} (hparams : ∀ t ∈ m.params, t.Plain)
    (hresult : ∀ t ∈ m.result, t.Plain) : read m.text.toList = some m := by
  rcases m with ⟨params, result⟩
  have hread : readResult (result.elim "V" FieldType.text).toList = some result := by
    cases result with
    | none => rfl
    | some t => exact readResult_text (hresult t rfl)
  rw [toList_text, read, FieldType.readAll_texts hparams rfl]
  simp [hread]

end MethodType

/-! ### Texts have one meaning -/

namespace FieldType

/-- Only the text of a type is read, whatever follows it. -/
theorem eq_text_of_read {s r : List Char} {t : FieldType} (h : read s = some (t, r)) :
    t.Plain ∧ s = t.text.toList ++ r := by
  fun_induction read s generalizing t with
  | case9 s r' hdrop =>
    obtain ⟨rfl, rfl⟩ := by simpa using h
    have hname : ∀ c ∈ s.takeWhile (· != ';'), (c != ';') = true := fun c => List.mem_takeWhile_imp
    constructor
    · intro hmem
      simpa using hname ';' (by simpa using hmem)
    · have hsplit : s.takeWhile (· != ';') ++ ';' :: r' = s := by
        rw [← hdrop]
        exact List.takeWhile_append_dropWhile
      simp [text, textAfter, hsplit]
  | case11 s ih =>
    obtain ⟨⟨element, r'⟩, hread, heq⟩ := Option.map_eq_some_iff.1 h
    obtain ⟨rfl, rfl⟩ := Prod.mk.inj heq
    obtain ⟨hplain, rfl⟩ := ih hread
    exact ⟨hplain, by rw [toList_text_array, List.cons_append]⟩
  | case10 | case12 => cases h
  | _ =>
    obtain ⟨rfl, rfl⟩ := by simpa using h
    exact ⟨trivial, rfl⟩

theorem read_eq_some_iff {s r : List Char} {t : FieldType} :
    read s = some (t, r) ↔ t.Plain ∧ s = t.text.toList ++ r := by
  constructor
  · exact eq_text_of_read
  · rintro ⟨hplain, rfl⟩
    exact read_text hplain r

/-- A type is found at the start of a text, and what follows it as well. -/
theorem text_append_inj {t t' : FieldType} {r r' : List Char} (ht : t.Plain) (ht' : t'.Plain)
    (h : t.text.toList ++ r = t'.text.toList ++ r') : t = t' ∧ r = r' := by
  have hread := read_text ht r
  rw [h, read_text ht'] at hread
  simpa [eq_comm] using hread

/-- No text of a type begins that of another. -/
theorem eq_of_text_prefix {t t' : FieldType} (ht : t.Plain) (ht' : t'.Plain)
    (h : t.text.toList <+: t'.text.toList) : t = t' := by
  obtain ⟨r, hr⟩ := h
  rw [← List.append_nil t'.text.toList] at hr
  exact (text_append_inj ht ht' hr).1

theorem eq_texts_of_readAll (s : List Char) :
    (∀ t ∈ (readAll s).1, t.Plain) ∧
      s = (String.join ((readAll s).1.map text)).toList ++ (readAll s).2 := by
  fun_induction readAll s with
  | case1 s t r hread ih =>
    obtain ⟨hplain, rfl⟩ := eq_text_of_read hread
    refine ⟨List.forall_mem_cons.2 ⟨hplain, ih.1⟩, ?_⟩
    rw [List.map_cons, String.join_cons, String.toList_append, List.append_assoc, ← ih.2]
  | case2 s hread => simp

end FieldType

namespace MethodType

/-- No class name in the types of the parameters and of the result holds a semicolon. -/
structure Plain (m : MethodType) : Prop where
  params : ∀ t ∈ m.params, t.Plain
  result : ∀ t ∈ m.result, t.Plain

theorem eq_text_of_readResult {s : List Char} {result : Option FieldType}
    (h : readResult s = some result) :
    (∀ t ∈ result, t.Plain) ∧ s = (result.elim "V" FieldType.text).toList := by
  unfold readResult at h
  split at h
  · obtain rfl := Option.some.inj h
    exact ⟨by simp, rfl⟩
  · split at h
    · rename_i t hread
      obtain rfl := Option.some.inj h
      simpa using FieldType.eq_text_of_read hread
    · cases h

theorem read_eq_some_iff {s : List Char} {m : MethodType} :
    read s = some m ↔ m.Plain ∧ s = m.text.toList := by
  constructor
  · intro h
    unfold read at h
    split at h
    · rename_i s
      have hparams := FieldType.eq_texts_of_readAll s
      split at h
      · rename_i params r hread
        rw [hread] at hparams
        obtain ⟨result, hresult, rfl⟩ := Option.map_eq_some_iff.1 h
        obtain ⟨hplain, rfl⟩ := eq_text_of_readResult hresult
        exact ⟨⟨hparams.1, hplain⟩, by rw [toList_text, hparams.2]⟩
      · cases h
    · cases h
  · rintro ⟨hplain, rfl⟩
    exact read_text hplain.params hplain.result

theorem eq_of_text {m m' : MethodType} (hm : m.Plain) (hm' : m'.Plain) (h : m.text = m'.text) :
    m = m' := by
  have hread : read m.text.toList = some m' := read_eq_some_iff.2 ⟨hm', by rw [h]⟩
  rw [read_eq_some_iff.2 ⟨hm, rfl⟩] at hread
  exact Option.some.inj hread

/-! ### Words in the text -/

/-- What the next character of a parameter list belongs to. -/
inductive Part where
  | parameter
  /-- The type of the elements of an array. -/
  | element
  /-- The name of a class. -/
  | name

/-- Counts the words of the parameters from the characters alone, up to the closing parenthesis. -/
def wordsFrom : Part → List Char → Nat
  | _, [] => 0
  | .name, c :: s => wordsFrom (if c = ';' then .parameter else .name) s
  | .element, c :: s =>
    if c = '[' then wordsFrom .element s
    else 1 + wordsFrom (if c = 'L' then .name else .parameter) s
  | .parameter, c :: s =>
    if c = ')' then 0
    else if c = '[' then wordsFrom .element s
    else (if c = 'J' ∨ c = 'D' then 2 else 1) + wordsFrom (if c = 'L' then .name else .parameter) s

/-- The words of the arguments, as the text of the descriptor has them. -/
def wordsOfText : List Char → Nat
  | '(' :: s => wordsFrom .parameter s
  | _ => 0

theorem wordsFrom_name {name : List Char} (h : ';' ∉ name) (r : List Char) :
    wordsFrom .name (name ++ ';' :: r) = wordsFrom .parameter r := by
  induction name with
  | nil => rfl
  | cons c name ih =>
    rw [List.mem_cons, not_or] at h
    rw [List.cons_append, wordsFrom, if_neg (Ne.symm h.1), ih h.2]

/-- An array takes one word, whatever its elements are. -/
theorem wordsFrom_element {t : FieldType} (h : t.Plain) (r : List Char) :
    wordsFrom .element (t.text.toList ++ r) = 1 + wordsFrom .parameter r := by
  induction t with
  | object name =>
    rw [FieldType.toList_text_object, wordsFrom]
    simp [wordsFrom_name h]
  | array element ih =>
    rw [FieldType.toList_text_array, List.cons_append, wordsFrom]
    simp [ih h]
  | _ => rfl

theorem wordsFrom_parameter {t : FieldType} (h : t.Plain) (r : List Char) :
    wordsFrom .parameter (t.text.toList ++ r) =
      (if t.isWide then 2 else 1) + wordsFrom .parameter r := by
  cases t with
  | object name =>
    rw [FieldType.toList_text_object, wordsFrom]
    simp [wordsFrom_name h, FieldType.isWide]
  | array element =>
    rw [FieldType.toList_text_array, List.cons_append, wordsFrom]
    exact wordsFrom_element (t := element) h r
  | _ => rfl

theorem wordsOfText_text {m : MethodType} (h : m.Plain) :
    wordsOfText m.text.toList = m.argumentWords := by
  rcases m with ⟨params, result⟩
  have hparams : ∀ t ∈ params, t.Plain := h.params
  rw [toList_text, wordsOfText, argumentWords]
  clear h
  induction params with
  | nil => rfl
  | cons t params ih =>
    obtain ⟨ht, hrest⟩ := List.forall_mem_cons.1 hparams
    rw [List.map_cons, String.join_cons, String.toList_append, List.append_assoc,
      wordsFrom_parameter ht, ih hrest, List.foldr_cons]

end MethodType

/-- Descriptors are read in one way. Reading gives a type exactly from the text of the type, for
types whose class names have no semicolon, and so for methods; hence different descriptors have
different texts, no text of a type begins another, and the words of the arguments can be counted in
the text. -/
theorem text_unambiguous :
    (∀ (t : FieldType) (s r : List Char),
      FieldType.read s = some (t, r) ↔ t.Plain ∧ s = t.text.toList ++ r) ∧
    (∀ (m : MethodType) (s : List Char),
      MethodType.read s = some m ↔ m.Plain ∧ s = m.text.toList) ∧
    (∀ t t' : FieldType, t.Plain → t'.Plain → t.text = t'.text → t = t') ∧
    (∀ m m' : MethodType, m.Plain → m'.Plain → m.text = m'.text → m = m') ∧
    (∀ (t : FieldType) (m : MethodType), t.Plain → t.text ≠ m.text) ∧
    (∀ t t' : FieldType, t.Plain → t'.Plain → t.text.toList <+: t'.text.toList → t = t') ∧
    ∀ m : MethodType, m.Plain → m.argumentWords = MethodType.wordsOfText m.text.toList := by
  refine ⟨fun _ _ _ => FieldType.read_eq_some_iff, fun _ _ => MethodType.read_eq_some_iff,
    ?_, ?_, ?_, ?_, ?_⟩
  · intro t t' ht ht' h
    exact FieldType.eq_of_text_prefix ht ht' (by rw [h])
  · intro m m' hm hm' h
    exact MethodType.eq_of_text hm hm' h
  · intro t m ht h
    have hread := FieldType.read_text ht []
    rw [h, List.append_nil, MethodType.toList_text] at hread
    cases hread
  · intro t t' ht ht' h
    exact FieldType.eq_of_text_prefix ht ht' h
  · intro m hm
    exact (MethodType.wordsOfText_text hm).symm

/-- Names that look like the rest of a descriptor, and arrays of wide elements. -/
theorem text_unambiguous_nested :
    let m : MethodType :=
      { params := [.array .long, .object "a)J(", .long, .array (.array (.object "[D")), .double],
        result := some (.array .double) }
    m.Plain ∧ m.text = "([JLa)J(;J[[L[D;D)[D" ∧ m.argumentWords = 7 ∧
      MethodType.read "([JLa)J(;J[[L[D;D)[D".toList = some m ∧
      MethodType.wordsOfText "([JLa)J(;J[[L[D;D)[D".toList = 7 := by
  intro m
  have hplain : m.Plain := ⟨by simp [m, FieldType.Plain], by simp [m, FieldType.Plain]⟩
  have htext : m.text = "([JLa)J(;J[[L[D;D)[D" := by decide
  have hwords : m.argumentWords = 7 := by decide
  obtain ⟨-, hread, -, -, -, -, hcount⟩ := text_unambiguous
  refine ⟨hplain, htext, hwords, (hread m _).2 ⟨hplain, by rw [htext]⟩, ?_⟩
  rw [← htext, ← hcount m hplain, hwords]

end JvmLisp.Jvm
