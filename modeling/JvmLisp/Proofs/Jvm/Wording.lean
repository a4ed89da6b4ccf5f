import JvmLisp.Jvm.Constant
import JvmLisp.Jvm.Instruction
import JvmLisp.Proofs.Text.Spelling

/-! # The wording of constants and instructions

A constant is described by a word for its kind and by what it holds, an instruction by its mnemonic
and its operand. Both descriptions stand on one line and determine what they describe. Only
floating-point constants are left out: all that are not numbers are described alike.
-/

namespace JvmLisp.Jvm

open Text (newline_notMem_quote newline_notMem_toDigits newline_notMem_toString_int quote_inj
  toString_append_inj word_append_inj)

/-- An index as it is written in a listing. -/
def reference (i : UInt16) : String :=
  "#" ++ toString i.toNat

theorem reference_append_inj {i j : UInt16} {r s : List Char}
    (hr : ∀ c, r.head? = some c → ¬c.isDigit) (hs : ∀ c, s.head? = some c → ¬c.isDigit)
    (h : (reference i).toList ++ r = (reference j).toList ++ s) : i = j ∧ r = s := by
  simp only [reference, String.toList_append, List.append_assoc, List.append_cancel_left_eq] at h
  obtain ⟨hindex, hrest⟩ := toString_append_inj hr hs h
  exact ⟨UInt16.toNat_inj.1 hindex, hrest⟩

theorem reference_inj {i j : UInt16} (h : reference i = reference j) : i = j := by
  have hchars : (reference i).toList ++ [] = (reference j).toList ++ [] := by rw [h]
  exact (reference_append_inj (by simp) (by simp) hchars).1

theorem reference_pair_inj {separator : Char} (hseparator : separator.isDigit = false)
    {i j k l : UInt16}
    (h : (reference i).toList ++ separator :: (reference j).toList =
      (reference k).toList ++ separator :: (reference l).toList) : i = k ∧ j = l := by
  obtain ⟨hfirst, hrest⟩ := reference_append_inj (by simpa) (by simpa) h
  exact ⟨hfirst, reference_inj (String.toList_inj.1 (List.cons_inj_right _ |>.1 hrest))⟩

theorem newline_notMem_reference (i : UInt16) : '\n' ∉ (reference i).toList := by
  simp [reference, newline_notMem_toDigits]

/-! ### Constants -/

namespace Constant

/-- The text of a constant tells it, other than that of a floating-point number, which is the same
for all that are not numbers. -/
def Exact : Constant → Prop
  | float _ | double _ => False
  | _ => True

/-- The word that the text of a constant begins with. -/
def word : Constant → String
  | utf8 _ => "Utf8"
  | integer _ => "Integer"
  | float _ => "Float"
  | long _ => "Long"
  | double _ => "Double"
  | classInfo _ => "Class"
  | string _ => "String"
  | member kind _ _ => kind.name
  | nameAndType .. => "NameAndType"
  | methodType _ => "MethodType"

/-- What follows the first word and a blank. -/
def detail : Constant → List Char
  | utf8 text => (Text.quote text).toList
  | integer value => (toString value.toInt).toList
  | float bits => (Number.Format.single.decode bits.toNat).text.toList
  | long value => (toString value.toInt).toList
  | double bits => (Number.Format.double.decode bits.toNat).text.toList
  | classInfo index | string index | methodType index => (reference index).toList
  | member _ owner signature => (reference owner).toList ++ '.' :: (reference signature).toList
  | nameAndType name descriptor =>
    (reference name).toList ++ ':' :: (reference descriptor).toList

theorem toList_text (c : Constant) : c.text.toList = c.word.toList ++ ' ' :: c.detail := by
  cases c with
  | member kind => cases kind <;> simp [text, word, detail, reference, MemberKind.name]
  | _ => simp [text, word, detail, reference]

theorem notMem_word (c : Constant) : ' ' ∉ c.word.toList ∧ '\n' ∉ c.word.toList := by
  cases c with
  | member kind => cases kind <;> simp [word, MemberKind.name]
  | _ => simp [word]

theorem detail_inj {c d : Constant} (hc : c.Exact) (hword : c.word = d.word)
    (h : c.detail = d.detail) : c = d := by
  have hname (kind : MemberKind) : kind.name ∈ ["Fieldref", "Methodref", "InterfaceMethodref"] := by
    cases kind <;> simp [MemberKind.name]
  have hkind {kind kind' : MemberKind} (h : kind.name = kind'.name) : kind = kind' := by
    cases kind <;> cases kind' <;> simp [MemberKind.name] at h ⊢
  have hnumber {a b : Int} (h : (toString a).toList = (toString b).toList) : a = b := by
    rwa [String.toList_inj, Int.toString_eq_repr, Int.toString_eq_repr, Int.repr_inj] at h
  -- Constants of different kinds have different words.
  cases c <;> cases d <;> simp only [word] at hword <;> try contradiction
  case utf8.utf8 => exact congrArg utf8 (quote_inj (String.toList_inj.1 h))
  case integer.integer => exact congrArg integer (Int32.toInt_inj.1 (hnumber h))
  case long.long => exact congrArg long (Int64.toInt_inj.1 (hnumber h))
  case classInfo.classInfo => exact congrArg classInfo (reference_inj (String.toList_inj.1 h))
  case string.string => exact congrArg string (reference_inj (String.toList_inj.1 h))
  case methodType.methodType => exact congrArg methodType (reference_inj (String.toList_inj.1 h))
  case nameAndType.nameAndType =>
    obtain ⟨rfl, rfl⟩ := reference_pair_inj (by decide) h
    rfl
  case member.member =>
    obtain rfl := hkind hword
    obtain ⟨rfl, rfl⟩ := reference_pair_inj (by decide) h
    rfl
  all_goals grind

theorem text_inj {c d : Constant} (hc : c.Exact) (h : c.text = d.text) : c = d := by
  have hchars := congrArg String.toList h
  rw [toList_text, toList_text] at hchars
  obtain ⟨hword, hrest⟩ :=
    word_append_inj c.notMem_word.1 d.notMem_word.1 (by simp) (by simp) hchars
  exact detail_inj hc (String.toList_inj.1 hword) ((List.cons_inj_right _).1 hrest)

theorem newline_notMem_detail {c : Constant} (hc : c.Exact) : '\n' ∉ c.detail := by
  cases c with
  | utf8 text => exact newline_notMem_quote text
  | integer value => exact newline_notMem_toString_int value.toInt
  | long value => exact newline_notMem_toString_int value.toInt
  | float | double => exact hc.elim
  | classInfo index | string index | methodType index => exact newline_notMem_reference index
  | member _ i j | nameAndType i j =>
    simp [detail, newline_notMem_reference]

theorem newline_notMem_text {c : Constant} (hc : c.Exact) : '\n' ∉ c.text.toList := by
  simp [toList_text, c.notMem_word, newline_notMem_detail hc]

end Constant

/-! ### Instructions -/

namespace Instruction

/-- What follows the mnemonic of an instruction with the given operand. -/
def argument : Option UInt16 → List Char
  | some index => ' ' :: (reference index).toList
  | none => []

theorem toList_text (i : Instruction) :
    i.text.toList = i.mnemonic.toList ++ argument i.operand := by
  cases h : i.operand <;> simp [text, argument, reference, h]

theorem notMem_mnemonic (i : Instruction) :
    ' ' ∉ i.mnemonic.toList ∧ '\n' ∉ i.mnemonic.toList := by
  cases i with
  | ldc index => by_cases hshort : index < 256 <;> simp [mnemonic, hshort]
  | _ => simp [mnemonic]

theorem argument_inj {a b : Option UInt16} (h : argument a = argument b) : a = b := by
  cases a <;> cases b
  case none.none => rfl
  case some.some => rw [reference_inj (String.toList_inj.1 ((List.cons_inj_right _).1 h))]
  all_goals cases h

/-- Two mnemonics stand for one operation, with operands that differ. -/
theorem eq_of_mnemonic_operand {i j : Instruction} (hmnemonic : i.mnemonic = j.mnemonic)
    (hoperand : i.operand = j.operand) : i = j := by
  cases i <;> cases j <;> grind [mnemonic, operand]

theorem text_inj {i j : Instruction} (h : i.text = j.text) : i = j := by
  have hargument (a : Option UInt16) : ∀ x, (argument a).head? = some x → x = ' ' := by
    cases a <;> simp [argument]
  have hchars := congrArg String.toList h
  rw [toList_text, toList_text] at hchars
  obtain ⟨hmnemonic, hrest⟩ :=
    word_append_inj i.notMem_mnemonic.1 j.notMem_mnemonic.1 (hargument _) (hargument _) hchars
  exact eq_of_mnemonic_operand (String.toList_inj.1 hmnemonic) (argument_inj hrest)

theorem newline_notMem_text (i : Instruction) : '\n' ∉ i.text.toList := by
  have hargument : '\n' ∉ argument i.operand := by
    cases i.operand <;> simp [argument, newline_notMem_reference]
  simp [toList_text, i.notMem_mnemonic, hargument]

end Instruction

end JvmLisp.Jvm
