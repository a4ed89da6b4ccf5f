import JvmLisp.Proofs.Jvm.Decoding

/-! # Constants in a row

Texts may hold any characters, also those that no class name does. Written one after another,
constants of every kind are read back from their tags and the lengths of their texts. Only a text
that is too long for its length is refused, and that when its tag has been put out.
-/

namespace JvmLisp.Jvm

theorem toText?_ofText (text : String) : Bytes.toText? (Bytes.ofText text) = some text := by
  rw [Bytes.toText?, Bytes.ofText, Array.toArray_toList, String.fromUTF8?,
    String.toUTF8_eq_toByteArray, dif_pos text.isValidUTF8]
  rfl

/-! ### Entries -/

namespace Reader

/-- Reads a text of any characters, with its length before it. -/
def anyText : Reader String := do
  let length ← u2
  let content ← bytes length.toNat
  match Bytes.toText? content with
  | some text => return text
  | none => failure

/-- Reads a constant, which may be a text of any characters. -/
def entry : Reader Constant := fun s =>
  match s with
  | 1 :: s => (Constant.utf8 <$> anyText) s
  | s => constant s

theorem shrinks_anyText : anyText.Shrinks := by
  refine shrinks_u2.bind fun length => (shrinks_bytes _).bind fun content => ?_
  split
  · exact shrinks_pure _
  · exact shrinks_failure

theorem shrinks_text : text.Shrinks := by
  refine shrinks_u2.bind fun length => (shrinks_bytes _).bind fun content => ?_
  split
  · exact shrinks_pure _
  · exact shrinks_failure

theorem consumes_constant : constant.Consumes := by
  refine consumes_u1_bind fun tag => ?_
  split
  case h_1 => exact shrinks_text.bind fun _ => shrinks_pure _
  case h_2 | h_3 => exact shrinks_u4.bind fun _ => shrinks_pure _
  case h_4 | h_5 => exact shrinks_u8.bind fun _ => shrinks_pure _
  case h_6 | h_7 | h_12 => exact shrinks_u2.bind fun _ => shrinks_pure _
  case h_13 => exact shrinks_failure
  all_goals exact shrinks_u2.bind fun _ => shrinks_u2.bind fun _ => shrinks_pure _

theorem consumes_entry : entry.Consumes := by
  intro s p h
  unfold entry at h
  split at h
  · rename_i s
    rw [map_apply] at h
    obtain ⟨q, hq, rfl⟩ := Option.map_eq_some_iff.1 h
    exact Nat.lt_succ_of_le (shrinks_anyText s q hq)
  · exact consumes_constant _ p h

theorem anyText_append {t : String} (h : t.utf8ByteSize ≤ Constant.maxTextBytes)
    (rest : List UInt8) :
    anyText (Bytes.ofUInt16 (UInt16.ofNat t.utf8ByteSize) ++ Bytes.ofText t ++ rest) =
      some (t, rest) := by
  have hlength : (UInt16.ofNat t.utf8ByteSize).toNat = (Bytes.ofText t).length := by
    rw [length_ofText, UInt16.toNat_ofNat']
    exact Nat.mod_eq_of_lt (Nat.lt_succ_of_le h)
  simp [anyText, hlength, toText?_ofText]

end Reader

namespace Constant

/-- The length of a text can be written in two bytes. -/
def Fits (c : Constant) : Prop :=
  ∀ text, c = utf8 text → text.utf8ByteSize ≤ maxTextBytes

theorem fits_iff {c : Constant} : c.Fits ↔ ∃ payload, c.payload = .ok payload := by
  cases c with
  | utf8 text =>
    by_cases hsize : text.utf8ByteSize ≤ maxTextBytes <;> simp [Fits, payload, hsize]
  | _ => simp [Fits, payload]

theorem written_eq {c : Constant} {bs : List UInt8} (h : c.encode = .ok bs) : c.written = bs := by
  rw [encode] at h
  rw [written]
  rcases hwrite : c.write [] with ⟨e | _, bytes⟩
  · rw [hwrite] at h
    cases h
  · rw [hwrite] at h
    exact Except.ok.inj h

theorem tag_ne_one {c : Constant} (h : ∀ text, c ≠ utf8 text) : c.tag ≠ 1 := by
  cases c with
  | utf8 text => exact absurd rfl (h text)
  | member kind => cases kind <;> simp [tag, MemberKind.tag]
  | _ => simp [tag]

/-- A constant is read back, whatever follows it. -/
theorem entry_written_append {c : Constant} (h : c.Fits) (rest : List UInt8) :
    Reader.entry (c.written ++ rest) = some (c, rest) := by
  obtain ⟨payload, hpayload⟩ := fits_iff.1 h
  have hencode : c.encode = .ok (c.tag :: payload) := by
    rw [encode_eq, hpayload]
    rfl
  rw [written_eq hencode]
  -- The reader for class files takes only the texts that these may hold.
  by_cases htext : ∃ text, c = utf8 text
  · obtain ⟨text, rfl⟩ := htext
    have hread := Reader.anyText_append (h text rfl) rest
    rw [Constant.payload, if_pos (h text rfl)] at hpayload
    cases hpayload
    change (Constant.utf8 <$> Reader.anyText) _ = _
    rw [Reader.map_apply]
    exact congrArg (Option.map fun p => (utf8 p.1, p.2)) hread
  · rw [List.cons_append, Reader.entry, ← List.cons_append]
    · exact Reader.constant_append hencode (fun text hc => absurd ⟨text, hc⟩ htext) rest
    · intro s hs
      exact tag_ne_one (not_exists.1 htext) (List.cons.inj hs).1

theorem exists_encode_eq_error_iff {c : Constant} :
    (∃ e, c.encode = .error e) ↔ ∃ text, c = utf8 text ∧ 65535 < text.utf8ByteSize := by
  have hrefused : (∃ e, c.encode = .error e) ↔ ¬c.Fits := by
    rw [fits_iff, encode_eq]
    rcases c.payload with e | payload <;> simp [Except.map]
  rw [hrefused, Fits, not_forall]
  refine exists_congr fun text => ?_
  rw [Classical.not_imp, Nat.not_le]
  rfl

theorem written_eq_tag {c : Constant} {e : Error} (h : c.encode = .error e) :
    c.written = [c.tag] := by
  rcases hpayload : c.payload with e' | payload
  · rw [written, write_of_error hpayload]
    rfl
  · rw [encode_eq, hpayload] at h
    cases h

/-- Constants whose texts are not too long are read back to the last byte from what is written for
one after another. A text is refused just if it is too long, when only its tag has been put out. -/
theorem self_delimiting :
    (∀ cs : List Constant, (∀ text, utf8 text ∈ cs → text.utf8ByteSize ≤ 65535) →
      Reader.entry.toEnd Reader.consumes_entry (cs.flatMap written) = some cs) ∧
    (∀ c : Constant, (∃ e, c.encode = .error e) ↔
      ∃ text, c = utf8 text ∧ 65535 < text.utf8ByteSize) ∧
    (∀ (c : Constant) e, c.encode = .error e → c.written = [c.tag]) ∧
    ∀ (c : Constant) bs, c.encode = .ok bs → c.written = bs := by
  refine ⟨fun cs hcs => ?_, fun _ => exists_encode_eq_error_iff, fun _ _ => written_eq_tag,
    fun _ _ => written_eq⟩
  refine Reader.toEnd_flatMap _ fun c hc => entry_written_append fun text htext => ?_
  exact hcs text (htext ▸ hc)

end Constant

end JvmLisp.Jvm
