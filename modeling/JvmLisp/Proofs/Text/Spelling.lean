import JvmLisp.Proofs.Source.Grammar
import JvmLisp.Text.Quoted
import Std.Data.String.ToInt

/-! # Words, numerals and quoted text

A word is found in a text by the space behind it, a numeral by the first character behind it that is
no digit, and a quoted text has one way to be read. So each determines what it stands for. A quoted
text stands on one line, whatever the text in it.
-/

namespace JvmLisp.Text

open Source (span_append_inj)

/-- A word ends at a space or with the text. -/
theorem word_append_inj {a b r s : List Char} (ha : ' ' ∉ a) (hb : ' ' ∉ b)
    (hr : ∀ c, r.head? = some c → c = ' ') (hs : ∀ c, s.head? = some c → c = ' ')
    (h : a ++ r = b ++ s) : a = b ∧ r = s := by
  have hword {a : List Char} (ha : ' ' ∉ a) : ∀ c ∈ a, (c != ' ') = true := by
    intro c hc
    exact bne_iff_ne.2 fun hspace => ha (hspace ▸ hc)
  have hrest {r : List Char} (hr : ∀ c, r.head? = some c → c = ' ') :
      ∀ c, r.head? = some c → ¬(c != ' ') = true := by
    intro c hc
    simp [hr c hc]
  exact span_append_inj (hword ha) (hword hb) (hrest hr) (hrest hs) h

/-! ### Numerals -/

theorem isDigit_of_mem_toString {n : Nat} {c : Char} (h : c ∈ (toString n).toList) : c.isDigit := by
  rw [Nat.toString_eq_repr, Nat.toList_repr] at h
  exact Nat.isDigit_of_mem_toDigits (by decide) (by decide) h

theorem isDigit_of_head?_toString {n : Nat} {r : List Char} {c : Char}
    (h : ((toString n).toList ++ r).head? = some c) : c.isDigit := by
  have hne : (toString n).toList ≠ [] := by
    rw [Nat.toString_eq_repr, Nat.toList_repr]
    exact Nat.toDigits_ne_nil
  rw [List.head?_append_of_ne_nil _ hne] at h
  exact isDigit_of_mem_toString (List.mem_of_head? h)

/-- A numeral ends at a character that is no digit. -/
theorem toString_append_inj {m n : Nat} {r s : List Char}
    (hr : ∀ c, r.head? = some c → ¬c.isDigit) (hs : ∀ c, s.head? = some c → ¬c.isDigit)
    (h : (toString m).toList ++ r = (toString n).toList ++ s) : m = n ∧ r = s := by
  obtain ⟨hdigits, hrest⟩ := span_append_inj (fun _ => isDigit_of_mem_toString)
    (fun _ => isDigit_of_mem_toString) hr hs h
  rw [String.toList_inj, Nat.toString_eq_repr, Nat.toString_eq_repr] at hdigits
  exact ⟨Nat.repr_inj.1 hdigits, hrest⟩

theorem newline_notMem_toDigits (n : Nat) : '\n' ∉ Nat.toDigits 10 n := by
  intro h
  have hdigit := Nat.isDigit_of_mem_toDigits (by decide) (by decide) h
  revert hdigit
  decide

theorem newline_notMem_toString_int (z : Int) : '\n' ∉ (toString z).toList := by
  rw [Int.toString_eq_repr, Int.repr_eq_if]
  split <;> simp [newline_notMem_toDigits]

theorem digitChar_of_mem_toDigits {n : Nat} {c : Char} (h : c ∈ Nat.toDigits 16 n) :
    ∃ d < 16, c = d.digitChar := by
  induction n using Nat.strongRecOn with
  | ind n ih =>
    rw [Nat.toDigits_eq_if (by decide)] at h
    split at h
    · rename_i hlt
      exact ⟨n, hlt, List.mem_singleton.1 h⟩
    · rename_i hge
      rcases List.mem_append.1 h with h | h
      · exact ih (n / 16) (by omega) h
      · exact ⟨n % 16, Nat.mod_lt _ (by decide), List.mem_singleton.1 h⟩

theorem toDigits_hex_inj {m n : Nat} (h : Nat.toDigits 16 m = Nat.toDigits 16 n) : m = n := by
  have hdigit : ∀ d < 16, ∀ e < 16, d.digitChar = e.digitChar → d = e := by decide
  have hne (k : Nat) : Nat.toDigits 16 k ≠ [] := Nat.toDigits_ne_nil
  induction m using Nat.strongRecOn generalizing n with
  | ind m ih =>
    rw [Nat.toDigits_eq_if (by decide), Nat.toDigits_eq_if (n := n) (by decide)] at h
    by_cases hm : m < 16 <;> by_cases hn : n < 16
    · rw [if_pos hm, if_pos hn, List.singleton_inj] at h
      exact hdigit m hm n hn h
    · rw [if_pos hm, if_neg hn] at h
      simpa [hne] using congrArg List.dropLast h
    · rw [if_neg hm, if_pos hn] at h
      simpa [hne] using congrArg List.dropLast h
    · rw [if_neg hm, if_neg hn] at h
      obtain ⟨hhigh, hlow⟩ := List.append_inj' h rfl
      rw [List.singleton_inj] at hlow
      have hdiv := ih (m / 16) (by omega) hhigh
      have hmod := hdigit _ (Nat.mod_lt _ (by decide)) _ (Nat.mod_lt _ (by decide)) hlow
      omega

/-! ### Quoted text -/

/-- The characters that are written as a backslash and another character. -/
def shortEscapes : List (Char × Char) :=
  [('\x00', '0'), ('\t', 't'), ('\n', 'n'), ('\r', 'r'), ('\\', '\\'), ('"', '"')]

/-- The ways in which a character is written between double quotation marks. -/
inductive Written : Char → List Char → Prop
  | plain {c : Char} : c ≠ '\\' → c ≠ '\n' → Written c [c]
  | short {c e : Char} : (c, e) ∈ shortEscapes → Written c ['\\', e]
  | code (c : Char) : Written c (escapeCode c)

theorem written_escape (c : Char) : Written c (escape '"' c) := by
  unfold escape
  split_ifs with h₀ ht hn hr hself hprintable
  · exact .short (by simp [h₀, shortEscapes])
  · exact .short (by simp [ht, shortEscapes])
  · exact .short (by simp [hn, shortEscapes])
  · exact .short (by simp [hr, shortEscapes])
  · rcases hself with rfl | rfl
    · exact .short (by simp [shortEscapes])
    · exact .short (by simp [shortEscapes])
  · exact .plain (fun h => hself (.inl h)) hn
  · exact .code c

theorem escapeCode_append_inj {c d : Char} {r s : List Char}
    (h : escapeCode c ++ r = escapeCode d ++ s) : c = d ∧ r = s := by
  have hbrace : ∀ d < 16, (d.digitChar != '\x7d') = true := by decide
  have hdigits (n : Nat) : ∀ c ∈ Nat.toDigits 16 n, (c != '\x7d') = true := by
    intro c hc
    obtain ⟨d, hd, rfl⟩ := digitChar_of_mem_toDigits hc
    exact hbrace d hd
  simp only [escapeCode, List.append_assoc, List.append_cancel_left_eq] at h
  obtain ⟨hcode, hrest⟩ := span_append_inj (hdigits _) (hdigits _) (by simp) (by simp) h
  exact ⟨Char.toNat_inj.1 (toDigits_hex_inj hcode), by simpa using hrest⟩

/-- No way to write a character begins another. -/
theorem Written.append_inj {c d : Char} {x y r s : List Char} (hc : Written c x) (hd : Written d y)
    (h : x ++ r = y ++ s) : c = d ∧ r = s := by
  have hshort : ∀ p ∈ shortEscapes, ∀ q ∈ shortEscapes, p.2 = q.2 → p.1 = q.1 := by decide
  have hcode : ∀ p ∈ shortEscapes, p.2 ≠ 'u' := by decide
  cases hc with
  | plain hc =>
    cases hd with
    | plain => simpa using h
    | short => simp [hc] at h
    | code => simp [hc, escapeCode] at h
  | short hc =>
    cases hd with
    | plain hd => simp [hd.symm] at h
    | short hd =>
      obtain ⟨he, hrest⟩ : _ = _ ∧ r = s := by simpa using h
      exact ⟨hshort _ hc _ hd he, hrest⟩
    | code => simp [escapeCode, hcode _ hc] at h
  | code =>
    cases hd with
    | plain hd => simp [hd.symm, escapeCode] at h
    | short hd => simp [escapeCode, (hcode _ hd).symm] at h
    | code => exact escapeCode_append_inj h

theorem Written.newline_notMem {c : Char} {x : List Char} (h : Written c x) : '\n' ∉ x := by
  have hshort : ∀ p ∈ shortEscapes, p.2 ≠ '\n' := by decide
  have hdigit : ∀ d < 16, d.digitChar ≠ '\n' := by decide
  cases h with
  | plain _ hc => simpa using hc.symm
  | short hc => simpa using (hshort _ hc).symm
  | code =>
    intro hmem
    have hdigits : '\n' ∈ Nat.toDigits 16 c.toNat := by simpa [escapeCode] using hmem
    obtain ⟨d, hd, hc⟩ := digitChar_of_mem_toDigits hdigits
    exact hdigit d hd hc.symm

theorem flatMap_escape_inj {s t : List Char}
    (h : s.flatMap (escape '"') = t.flatMap (escape '"')) : s = t := by
  have hne (c : Char) : escape '"' c ≠ [] := by
    intro hnil
    have hwritten := written_escape c
    rw [hnil] at hwritten
    generalize hx : ([] : List Char) = x at hwritten
    cases hwritten <;> simp [escapeCode] at hx
  induction s generalizing t with
  | nil =>
    cases t with
    | nil => rfl
    | cons d t => simp [hne] at h
  | cons c s ih =>
    cases t with
    | nil => simp [hne] at h
    | cons d t =>
      rw [List.flatMap_cons, List.flatMap_cons] at h
      obtain ⟨rfl, hrest⟩ := (written_escape c).append_inj (written_escape d) h
      rw [ih hrest]

theorem quote_inj {s t : String} (h : quote s = quote t) : s = t := by
  have hchars := String.ofList_injective h
  rw [List.cons_inj_right, List.append_cancel_right_eq] at hchars
  exact String.toList_inj.1 (flatMap_escape_inj hchars)

theorem newline_notMem_quote (t : String) : '\n' ∉ (quote t).toList := by
  have hbody : '\n' ∉ t.toList.flatMap (escape '"') := by
    intro h
    obtain ⟨c, -, hc⟩ := List.mem_flatMap.1 h
    exact (written_escape c).newline_notMem hc
  simpa [quote, quoteWith] using hbody

end JvmLisp.Text
