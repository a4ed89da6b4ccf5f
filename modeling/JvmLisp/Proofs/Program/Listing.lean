import JvmLisp.Program.Listing
import JvmLisp.Proofs.Jvm.Stream
import JvmLisp.Proofs.Jvm.Wording
import JvmLisp.Proofs.Pool.Order
import JvmLisp.Proofs.Pool.Refusal
import JvmLisp.Proofs.Program.Verification

/-! # What a listing says

A listing is made of lines: one for each constant, one for each instruction, and a heading for
either. Texts are quoted, so none of them breaks a line. From the lines the constants with their
indices, the instructions and the greatest depth can be told.
-/

namespace JvmLisp

open Jvm (Constant Instruction Item Pool)
open Source (span_append_inj)
open Text (isDigit_of_head?_toString newline_notMem_toDigits toString_append_inj)

namespace Listing

/-! ### Lines -/

/-- Lines that hold no line end are found again in a text that is made of them. -/
theorem splitOn_lines {lines : List String} (h : ∀ line ∈ lines, '\n' ∉ line.toList) :
    (String.join (lines.map (· ++ "\n"))).toList.splitOn '\n' =
      lines.map String.toList ++ [[]] := by
  induction lines with
  | nil => simp
  | cons line lines ih =>
    rw [List.forall_mem_cons] at h
    have hchars : (String.join ((line :: lines).map (· ++ "\n"))).toList =
        line.toList ++ '\n' :: (String.join (lines.map (· ++ "\n"))).toList := by
      simp
    rw [hchars, List.splitOn_append_cons_self_of_not_mem h.1, ih h.2]
    rfl

theorem lines_inj {lines lines' : List String} (h : ∀ line ∈ lines, '\n' ∉ line.toList)
    (h' : ∀ line ∈ lines', '\n' ∉ line.toList)
    (heq : String.join (lines.map (· ++ "\n")) = String.join (lines'.map (· ++ "\n"))) :
    lines = lines' := by
  have hsplit := congrArg (fun text => text.toList.splitOn '\n') heq
  simp only [splitOn_lines h, splitOn_lines h', List.append_cancel_right_eq] at hsplit
  exact List.map_injective_iff.2 (fun _ _ => String.toList_inj.1) hsplit

/-! ### Columns -/

theorem toList_pushn (text : String) (c : Char) (n : Nat) :
    (text.pushn c n).toList = text.toList ++ List.replicate n c := by
  rw [String.pushn_eq_repeat_push]
  induction n with
  | zero => simp [Nat.repeat]
  | succ n ih => simp [Nat.repeat, ih, List.replicate_succ']

theorem toList_padRight (width : Nat) (text : String) :
    (padRight width text).toList = text.toList ++ List.replicate (width - text.length) ' ' :=
  toList_pushn ..

theorem toList_padLeft (width : Nat) (text : String) :
    (padLeft width text).toList = List.replicate (width - text.length) ' ' ++ text.toList := by
  simp [padLeft, toList_pushn]

/-! ### The kinds of lines -/

/-- The line of a constant with its index, like those below without its end. -/
def constantText (entry : Nat × Constant) : String :=
  "  #" ++ padRight 5 (toString entry.1) ++ " " ++ entry.2.text

/-- The line in front of the instructions. -/
def codeText (peak length : Nat) : String :=
  "Code (max stack " ++ toString peak ++ ", " ++ toString length ++ " bytes):"

/-- The line of an instruction with its offset. -/
def instructionText (place : Nat × Instruction) : String :=
  "  " ++ padLeft 5 (toString place.1) ++ ": " ++ place.2.text

theorem toList_constantText (e : Nat × Constant) :
    (constantText e).toList = "  #".toList ++ ((toString e.1).toList ++
      (List.replicate (5 - (toString e.1).length) ' ' ++ ' ' :: e.2.text.toList)) := by
  simp [constantText, toList_padRight]

theorem toList_codeText (peak length : Nat) :
    (codeText peak length).toList = "Code (max stack ".toList ++ ((toString peak).toList ++
      ',' :: ' ' :: ((toString length).toList ++ " bytes):".toList)) := by
  -- To unfold by an equation would compare long texts byte by byte.
  delta codeText
  simp

theorem toList_instructionText (e : Nat × Instruction) :
    (instructionText e).toList = "  ".toList ++ (List.replicate (5 - (toString e.1).length) ' ' ++
      ((toString e.1).toList ++ ':' :: ' ' :: e.2.text.toList)) := by
  simp [instructionText, toList_padLeft]

theorem constantText_inj {e e' : Nat × Constant} (hexact : e.2.Exact)
    (h : constantText e = constantText e') : e = e' := by
  have hblank (k : Nat) (r : List Char) :
      ∀ c, (List.replicate k ' ' ++ ' ' :: r).head? = some c → ¬c.isDigit := by
    cases k <;> simp [List.replicate_succ]
  have hchars := congrArg String.toList h
  rw [toList_constantText, toList_constantText, List.append_cancel_left_eq] at hchars
  obtain ⟨hindex, hrest⟩ := toString_append_inj (hblank _ _) (hblank _ _) hchars
  rw [hindex, List.append_cancel_left_eq, List.cons_inj_right, String.toList_inj] at hrest
  exact Prod.ext hindex (Constant.text_inj hexact hrest)

theorem instructionText_injective : Function.Injective instructionText := by
  intro e e' h
  have hblank (k : Nat) : ∀ c ∈ List.replicate k ' ', (c == ' ') = true := by
    simp [List.mem_replicate]
  have hdigit (n : Nat) (r : List Char) :
      ∀ c, ((toString n).toList ++ r).head? = some c → ¬(c == ' ') = true := by
    intro c hc hspace
    have hdigit := isDigit_of_head?_toString hc
    rw [eq_of_beq hspace] at hdigit
    exact absurd hdigit (by decide)
  have hchars := congrArg String.toList h
  rw [toList_instructionText, toList_instructionText, List.append_cancel_left_eq] at hchars
  obtain ⟨-, hplace⟩ := span_append_inj (hblank _) (hblank _) (hdigit _ _) (hdigit _ _) hchars
  obtain ⟨hoffset, hrest⟩ := toString_append_inj (by simp) (by simp) hplace
  rw [List.cons_inj_right, List.cons_inj_right, String.toList_inj] at hrest
  exact Prod.ext hoffset (Instruction.text_inj hrest)

theorem peak_of_codeText {peak peak' length length' : Nat}
    (h : codeText peak length = codeText peak' length') : peak = peak' := by
  have hchars := congrArg String.toList h
  rw [toList_codeText, toList_codeText, List.append_cancel_left_eq] at hchars
  exact (toString_append_inj (by simp) (by simp) hchars).1

theorem map_constantText_inj {es es' : List (Nat × Constant)} (hexact : ∀ e ∈ es, e.2.Exact)
    (h : es.map constantText = es'.map constantText) : es = es' := by
  induction es generalizing es' with
  | nil => exact (List.map_eq_nil_iff.1 h.symm).symm
  | cons e es ih =>
    cases es' with
    | nil => cases h
    | cons e' es' =>
      rw [List.forall_mem_cons] at hexact
      obtain ⟨hfirst, hrest⟩ := List.cons.inj h
      rw [constantText_inj hexact.1 hfirst, ih hexact.2 hrest]

theorem newline_notMem_constantText {e : Nat × Constant} (h : e.2.Exact) :
    '\n' ∉ (constantText e).toList := by
  simp [toList_constantText, newline_notMem_toDigits, Constant.newline_notMem_text h]

theorem newline_notMem_codeText (peak length : Nat) : '\n' ∉ (codeText peak length).toList := by
  simp [toList_codeText, newline_notMem_toDigits]

theorem newline_notMem_instructionText (e : Nat × Instruction) :
    '\n' ∉ (instructionText e).toList := by
  simp [toList_instructionText, newline_notMem_toDigits, Instruction.newline_notMem_text]

theorem instructionLines_eq (n : Nat) (lines : Array String) (is : List Instruction) :
    instructionLines n lines is =
      lines.toList ++ (Instruction.placed n is).map (instructionText · ++ "\n") := by
  induction is generalizing n lines with
  | nil => simp [instructionLines, Instruction.placed]
  | cons i is ih => simp [instructionLines, Instruction.placed, ih, instructionText]

end Listing

open Listing

namespace Program

/-- The lines of a listing, without their ends. -/
def lines (p : Program) : List String :=
  "Constant pool:" :: (p.pool.entries.map constantText ++
    codeText p.body.peak p.body.encode.length ::
      (Instruction.placed 0 p.body.instructions.toList).map instructionText)

theorem listing_eq (p : Program) : p.listing = String.join (p.lines.map (· ++ "\n")) := by
  have hconstants : p.pool.entries.map constantLine =
      p.pool.entries.map (constantText · ++ "\n") := rfl
  apply String.toList_inj.1
  delta listing
  rw [hconstants, instructionLines_eq]
  simp [lines, toList_codeText, List.flatMap_map]

theorem newline_notMem_lines {p : Program} (h : ∀ e ∈ p.pool.entries, e.2.Exact) :
    ∀ line ∈ p.lines, '\n' ∉ line.toList := by
  simp only [lines, List.mem_cons, List.mem_append, List.mem_map]
  rintro _ (rfl | ⟨e, he, rfl⟩ | rfl | ⟨e, -, rfl⟩)
  · decide
  · exact newline_notMem_constantText (h e he)
  · exact newline_notMem_codeText _ _
  · exact newline_notMem_instructionText e

/-- The second heading is found among the lines: those of constants begin with a space. -/
theorem eq_of_lines {p p' : Program} (h : ∀ e ∈ p.pool.entries, e.2.Exact)
    (heq : p.lines = p'.lines) :
    p.pool.entries = p'.pool.entries ∧ p.body.instructions = p'.body.instructions ∧
      p.body.peak = p'.body.peak := by
  have hindented (es : List (Nat × Constant)) :
      ∀ line ∈ es.map constantText, (line.toList.head? == some ' ') = true := by
    intro line hline
    obtain ⟨e, -, rfl⟩ := List.mem_map.1 hline
    simp [toList_constantText]
  have hheading (peak length : Nat) (rest : List String) :
      ∀ line, (codeText peak length :: rest).head? = some line →
        ¬(line.toList.head? == some ' ') = true := by
    simp [toList_codeText]
  obtain ⟨hconstants, hcode⟩ := span_append_inj (hindented _) (hindented _) (hheading _ _ _)
    (hheading _ _ _) (List.cons.inj heq).2
  obtain ⟨hheading, hinstructions⟩ := List.cons.inj hcode
  have hplaced := List.map_injective_iff.2 instructionText_injective hinstructions
  refine ⟨map_constantText_inj h hconstants, ?_, peak_of_codeText hheading⟩
  apply Array.toList_inj.1
  rw [← Instruction.map_snd_placed 0 p.body.instructions.toList, hplaced,
    Instruction.map_snd_placed]

theorem listing_inj {p p' : Program} (h : ∀ e ∈ p.pool.entries, e.2.Exact)
    (h' : ∀ e ∈ p'.pool.entries, e.2.Exact) (heq : p.listing = p'.listing) :
    p.pool.entries = p'.pool.entries ∧ p.body.instructions = p'.body.instructions ∧
      p.body.peak = p'.body.peak := by
  rw [listing_eq, listing_eq] at heq
  exact eq_of_lines h (lines_inj (newline_notMem_lines h) (newline_notMem_lines h') heq)

/-- What each line shows of a program. -/
structure ShownBy (p : Program) (lines : List String) : Prop where
  length : lines.length = 2 + p.pool.entries.length + p.body.instructions.size
  constant : ∀ k n c, p.pool.entries[k]? = some (n, c) →
    lines[1 + k]? = some (constantText (n, c)) ∧
      ∃ index : UInt16, index.toNat = n ∧ p.pool.get? index = some c
  heading : lines[1 + p.pool.entries.length]? =
    some (codeText p.body.peak p.body.encode.length)
  instruction : ∀ k i, p.body.instructions[k]? = some i →
    let before := (p.body.instructions.toList.take k).flatMap Instruction.encode
    lines[2 + p.pool.entries.length + k]? = some (instructionText (before.length, i)) ∧
      before ++ i.encode <+: p.body.encode

theorem shownBy_lines {p : Program} (h : p.pool.Valid) : p.ShownBy p.lines where
  length := by
    simp only [lines, List.length_cons, List.length_append, List.length_map,
      Instruction.length_placed, Array.length_toList]
    omega
  constant := by
    intro k n c hentry
    have hk := (List.getElem?_eq_some_iff.1 hentry).1
    constructor
    · rw [lines, Nat.add_comm, List.getElem?_cons_succ,
        List.getElem?_append_left (by simpa using hk), List.getElem?_map, hentry, Option.map_some]
    · exact h.exists_index (Pool.mem_entries.1 (List.mem_of_getElem? hentry))
  heading := by
    rw [lines, Nat.add_comm, List.getElem?_cons_succ, List.getElem?_append_right (by simp)]
    simp
  instruction := by
    intro k i hi
    rw [← Array.getElem?_toList] at hi
    constructor
    · have hplace : 2 + p.pool.entries.length + k =
          (p.pool.entries.map constantText).length + (k + 1) + 1 := by
        rw [List.length_map]
        omega
      rw [lines, hplace, List.getElem?_cons_succ, List.getElem?_append_right (Nat.le_add_right ..),
        Nat.add_sub_cancel_left, List.getElem?_cons_succ, List.getElem?_map,
        Instruction.getElem?_placed, hi, Instruction.length_flatMap_encode, Nat.zero_add]
      rfl
    · rw [Jvm.Body.encode, Instruction.flatMap_encode_split hi, ← List.append_assoc]
      exact List.prefix_append ..

end Program

/-! ### Listings of compiled texts -/

/-- No operation needs a floating-point constant. -/
theorem Emission.exact_of_mem_parts {e : Emission} {x : Item} (hx : x ∈ e.parts)
    {get : Jvm.Lookup} {c : Constant} (hc : get.item? c = some x) : c.Exact := by
  cases c with
  | float | double =>
    obtain rfl := Option.some.inj hc
    unfold parts at hx
    cases h : e.operation <;> simp [h, Jvm.Operation.item?, Item.parts] at hx
  | _ => trivial

theorem Assembly.Holds.exact {a : Assembly} {es : List Emission} (h : a.Holds es) :
    ∀ e ∈ a.pool.entries, e.2.Exact := by
  rintro ⟨n, c⟩ he
  obtain ⟨i, -, hi⟩ := h.valid.exists_index (Pool.mem_entries.1 he)
  obtain ⟨x, hx, hresolve⟩ := h.valid.resolve_of_get? hi
  have hmem := h.valid.mem_items.2 ⟨i, hresolve⟩
  rw [Jvm.mem_of_absorb h.absorbs] at hmem
  obtain ⟨e, -, he⟩ := List.mem_flatMap.1 (hmem.resolve_left List.not_mem_nil)
  exact e.exact_of_mem_parts he hx

namespace Compiler

theorem exact_of_compile {source : List Char} {p : Program} (h : (compile source).1 = .ok p) :
    ∀ e ∈ p.pool.entries, e.2.Exact := by
  obtain ⟨rfl, es, -, -, hholds⟩ := compile_sound (Prod.ext h rfl)
  exact hholds.exact

/-- A listing has one line for each constant and each instruction, and two more. A constant is
listed with its index and an instruction with the place where its bytes start; the heading of the
instructions has the number of all bytes. Compiled texts with the same listing have the same
constants, instructions and greatest depth. -/
theorem compile_listing_lossless {source : List Char} {p : Program}
    (h : (compile source).1 = .ok p) :
    (∃ lines : List String, p.listing.toList.splitOn '\n' = lines.map String.toList ++ [[]] ∧
      p.ShownBy lines) ∧
    ∀ source' p', (compile source').1 = .ok p' → p'.listing = p.listing →
      p'.pool.entries = p.pool.entries ∧ p'.body.instructions = p.body.instructions ∧
        p'.body.peak = p.body.peak := by
  have hexact := exact_of_compile h
  constructor
  · refine ⟨p.lines, ?_, Program.shownBy_lines (sound_of_compile h).valid⟩
    rw [Program.listing_eq, splitOn_lines (Program.newline_notMem_lines hexact)]
  · intro source' p' h' heq
    exact Program.listing_inj (exact_of_compile h') hexact heq

/-- A text with a line end and a quotation mark in it. -/
theorem spelled_line_end : SpelledProgram [.text "\n\""] "\"\\n\\\"\"".toList := by
  apply spelledProgram_iff.2
  refine ⟨[], ?_, .done []⟩
  apply Source.Scan.of_read rfl
  exact .nil []

/-- Two constants and two instructions are listed in six lines. -/
theorem compile_listing_lossless_line_end :
    ∃ p, (compile "\"\\n\\\"\"".toList).1 = .ok p ∧
      ∃ lines : List String, p.listing.toList.splitOn '\n' = lines.map String.toList ++ [[]] ∧
        p.ShownBy lines ∧ lines.length = 6 := by
  have htyped : ∀ e ∈ [Expr.text "\n\""], e.WellTyped := by simp [Expr.WellTyped.text]
  obtain ⟨p, a, hcompile⟩ := compile_complete spelled_line_end htyped (by decide)
    fun _ hxs => spelled_line_end.depth_bounds (by decide) htyped hxs
  obtain ⟨rfl, es, hspelled, -, hholds⟩ := compile_sound hcompile
  obtain rfl := hspelled.unique spelled_line_end
  have h := congrArg Prod.fst hcompile
  obtain ⟨lines, hlines, hshown⟩ := (compile_listing_lossless h).1
  have hitems : a.pool.items = [.utf8 "\n\"", .string "\n\""] :=
    (congrArg Prod.snd hholds.absorbs).symm
  have hentries : a.pool.entries.length = 2 := by
    simpa [hitems] using congrArg List.length hholds.valid.map_item?_entries
  have hinstructions : a.body.instructions.size = 2 := by
    simpa [Expr.program, Expr.emissions] using congrArg List.length hholds.map_operation?
  have hlength : lines.length = 2 + a.pool.entries.length + a.body.instructions.size :=
    hshown.length
  refine ⟨_, h, lines, hlines, hshown, ?_⟩
  rw [hlength, hentries, hinstructions]

end Compiler

end JvmLisp
