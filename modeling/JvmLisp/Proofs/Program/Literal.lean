import JvmLisp.Proofs.Program.Safety
import JvmLisp.Proofs.Source.Denotation

/-! # Integer literals

What becomes of an atom where an operand is read. If it stands for a number that fits a word, the
number is loaded, and the only thing that can be in the way is a full constant pool. Otherwise the
atom is refused, with one message for a number that is too large and one for everything else.
-/

namespace JvmLisp

open Source (Atom Cursor Denotes Lexeme isAtomic readInteger)

/-! ### Loading -/

/-- An integer is in the pool, or can be added to it: a wide constant takes two indices. -/
def Jvm.Pool.AdmitsLong (pool : Pool) (v : Int64) : Prop :=
  (∃ i, pool.get? i = some (.long v)) ∨ pool.size + 2 ≤ 65534

/-- The pool is as interning leaves it, and the stack can be raised by an integer. -/
structure Assembly.Ready (a : Assembly) : Prop where
  valid : a.pool.Valid
  room : a.body.depth + 2 < Jvm.Body.depthBound

/-- An integer has been added to the pool, unless it was there, and its load to the body. -/
def Assembly.Loads (v : Int64) (a a' : Assembly) : Prop :=
  a.pool.ExtendsBy (Jvm.missing [.long v] a.pool.items) a'.pool ∧
    ∃ i, a'.pool.get? i = some (.long v) ∧
      a'.body = a.body.append (.ldc2 i) (a.body.depth + 2)

namespace Jvm.Pool

variable {pool : Pool}

/-- An integer is interned if the pool admits it. Otherwise the pool is full and stays as it is. -/
theorem Valid.intern_long (h : pool.Valid) (v : Int64) :
    (pool.AdmitsLong v ∧ ∃ i pool', intern (.long v) pool = (.ok i, pool') ∧
      pool'.get? i = some (.long v) ∧ pool.ExtendsBy (missing [.long v] pool.items) pool') ∨
    (¬pool.AdmitsLong v ∧
      intern (.long v) pool = (.error { cause := .limit .poolSize }, pool)) := by
  have hsim : Simulates pool (intern (.long v) pool) [.long v] (.long v) :=
    simulates_intern h (.long v)
  have hmissing (hnew : .long v ∉ pool.items) : missing [.long v] pool.items = [.long v] := by
    rw [missing_cons_of_notMem hnew, missing_nil]
  have hwidth : (Item.long v).width = 2 := rfl
  obtain ⟨i, hi, hitems⟩ | ⟨front, y, back, cause, hsplit, -, hrefused, herror, hitems⟩ :=
    hsim.outcome h
  · refine .inl ⟨?_, i, _, Prod.ext hi rfl, Lookup.resolve_long.1 (hsim.index i hi),
      hsim.grows.extendsBy h hsim.valid hitems⟩
    by_cases hheld : .long v ∈ pool.items
    · exact .inl (h.long_mem_items.1 hheld)
    · have hmax := hsim.valid.size_le_max
      rw [hsim.valid.size_eq, hitems, hmissing hheld, totalWidth_append, ← h.size_eq] at hmax
      exact .inr (by simpa [hwidth] using hmax)
  · have hnew : .long v ∉ pool.items := by
      intro hmem
      rw [missing_cons_of_mem hmem] at hsplit
      simp at hsplit
    -- Nothing but the integer is missing, so nothing was added before it.
    rw [hmissing hnew, List.singleton_eq_append_iff] at hsplit
    obtain ⟨rfl, hy⟩ | ⟨-, hy⟩ := hsplit
    · obtain ⟨rfl, -⟩ := List.cons.inj hy
      rw [List.append_nil] at hitems
      cases hrefused with
      | room _ full =>
        rw [hwidth, totalWidth_nil] at full
        refine .inr ⟨?_, Prod.ext herror (hsim.grows.eq_of_items h hsim.valid hitems)⟩
        rintro (hheld | hroom)
        · exact hnew (h.long_mem_items.2 hheld)
        · omega
    · cases hy

end Jvm.Pool

namespace Form

open Build (interning_apply emit_apply)

variable {a : Assembly} {v : Int64}

theorem pushLong_of_admits (h : a.Ready) (hv : a.pool.AdmitsLong v) :
    ∃ a', pushLong v a = (.ok (), a') ∧ a.Loads v a' := by
  obtain ⟨-, i, pool', hintern, hi, hgrows⟩ | ⟨hfull, -⟩ := h.valid.intern_long v
  · obtain ⟨a₁, hinterning, hpool, hbody, -⟩ := interning_apply (Jvm.Pool.intern (.long v)) a
    have hdepth : 0 ≤ (a₁.body.depth : Int) + 2 ∧
        (a₁.body.depth : Int) + 2 < Jvm.Body.depthBound := by
      have hroom := h.room
      rw [hbody]
      omega
    obtain ⟨a₂, hemit, hpool', hbody', -⟩ := emit_apply (.ldc2 i) 2 a₁ hdepth
    rw [hintern] at hinterning hpool
    refine ⟨a₂, Jvm.bind_eq_ok.2 ⟨i, a₁, hinterning, hemit⟩, ?_, i, ?_, ?_⟩
    · rw [hpool', hpool]
      exact hgrows
    · rw [hpool', hpool]
      exact hi
    · rw [hbody', hbody]
      rfl
  · exact absurd hv hfull

theorem pushLong_of_full (h : a.Ready) (hv : ¬a.pool.AdmitsLong v) :
    ∃ a', pushLong v a = (.error { cause := .limit .poolSize }, a') ∧ a'.pool = a.pool ∧
      a'.body = a.body := by
  obtain ⟨hadmits, -⟩ | ⟨-, hintern⟩ := h.valid.intern_long v
  · exact absurd hadmits hv
  · obtain ⟨a₁, hinterning, hpool, hbody, -⟩ := interning_apply (Jvm.Pool.intern (.long v)) a
    rw [hintern] at hinterning hpool
    refine ⟨a₁, ?_, hpool, hbody⟩
    rw [pushLong, Jvm.bind_apply, Build.intern, hinterning]

end Form

namespace Compiler

/-- Reading an operand loads an integer and passes it on. If the constant pool is full, reading
fails behind the atom, and neither the pool nor the body has changed. -/
structure LoadsLong (c : Compiler) (behind : Cursor) (v : Int64) : Prop where
  loads : c.assembly.pool.AdmitsLong v → ∃ a, c.assembly.Loads v a ∧
    readOperand c = deliver c.cursor .long ⟨behind, c.forms, c.expressions, a⟩
  full : ¬c.assembly.pool.AdmitsLong v →
    ∃ a, a.pool = c.assembly.pool ∧ a.body = c.assembly.body ∧
      readOperand c = fail ⟨behind, c.forms, c.expressions, a⟩ behind (.limit .poolSize)

/-- Reading an operand fails at its first character, and nothing is built. -/
def Refuses (c : Compiler) (behind : Cursor) (message : String) : Prop :=
  ∃ e, readOperand c = .stop (.error e) { c with cursor := behind } ∧ e.message = message ∧
    e.location = some (behind.locate c.cursor.position)

variable {c : Compiler} {behind : Cursor} {a r : List Char} {z : Int} {v : Int64}

theorem loadsLong_of_read (hready : c.assembly.Ready)
    (hread : Lexeme.read c.cursor = (.ok (.integer v), behind)) : LoadsLong c behind v := by
  rcases c with ⟨start, forms, expressions, assembly⟩
  constructor
  · intro hadmits
    obtain ⟨a', hpush, hloads⟩ := Form.pushLong_of_admits hready hadmits
    exact ⟨a', hloads, by simp only [readOperand, hread, build, hpush]⟩
  · intro hfull
    obtain ⟨a', hpush, hpool, hbody⟩ := Form.pushLong_of_full hready hfull
    exact ⟨a', hpool, hbody, by simp only [readOperand, hread, build, hpush]⟩

theorem loadsLong_of_denotes (hready : c.assembly.Ready) (ha : Atom a c.cursor.rest r)
    (hz : Denotes a v.toInt) : LoadsLong c ⟨a.reverse ++ c.cursor.before, r⟩ v := by
  apply loadsLong_of_read hready
  rw [Lexeme.read_of_atom ha, Source.readInteger_of_denotes hz]

theorem refuses_of_readInteger {fault : Malformed} (ha : Atom a c.cursor.rest r)
    (h : readInteger a = .error fault) :
    Refuses c ⟨a.reverse ++ c.cursor.before, r⟩ (Cause.malformed fault).message := by
  rcases c with ⟨start, forms, expressions, assembly⟩
  have hread := Lexeme.read_of_atom ha start.before
  rw [h] at hread
  refine ⟨Cursor.errorAt ⟨a.reverse ++ start.before, r⟩ start (.malformed fault), ?_, rfl, rfl⟩
  simp only [readOperand, hread, Cursor.fail]

/-- Where an operand is due, what stands before it can be emitted, and then an integer loaded. -/
theorem Visits.ready {source : List Char} (h : Visits source c)
    (hlength : source.length < 2 ^ 32) :
    ∃ a, beginOperand c.forms c.assembly = (.ok (), a) ∧ a.Ready := by
  obtain ⟨stack, hstacks, -, hwords⟩ := h.balanced hlength
  -- One word for what may be emitted here, and two for the integer.
  have hdepth : c.assembly.body.depth + 3 < Jvm.Body.depthBound := by
    rw [hstacks.depth]
    exact lt_depthBound hlength (by omega)
  have hready : c.assembly.Ready := ⟨hstacks.valid, by omega⟩
  rcases c.forms with _ | ⟨⟨_ | n, opening⟩, outer⟩
  · exact ⟨c.assembly, rfl, hready⟩
  · obtain ⟨a, hemit, hpool, hbody, -⟩ := Build.emit_apply .dup 1 c.assembly (by omega)
    refine ⟨a, hemit, hpool ▸ hstacks.valid, ?_⟩
    rw [hbody]
    simp only [Jvm.Body.append]
    omega
  · exact ⟨c.assembly, rfl, hready⟩

/-! ### Messages -/

theorem message_outOfRange (atom : String) : (Cause.malformed (.outOfRange atom)).message =
    "syntax error: integer literal `" ++ atom ++ "` is out of range" := by
  rw [String.append_assoc]
  exact Malformed.cause_message String.append_assoc (by decide)

theorem message_notALiteral (atom : String) : (Cause.malformed (.notALiteral atom)).message =
    "syntax error: expected a literal, found `" ++ atom ++ "`" := by
  rw [String.append_assoc]
  exact Malformed.cause_message String.append_assoc (by decide)

/-- An atom where an operand is read is of one of three kinds. If it stands for a number, this is
its only one: a number that fits a word is loaded, and any other is refused as out of range. An atom
that stands for no number is refused as no literal. The decimal text of every word, also with a plus
sign in front if it is not negative, loads this word. Loading needs a stack that can be raised, and
the compiler has one wherever it reads an operand. -/
theorem readOperand_atom :
    (∀ c : Compiler, c.assembly.Ready → ∀ a r, Atom a c.cursor.rest r →
      let behind : Cursor := ⟨a.reverse ++ c.cursor.before, r⟩
      (∀ z, Denotes a z → (∀ z', Denotes a z' → z' = z) ∧
        (-2 ^ 63 ≤ z ∧ z ≤ 2 ^ 63 - 1 → ∃ v : Int64, v.toInt = z ∧ LoadsLong c behind v) ∧
        (¬(-2 ^ 63 ≤ z ∧ z ≤ 2 ^ 63 - 1) → Refuses c behind
          ("syntax error: integer literal `" ++ String.ofList a ++ "` is out of range"))) ∧
      ((∀ z, ¬Denotes a z) → Refuses c behind
        ("syntax error: expected a literal, found `" ++ String.ofList a ++ "`"))) ∧
    (∀ c : Compiler, c.assembly.Ready → ∀ (v : Int64) (a r : List Char),
      a = (toString v.toInt).toList ∨ 0 ≤ v.toInt ∧ a = '+' :: (toString v.toInt).toList →
      c.cursor.rest = a ++ r → (∀ d, r.head? = some d → ¬isAtomic d) →
      LoadsLong c ⟨a.reverse ++ c.cursor.before, r⟩ v) ∧
    ∀ (source : List Char) (c : Compiler), source.length < 2 ^ 32 → Visits source c →
      ∃ a, beginOperand c.forms c.assembly = (.ok (), a) ∧ a.Ready := by
  refine ⟨?_, ?_, fun source c hlength h => h.ready hlength⟩
  · intro c hready a r ha behind
    constructor
    · intro z hz
      refine ⟨fun z' => hz.unique, ?_, ?_⟩
      · intro hfits
        have hv : (Int64.ofInt z).toInt = z := Int64.toInt_ofInt_of_le hfits.1 (by omega)
        exact ⟨Int64.ofInt z, hv, loadsLong_of_denotes hready ha (by rwa [hv])⟩
      · intro hlarge
        rw [← message_outOfRange]
        exact refuses_of_readInteger ha (Source.readInteger_of_not_fits hz (by omega))
    · intro hnone
      rw [← message_notALiteral]
      exact refuses_of_readInteger ha (Source.readInteger_of_not_denotes hnone)
  · intro c hready v a r htext hrest hr
    have hz : Denotes a v.toInt := by
      rcases htext with rfl | ⟨hsign, rfl⟩
      · exact Source.denotes_toString v.toInt
      · exact Source.denotes_plus_toString hsign
    exact loadsLong_of_denotes hready (hrest ▸ hz.atom hr) hz

/-- The least word, with zeros in front; the first number that is too large; and two signs. -/
theorem readOperand_atom_extremes :
    LoadsLong { cursor := Cursor.ofText "-009223372036854775808)".toList }
      ⟨"-009223372036854775808".toList.reverse, [')']⟩ Int64.minValue ∧
    Refuses { cursor := Cursor.ofText "+9223372036854775808".toList }
      ⟨"+9223372036854775808".toList.reverse, []⟩
      "syntax error: integer literal `+9223372036854775808` is out of range" ∧
    Refuses { cursor := Cursor.ofText "+-1 2".toList } ⟨"+-1".toList.reverse, [' ', '2']⟩
      "syntax error: expected a literal, found `+-1`" ∧
    LoadsLong { cursor := Cursor.ofText "+7".toList } ⟨"+7".toList.reverse, []⟩ 7 ∧
    ∃ a, beginOperand [] {} = (.ok (), a) ∧ a.Ready := by
  have hready : ({} : Assembly).Ready := ⟨Jvm.Pool.valid_empty, by decide⟩
  obtain ⟨hatoms, hwords, hvisits⟩ := readOperand_atom
  refine ⟨?_, ?_, ?_, ?_, hvisits [] { cursor := Cursor.ofText [] } (by decide) .refl⟩
  · have hz : Denotes "-009223372036854775808".toList (-9223372036854775808) :=
      @Denotes.negative "009223372036854775808".toList (by decide)
        (List.all_eq_true.1 (by decide))
    obtain ⟨v, hv, hloads⟩ := ((hatoms { cursor := Cursor.ofText "-009223372036854775808)".toList }
      hready _ [')'] (Source.atom_iff.2 (by decide))).1 _ hz).2.1 (by decide)
    obtain rfl : v = Int64.minValue := Int64.toInt_inj.1 hv
    exact hloads
  · have hz : Denotes "+9223372036854775808".toList 9223372036854775808 :=
      @Denotes.positive ['+'] "9223372036854775808".toList (.inr rfl) (by decide)
        (List.all_eq_true.1 (by decide))
    exact ((hatoms _ hready _ [] (Source.atom_iff.2 (by decide))).1 _ hz).2.2 (by decide)
  · refine (hatoms _ hready "+-1".toList [' ', '2'] (Source.atom_iff.2 (by decide))).2 ?_
    intro z hz
    obtain ⟨-, hdigits⟩ := Source.isDecimal_iff.1 (Source.isDecimal_iff_denotes.2 ⟨z, hz⟩)
    exact absurd (hdigits '-' (by decide)) (by decide)
  · exact hwords _ hready 7 "+7".toList [] (.inr (by decide)) rfl (by simp)

end Compiler

end JvmLisp
