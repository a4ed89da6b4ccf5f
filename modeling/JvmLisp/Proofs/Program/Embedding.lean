import JvmLisp.Proofs.Program.Packaging

/-! # A program in its class file

Whatever names a class is given, its one method has the code of the program, and all constants of the
program stand where they stood. The names may be texts of the program, or the same as each other.
-/

namespace JvmLisp

open Jvm (Code CodeAttribute Image Member)

/-- A class file has the code of a program as its one method `main`, all constants of the program at
their indices, and the names that it was given. -/
structure Jvm.Image.Embeds (image : Image) (p : Program) (names : Naming) (main : Member)
    (codeName : UInt16) (content : List UInt8) : Prop where
  methods : image.methods = [main]
  attributes : main.attributes = [⟨codeName, content⟩]
  code : ∃ code, Code.read.all? content = some code ∧ code.code = p.body.encode ∧
    code.maxStack.toNat = p.body.peak
  constants : ∀ i k, p.pool.get? i = some k → image.get i = some k
  range : ∀ i, i.toNat ≤ p.pool.size → image.get i = p.pool.get? i
  operations : ∀ x ∈ p.body.instructions.toList, ∃ op,
    x.operation? p.pool.get? = some op ∧ x.operation? image.get = some op
  thisClass : image.get.className? image.thisClass = some names.className
  superClass : image.get.className? image.superClass = some names.superName
  name : image.get.text? main.name = some "main"
  descriptor : image.get.text? main.descriptor = some "([Ljava/lang/String;)V"
  codeAttribute : image.get.text? codeName = some "Code"

namespace Program

/-- Every operand of the code leads to a constant of the kind that its instruction takes. -/
def Resolves (p : Program) : Prop :=
  ∀ x ∈ p.body.instructions.toList, ∃ op, x.operation? p.pool.get? = some op

/-- The content of the attribute `Code`, which does not depend on the names of the class. -/
def codeContent (p : Program) : List UInt8 :=
  CodeAttribute.content ⟨UInt16.ofNat p.body.peak, mainLocals, p.body.encode⟩

theorem exists_embeds {p : Program} {names : Naming} {bytes : List UInt8} (hsound : p.pool.Sound)
    (hresolves : p.Resolves) (hfile : p.classFile names = .ok bytes) :
    ∃ image main codeName, Image.read.all? bytes = some image ∧
      image.Embeds p names main codeName p.codeContent := by
  have hpackage : package names { pool := p.pool, body := p.body } = (.ok bytes, _) :=
    Prod.ext hfile rfl
  rw [package_eq] at hpackage
  obtain ⟨c, a, hdeclare, hencode⟩ := Jvm.bind_eq_ok.1 hpackage
  obtain ⟨main, hholds⟩ := declare_eq_ok hdeclare hsound
  have himage := Image.read_encode hholds.sound.valid (fun _ => hholds.sound.storable)
    (Build.encodeClass_eq_ok hencode)
  have hlength := hholds.length
  have hpeak := hholds.peak
  refine ⟨_, main.member, main.codeName, himage, ?_⟩
  -- All that the class file says about its constants is said about the pool that was encoded.
  constructor
  · simp [hholds.methods]
  · rw [Jvm.Method.member, hholds.code]
    rfl
  · refine ⟨_, Code.read_content (by dsimp only at hlength ⊢; omega), rfl, ?_⟩
    exact UInt16.toNat_ofNat_of_lt (Nat.lt_succ_of_le hpeak)
  · intro i k hk
    rw [Image.get_mk]
    exact hholds.grows.get? hk
  · intro i hi
    rw [Image.get_mk]
    exact hholds.grows.get?_of_lt (hsound.valid.lt_slots_size_iff.2 hi)
  · intro x hx
    obtain ⟨op, hop⟩ := hresolves x hx
    rw [Image.get_mk]
    exact ⟨op, hop, Jvm.Instruction.operation?_mono hholds.grows.sub hop⟩
  · simpa only [Image.get_mk] using hholds.thisClass
  · simpa only [Image.get_mk] using hholds.superClass
  · simpa only [Image.get_mk, Jvm.Method.member] using hholds.name
  · simpa only [Image.get_mk, Jvm.Method.member] using hholds.descriptor
  · simpa only [Image.get_mk] using hholds.codeName

end Program

namespace Compiler

variable {source : List Char} {p : Program}

theorem resolves_of_compile (h : (compile source).1 = .ok p) : p.Resolves := by
  obtain ⟨hp, es, -, -, hholds⟩ := compile_sound (Prod.ext h rfl)
  rw [hp]
  intro x hx
  obtain ⟨e, -, he⟩ := List.mem_map.1 (hholds.map_operation? ▸ List.mem_map_of_mem hx)
  exact ⟨e.operation, he.symm⟩

/-- The class file of a program holds its code and its constants as they are, and its names, whatever
they are. With other names, the attribute `Code` is the same, and so are all constants in the range of
those of the program. -/
theorem compile_classFile_embeds {names : Naming} {bytes : List UInt8}
    (h : (compile source).1 = .ok p) (hfile : p.classFile names = .ok bytes) :
    ∃ image main codeName content, Image.read.all? bytes = some image ∧
      image.Embeds p names main codeName content ∧
      ∀ names' bytes', p.classFile names' = .ok bytes' → ∃ image' main' codeName',
        Image.read.all? bytes' = some image' ∧ image'.Embeds p names' main' codeName' content ∧
        ∀ i, i.toNat ≤ p.pool.size → image'.get i = image.get i := by
  have hsound := sound_of_compile h
  have hresolves := resolves_of_compile h
  obtain ⟨image, main, codeName, himage, hembeds⟩ := Program.exists_embeds hsound hresolves hfile
  refine ⟨image, main, codeName, _, himage, hembeds, ?_⟩
  intro names' bytes' hfile'
  obtain ⟨image', main', codeName', himage', hembeds'⟩ :=
    Program.exists_embeds hsound hresolves hfile'
  refine ⟨image', main', codeName', himage', hembeds', ?_⟩
  intro i hi
  rw [hembeds'.range i hi, hembeds.range i hi]

/-- The class is called as a text of the program, its superclass as its method. -/
theorem compile_classFile_embeds_shared_names :
    ∃ p bytes image main codeName content,
      (compile "(print \"a\" (+ 1 2))".toList).1 = .ok p ∧
      p.classFile { className := "a", superName := "main" } = .ok bytes ∧
      Image.read.all? bytes = some image ∧
      image.Embeds p { className := "a", superName := "main" } main codeName content ∧
      ∃ bytes' image' main' codeName', p.classFile {} = .ok bytes' ∧
        Image.read.all? bytes' = some image' ∧ image'.Embeds p {} main' codeName' content := by
  obtain ⟨p, a, hcompile⟩ := exists_compile_print_sum
  have h := congrArg Prod.fst hcompile
  obtain ⟨bytes, hfile⟩ := exists_classFile { className := "a", superName := "main" } h
    spelled_print_sum (by decide) (by decide) (by decide)
  obtain ⟨bytes', hfile'⟩ := exists_classFile {} h spelled_print_sum (by decide)
    (by decide) (by decide)
  obtain ⟨image, main, codeName, content, himage, hembeds, hothers⟩ :=
    compile_classFile_embeds h hfile
  obtain ⟨image', main', codeName', himage', hembeds', -⟩ := hothers {} bytes' hfile'
  exact ⟨p, bytes, image, main, codeName, content, h, hfile, himage, hembeds, bytes', image', main',
    codeName', hfile', himage', hembeds'⟩

end Compiler

end JvmLisp
