import JvmLisp.Proofs.Program.Evaluation
import JvmLisp.Proofs.Program.Packaging

/-! # Correctness

The class file of a source text prints what the trees of the text print, and its code ends with the
return.
-/

namespace JvmLisp

open Jvm (CodeAttribute Image Instruction Lookup Machine Operation Pool)

/-- A class file with one method runs the code of the method. -/
theorem Jvm.Machine.runMain_encode {c : Jvm.Class} {main : Jvm.Method} {pool : Pool}
    {bytes : List UInt8} (hpool : pool.Sound) (hencode : c.encode pool = .ok bytes)
    (hmethods : c.methods = #[main]) (hlength : main.code.code.length < 2 ^ 32)
    (hname : Lookup.text? pool.get? main.name = some "main")
    (hdescriptor : Lookup.text? pool.get? main.descriptor = some "([Ljava/lang/String;)V")
    (hcodeName : Lookup.text? pool.get? main.codeName = some "Code") :
    runMain bytes = (run pool.get? main.code.code {}).map fun p => (p.1.output, p.2) := by
  have himage := Image.read_encode hpool.valid (fun _ => hpool.storable) hencode
  have hcode := Code.read_content hlength
  simp only [runMain, himage, Option.bind_eq_bind, Option.bind_some, Image.method?, Image.code?,
    Image.get_mk, hmethods]
  simp [Method.member, hname, hdescriptor, hcodeName, hcode]

/-- The code of a program runs to its last byte and prints the output of the program. -/
theorem Assembly.Holds.run_program {a : Assembly} {es : List Expr}
    (h : a.Holds (Expr.program es)) (htyped : ∀ e ∈ es, e.WellTyped) {get : Lookup}
    (hget : Lookup.Sub a.pool.get? get) :
    ∃ stack, Machine.run get a.body.encode {} = some (⟨stack, Expr.output es⟩, []) := by
  obtain ⟨stack, hexec⟩ := Expr.execAll_program htyped [] ""
  obtain ⟨ps, p, hemitted, hret, hreads⟩ := Emission.exists_of_reads_concat h.operations
  have hcode : a.body.encode = (ps.map Prod.fst).flatMap Instruction.encode ++
      (Instruction.ret.encode ++ []) := by
    rw [Jvm.Body.encode, h.instructions, hemitted]
    simp [Instruction.operation?_eq_ret.1 hret.1]
  have hops : List.Forall₂ (fun i op => i.operation? get = some op) (ps.map Prod.fst)
      ((es.flatMap Expr.emissions).map Emission.operation) := by
    rw [List.forall₂_map_left_iff, List.forall₂_map_right_iff]
    exact hreads.imp fun p e hp => (hp.mono hget).1
  refine ⟨stack, ?_⟩
  rw [hcode, Machine.run_of_execAll hops hexec, Machine.run_ret, String.empty_append]

/-- The class file of a source text prints what the trees of the text print, and ends at the last
byte of the code. -/
theorem compileClass_runs {source : String} {names : Naming} {p : Program} {bytes : List UInt8}
    (h : (compileClass source names).1 = .ok (p, bytes)) :
    ∃ es, (∀ es', SpelledProgram es' source.toList ↔ es' = es) ∧
      Machine.runMain bytes = some (Expr.output es, []) := by
  obtain ⟨a, hcompile, a', hassemble⟩ : ∃ a, Compiler.compile source.toList = (.ok p, a) ∧ ∃ a',
      p.assemble names = (.ok bytes, a') := by
    rw [compileClass] at h
    rcases hcompile : Compiler.compile source.toList with ⟨e | p', a⟩
    · simp [hcompile] at h
    · rcases hassemble : p'.assemble names with ⟨e | bytes', a'⟩
      · simp [hcompile, hassemble, Except.map] at h
      · obtain ⟨rfl, rfl⟩ : p' = p ∧ bytes' = bytes := by
          simpa [hcompile, hassemble, Except.map] using h
        exact ⟨a, rfl, a', hassemble⟩
  obtain ⟨rfl, es, hspelled, htyped, hholds⟩ := Compiler.compile_sound hcompile
  obtain ⟨pool, c, main, hpool, hgrows, hencode, hmethods, hcode, hlength, hname, hdescriptor,
    hcodeName⟩ := Program.package_eq_ok hassemble hholds.sound
  refine ⟨es, fun es' => ⟨fun h' => h'.unique hspelled, fun h' => h' ▸ hspelled⟩, ?_⟩
  rw [Machine.runMain_encode hpool hencode hmethods hlength hname hdescriptor hcodeName, hcode]
  obtain ⟨stack, hrun⟩ := hholds.run_program htyped hgrows.sub
  simp [hrun]

/-- A program of moderate size is packaged if its constants and those of its class fit together. -/
theorem exists_compileClass {source : String} {names : Naming} {p : Program} {a : Assembly}
    {es : List Expr} (hcompile : Compiler.compile source.toList = (.ok p, a))
    (hspelled : SpelledProgram es source.toList) (hname : names.className.isEmpty = false)
    (habsorb : (Jvm.absorb ((Expr.program es).flatMap Emission.parts ++ names.parts) []).1 = .ok ())
    (hlength : 3 * (Expr.program es).length ≤ 65535) :
    ∃ bytes, (compileClass source names).1 = .ok (p, bytes) := by
  obtain ⟨bytes, hfile⟩ := Compiler.exists_classFile names (congrArg Prod.fst hcompile) hspelled
    hname habsorb hlength
  refine ⟨bytes, ?_⟩
  rw [Program.classFile] at hfile
  simp [compileClass, hcompile, hfile, Except.map]

theorem compileClass_runs_print_sum : ∃ p bytes,
    (compileClass "(print \"a\" (+ 1 2))" {}).1 = .ok (p, bytes) ∧
      Machine.runMain bytes = some ("a3\n", []) := by
  obtain ⟨p, a, hcompile⟩ := Compiler.exists_compile_print_sum
  have hname : ({} : Naming).className.isEmpty = false := by decide
  obtain ⟨bytes, h⟩ := exists_compileClass hcompile Compiler.spelled_print_sum hname (by decide)
    (by decide)
  obtain ⟨es, hes, hrun⟩ := compileClass_runs h
  rw [← (hes _).1 Compiler.spelled_print_sum] at hrun
  exact ⟨p, bytes, h, hrun⟩

end JvmLisp
