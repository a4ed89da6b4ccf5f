import JvmLisp.Proofs.Pool.Refusal
import JvmLisp.Proofs.Program.Packaging

/-! # The limits of a class file

A program becomes a class file exactly if its class has a name, all names can be encoded, its code
keeps the limits of a method, and there is room for the constants that the class adds to those of the
program. These conditions are looked at in a fixed order, and the error is that of the first that is
violated. Encoding comes last and never fails.
-/

namespace JvmLisp

open Jvm (CodeAttribute Item Pool Storable TextFault absorb missing totalWidth)

/-! ### Checks in order -/

/-- The first of the checks that finds a fault finds this one. -/
inductive FirstFault : List (Cause → Prop) → Cause → Prop
  | here {check : Cause → Prop} {checks : List (Cause → Prop)} {cause : Cause}
      (fault : check cause) : FirstFault (check :: checks) cause
  | later {check : Cause → Prop} {checks : List (Cause → Prop)} {cause : Cause}
      (passed : ∀ other, ¬check other) (rest : FirstFault checks cause) :
      FirstFault (check :: checks) cause

namespace FirstFault

variable {checks checks' : List (Cause → Prop)} {cause : Cause}

theorem append_right (h : FirstFault checks cause) : FirstFault (checks ++ checks') cause := by
  induction h with
  | here fault => exact .here fault
  | later passed _ ih => exact .later passed ih

theorem append_left (hpassed : ∀ check ∈ checks, ∀ other, ¬check other)
    (h : FirstFault checks' cause) : FirstFault (checks ++ checks') cause := by
  induction checks with
  | nil => exact h
  | cons check checks ih =>
    rw [List.forall_mem_cons] at hpassed
    exact .later hpassed.1 (ih hpassed.2)

theorem exists_fault (h : FirstFault checks cause) : ∃ check ∈ checks, check cause := by
  induction h with
  | here fault => exact ⟨_, List.mem_cons_self, fault⟩
  | later _ _ ih =>
    obtain ⟨check, hmem, hfault⟩ := ih
    exact ⟨check, List.mem_cons_of_mem _ hmem, hfault⟩

end FirstFault

/-- A result that exists if all checks are passed, and otherwise is the first fault, without a
place. -/
def Reports {α : Type} (checks : List (Cause → Prop)) : Except Error α → Prop
  | .ok _ => ∀ check ∈ checks, ∀ cause, ¬check cause
  | .error e => FirstFault checks e.cause ∧ e.location = none

namespace Reports

variable {α β : Type} {checks checks' : List (Cause → Prop)}

theorem append {r : Except Error α} {r' : Except Error β} (h : Reports checks r)
    (herror : ∀ e, r = .error e → r' = .error e) (hok : ∀ x, r = .ok x → Reports checks' r') :
    Reports (checks ++ checks') r' := by
  cases r with
  | error e =>
    rw [herror e rfl]
    exact ⟨h.1.append_right, h.2⟩
  | ok x =>
    have h' := hok x rfl
    cases r' with
    | error e => exact ⟨h'.1.append_left h, h'.2⟩
    | ok y => exact List.forall_mem_append.2 ⟨h, h'⟩

theorem of_map {r : Except Error α} {f : α → β} (h : Reports checks (r.map f)) :
    Reports checks r := by
  cases r <;> exact h

theorem ok_iff {r : Except Error α} (h : Reports checks r) :
    (∃ x, r = .ok x) ↔ ∀ check ∈ checks, ∀ cause, ¬check cause := by
  cases r with
  | error e =>
    obtain ⟨check, hmem, hfault⟩ := h.1.exists_fault
    simp only [reduceCtorEq, exists_false, false_iff]
    intro hpassed
    exact hpassed check hmem _ hfault
  | ok x => exact ⟨fun _ => h, fun _ => ⟨x, rfl⟩⟩

end Reports

namespace Jvm

/-- A size beyond what two bytes can hold. -/
def Exceeds (size : Nat) (limit : Nat → Limit) (cause : Cause) : Prop :=
  65535 < size ∧ cause = .limit (limit size)

theorem not_exceeds_iff {size : Nat} {limit : Nat → Limit} :
    (∀ cause, ¬Exceeds size limit cause) ↔ size ≤ 65535 := by
  simp [Exceeds]

theorem forall_not_textFault {text : String} :
    (∀ cause, ¬TextFault text cause) ↔ Storable text := by
  constructor
  · intro h
    by_contra hbad
    obtain ⟨cause, hfault⟩ := exists_textFault hbad
    exact h cause hfault
  · intro h cause hfault
    exact hfault.not_storable h

theorem CodeAttribute.reports_ofBody (body : Body) (maxLocals : UInt16) :
    Reports [Exceeds body.peak .stackDepth, Exceeds body.encode.length .codeLength]
      (ofBody body maxLocals) := by
  simp only [ofBody]
  split
  · rename_i hpeak
    exact ⟨.here ⟨hpeak, rfl⟩, rfl⟩
  · rename_i hpeak
    split
    · rename_i hlength
      exact ⟨.later (fun cause h => hpeak h.1) (.here ⟨hlength, rfl⟩), rfl⟩
    · rename_i hlength
      simp [Reports, Exceeds]
      omega

namespace Pool

variable {pool : Pool} {xs ys held : List Item}

theorem totalWidth_eq_length (h : ∀ x ∈ xs, x.width = 1) : totalWidth xs = xs.length := by
  induction xs with
  | nil => rfl
  | cons x xs ih =>
    rw [List.forall_mem_cons] at h
    rw [totalWidth_cons, h.1, ih h.2, List.length_cons, Nat.add_comm]

/-- There are not enough indices for the items that are missing. -/
def NoRoom (pool : Pool) (xs : List Item) (cause : Cause) : Prop :=
  65534 < pool.size + totalWidth (missing xs pool.items) ∧ cause = .limit .poolSize

theorem not_noRoom_iff : (∀ cause, ¬pool.NoRoom xs cause) ↔
    pool.size + totalWidth (missing xs pool.items) ≤ 65534 := by
  simp [NoRoom]

theorem NoRoom.append {cause : Cause} (h : pool.NoRoom xs cause) :
    pool.NoRoom (xs ++ ys) cause := by
  refine ⟨?_, h.2⟩
  rw [missing_append, totalWidth_append, ← Nat.add_assoc]
  exact Nat.lt_add_right _ h.1

/-- If all texts are valid, only room can be lacking. -/
theorem Sound.reports_absorb (h : pool.Sound) (xs : List Item)
    (hstorable : ∀ text, .utf8 text ∈ xs → Storable text) :
    Reports [pool.NoRoom xs] (absorb xs pool.items).1 := by
  have hiff := h.absorb_ok_iff xs
  obtain ⟨-, hok⟩ | ⟨front, x, back, cause, hsplit, -, hrefused, herror⟩ :=
    absorb_outcome xs pool.items
  · obtain ⟨-, hroom⟩ := hiff.1 (by rw [hok])
    rw [hok]
    refine List.forall_mem_singleton.2 fun cause hfull => ?_
    exact absurd hfull.1 (Nat.not_lt.2 hroom)
  · have hfull : 65534 < pool.size + totalWidth (missing xs pool.items) := by
      by_contra hroom
      have hok := hiff.2 ⟨hstorable, Nat.not_lt.1 hroom⟩
      rw [herror] at hok
      cases hok
    rw [herror]
    cases hrefused with
    | @text t _ fault =>
      have hmem : Item.utf8 t ∈ missing xs pool.items := by simp [hsplit]
      exact absurd (hstorable t (mem_missing.1 hmem).1) fault.not_storable
    | room => exact ⟨.here ⟨hfull, rfl⟩, rfl⟩

/-- A class that is added behind other items: its name comes first, then the room for all. -/
theorem Sound.reports_class (h : pool.Sound) (hys : absorb ys pool.items = (.ok (), held))
    (name : String) :
    Reports [TextFault name, pool.NoRoom (ys ++ (Item.classInfo name).parts)]
      (absorb (Item.classInfo name).parts held).1 := by
  by_cases hname : Storable name
  · have htexts := ((h.absorb_ok_iff _).1 (by rw [hys])).1
    have hroom : Reports [pool.NoRoom (ys ++ (Item.classInfo name).parts)]
        (absorb (ys ++ (Item.classInfo name).parts) pool.items).1 := by
      apply h.reports_absorb
      intro text htext
      rcases List.mem_append.1 htext with htext | htext
      · exact htexts text htext
      · obtain rfl : text = name := by simpa [Item.parts] using htext
        exact hname
    rw [absorb_append, hys] at hroom
    have hpassed : Reports [TextFault name] (.ok () : Except Error Unit) :=
      List.forall_mem_singleton.2 fun cause fault => fault.not_storable hname
    exact hpassed.append (by simp) fun _ _ => hroom
  · have hchecked := absorb_checked h.checked ys
    rw [hys] at hchecked
    have hnew : Item.utf8 name ∉ held := fun hmem => hname (checkText_eq_ok.1 (hchecked _ hmem))
    obtain ⟨hadmitted, -⟩ | ⟨cause, hrefused, herror⟩ :=
      absorb_cons_of_notMem hnew [Item.classInfo name]
    · exact absurd ((Item.not_refused_iff.1 hadmitted).1 name rfl) hname
    · rw [show (Item.classInfo name).parts = [.utf8 name, .classInfo name] from rfl, herror]
      cases hrefused with
      | text fault => exact ⟨.here fault, rfl⟩
      | room storable => exact absurd (storable name rfl) hname

/-- Two classes, one after the other. -/
theorem Sound.reports_classes (h : pool.Sound) (name name' : String) :
    Reports [TextFault name, pool.NoRoom (Item.classInfo name).parts, TextFault name',
        pool.NoRoom ((Item.classInfo name).parts ++ (Item.classInfo name').parts)]
      (absorb ((Item.classInfo name).parts ++ (Item.classInfo name').parts) pool.items).1 := by
  have hnil : absorb [] pool.items = (.ok (), pool.items) := rfl
  have hfirst := h.reports_class hnil name
  rcases hown : absorb (Item.classInfo name).parts pool.items with ⟨r, held⟩
  rw [hown] at hfirst
  rw [absorb_append, hown]
  refine hfirst.append (by rintro e rfl; rfl) ?_
  rintro _ rfl
  exact h.reports_class hown name'

end Pool

end Jvm

namespace Program

/-- What can be wrong with a program and the names of its class, in the order in which it is looked
at. -/
def checks (p : Program) (names : Naming) : List (Cause → Prop) :=
  let own := (Item.classInfo names.className).parts
  let both := own ++ (Item.classInfo names.superName).parts
  [fun cause => names.className = "" ∧ cause = .unencodable .emptyClassName,
    TextFault names.className, p.pool.NoRoom own,
    TextFault names.superName, p.pool.NoRoom both,
    Jvm.Exceeds p.body.peak .stackDepth, Jvm.Exceeds p.body.encode.length .codeLength,
    p.pool.NoRoom names.parts]

theorem storable_mainTexts {text : String}
    (h : Item.utf8 text ∈ [.utf8 "main", .utf8 "([Ljava/lang/String;)V", .utf8 "Code"]) :
    Storable text := by
  simp only [List.mem_cons, List.not_mem_nil, Item.utf8.injEq, or_false] at h
  rcases h with rfl | rfl | rfl <;> decide

theorem reports_declare {a : Assembly} (h : a.pool.Sound) (names : Naming) :
    Reports (checks ⟨a.pool, a.body⟩ names) (declare names a).1 := by
  apply Reports.of_map (f := fun _ => ())
  rw [declare_result names h.valid]
  by_cases hempty : names.className.isEmpty = true
  · rw [if_pos hempty]
    exact ⟨.here ⟨String.isEmpty_iff.1 hempty, rfl⟩, rfl⟩
  · rw [if_neg hempty]
    have hnamed : Reports [fun cause => names.className = "" ∧
        cause = .unencodable .emptyClassName] (.ok () : Except Error Unit) :=
      List.forall_mem_singleton.2 fun cause h => hempty (String.isEmpty_iff.2 h.1)
    refine hnamed.append (by simp) fun _ _ => ?_
    have hclasses := h.reports_classes names.className names.superName
    rcases hboth : absorb ((Item.classInfo names.className).parts ++
      (Item.classInfo names.superName).parts) a.pool.items with ⟨r, held⟩
    rw [hboth] at hclasses
    refine hclasses.append (by rintro e rfl; rfl) ?_
    rintro ⟨⟩ rfl
    refine (CodeAttribute.reports_ofBody a.body mainLocals).append ?_ ?_
    · intro e he
      simp only [he, Except.bind]
    · intro code hcode
      have hmethod := h.reports_absorb names.parts fun text htext => by
        rw [Naming.parts, ← List.append_assoc, List.mem_append] at htext
        rcases htext with htext | htext
        · exact ((h.absorb_ok_iff _).1 (by rw [hboth])).1 text htext
        · exact storable_mainTexts htext
      rw [Naming.parts, ← List.append_assoc, Jvm.absorb_append, hboth, List.append_assoc] at hmethod
      simp only [hcode, Except.bind]
      exact hmethod

theorem reports_classFile {p : Program} (h : p.pool.Sound) (names : Naming) :
    Reports (p.checks names) (p.classFile names) := by
  have hreports := reports_declare (a := { pool := p.pool, body := p.body }) h names
  rcases hdeclare : declare names { pool := p.pool, body := p.body } with ⟨e | c, a'⟩ <;>
    rw [hdeclare] at hreports
  · rw [classFile, assemble, package_eq, Jvm.bind_apply, hdeclare]
    exact hreports
  · obtain ⟨bytes, a₁, -, hpackage⟩ := package_of_declare hdeclare h
    rw [classFile, assemble, hpackage]
    exact hreports

theorem width_of_mem_parts {names : Naming} {x : Item} (h : x ∈ names.parts) : x.width = 1 := by
  simp only [Naming.parts, Item.parts, List.cons_append, List.nil_append, List.mem_cons,
    List.not_mem_nil, or_false] at h
  rcases h with rfl | rfl | rfl | rfl | rfl | rfl | rfl <;> rfl

/-- Room for all names of a class is room for the first of them. -/
theorem passes_checks_iff {p : Program} {names : Naming} :
    (∀ check ∈ p.checks names, ∀ cause, ¬check cause) ↔
      names.className ≠ "" ∧ Storable names.className ∧ Storable names.superName ∧
        p.body.peak ≤ 65535 ∧ p.body.encode.length ≤ 65535 ∧
        p.pool.size + (missing names.parts p.pool.items).length ≤ 65534 := by
  have hlength : totalWidth (missing names.parts p.pool.items) =
      (missing names.parts p.pool.items).length :=
    Pool.totalWidth_eq_length fun x hx => width_of_mem_parts (Jvm.mem_missing.1 hx).1
  have hempty : (∀ cause, ¬(names.className = "" ∧ cause = Cause.unencodable .emptyClassName)) ↔
      names.className ≠ "" := by simp
  simp only [checks, List.forall_mem_cons, List.not_mem_nil, IsEmpty.forall_iff,
    implies_true, and_true, hempty, Jvm.forall_not_textFault, Pool.not_noRoom_iff,
    Jvm.not_exceeds_iff, hlength]
  constructor
  · rintro ⟨hnamed, hname, -, hsuper, -, hpeak, hcode, hroom⟩
    exact ⟨hnamed, hname, hsuper, hpeak, hcode, hroom⟩
  · rintro ⟨hnamed, hname, hsuper, hpeak, hcode, hroom⟩
    have hall : ∀ cause, ¬p.pool.NoRoom names.parts cause := by
      rwa [Pool.not_noRoom_iff, hlength]
    refine ⟨hnamed, hname, ?_, hsuper, ?_, hpeak, hcode, hroom⟩
    · exact Pool.not_noRoom_iff.1 fun cause hfull => hall cause hfull.append
    · rw [Naming.parts, ← List.append_assoc] at hall
      exact Pool.not_noRoom_iff.1 fun cause hfull => hall cause hfull.append

end Program

namespace Compiler

variable {source : List Char} {p : Program}

/-- A program becomes a class file if and only if the name of its class is not empty, both names can
be encoded, its code keeps the limits of a method, and there is room for the constants of the class
that the program does not have, each counted once. Otherwise the error is that of the first check
that is violated, and has no place. A class that is declared is always encoded. -/
theorem compile_classFile_limits (h : (compile source).1 = .ok p) (names : Naming) :
    ((∃ bytes, p.classFile names = .ok bytes) ↔
      names.className ≠ "" ∧ Storable names.className ∧ Storable names.superName ∧
        p.body.peak ≤ 65535 ∧ p.body.encode.length ≤ 65535 ∧
        p.pool.size + (missing names.parts p.pool.items).length ≤ 65534) ∧
    (∀ e, p.classFile names = .error e → FirstFault (p.checks names) e.cause ∧ e.location = none) ∧
    ∀ c a, Program.declare names { pool := p.pool, body := p.body } = (.ok c, a) →
      ∃ bytes, c.encode a.pool = .ok bytes ∧ p.classFile names = .ok bytes := by
  have hsound := sound_of_compile h
  have hreports := Program.reports_classFile hsound names
  refine ⟨hreports.ok_iff.trans Program.passes_checks_iff, ?_, ?_⟩
  · intro e he
    rw [he] at hreports
    exact hreports
  · intro c a hdeclare
    obtain ⟨bytes, a₁, hencode, hpackage⟩ := Program.package_of_declare hdeclare hsound
    exact ⟨bytes, hencode, by rw [Program.classFile, Program.assemble, hpackage]⟩

/-- With the default names there is a class file. A letter that is not ASCII in the name of the class
is found before the fault in the other name. -/
theorem compile_classFile_limits_print_sum :
    ∃ p, (compile "(print \"a\" (+ 1 2))".toList).1 = .ok p ∧
      (∃ bytes, p.classFile {} = .ok bytes) ∧
      p.classFile { className := "é", superName := "ü" } =
        .error { cause := .unencodable (.notAscii 'é' "é") } := by
  obtain ⟨p, a, hcompile⟩ := exists_compile_print_sum
  obtain ⟨rfl, es, hspelled, -, hholds⟩ := compile_sound hcompile
  obtain rfl := hspelled.unique spelled_print_sum
  have h : (compile "(print \"a\" (+ 1 2))".toList).1 = .ok ⟨a.pool, a.body⟩ := by rw [hcompile]
  have hitems : a.pool.items = (absorb ((Expr.program _).flatMap Emission.parts) []).2 :=
    (congrArg Prod.snd hholds.absorbs).symm
  have hpeak : a.body.peak ≤ 65535 := hholds.peak_le.trans (by decide)
  have hlength : a.body.encode.length ≤ 65535 := hholds.encode_length_le.trans (by decide)
  have hroom : a.pool.size + (missing ({} : Naming).parts a.pool.items).length ≤ 65534 := by
    rw [hholds.valid.size_eq, hitems]
    decide
  refine ⟨_, h, ?_, ?_⟩
  · exact (compile_classFile_limits h {}).1.2
      ⟨by decide, by decide, by decide, hpeak, hlength, hroom⟩
  · obtain ⟨hok, herror, -⟩ := compile_classFile_limits h { className := "é", superName := "ü" }
    rcases hfile : Program.classFile ⟨a.pool, a.body⟩ { className := "é", superName := "ü" } with
      e | bytes
    · obtain ⟨hfirst, hplace⟩ := herror e hfile
      have hfault : TextFault "é" e.cause := by
        rcases hfirst with hempty | ⟨-, hname | ⟨hpassed, -⟩⟩
        · simp at hempty
        · exact hname
        · exact absurd (Jvm.forall_not_textFault.1 hpassed) (by decide)
      have hcheck : Pool.checkText "é" = .error { cause := .unencodable (.notAscii 'é' "é") } := by
        decide
      rcases e with ⟨cause, place⟩
      obtain rfl : place = none := hplace
      rw [← Except.error.inj (hfault.checkText.symm.trans hcheck)]
    · exact absurd (hok.1 ⟨bytes, hfile⟩).2.1 (by decide)

end Compiler

end JvmLisp
