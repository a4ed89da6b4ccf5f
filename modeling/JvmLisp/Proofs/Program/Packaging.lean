import JvmLisp.Program.Packaging
import JvmLisp.Proofs.Jvm.Decoding
import JvmLisp.Proofs.Program.Verification

/-! # Packaging

The class of a program has the code of the program in its one method. The names that are added for
the class leave the constants of the code where they are, so the code means in the class file what
it meant when it was emitted. A program is packaged if the names can be absorbed and the code keeps
the limits of a method; once its class is declared, nothing can fail.
-/

namespace JvmLisp

open Jvm (CodeAttribute Item Lookup Pool absorb)

namespace Jvm

variable {pool pool' : Pool} {α β : Type}

/-! ### Declarations -/

namespace Pool

/-- An operation that adds items to a pool as `absorb` adds them to a list. -/
structure Absorbs (pool : Pool) (outcome : Except Error α × Pool) (parts : List Item) : Prop where
  valid : outcome.2.Valid
  absorbs : absorb parts pool.items = (outcome.1.map fun _ => (), outcome.2.items)

theorem absorbs_pure (h : pool.Valid) (x : α) : pool.Absorbs ((pure x : Interning α) pool) [] :=
  ⟨h, rfl⟩

theorem Absorbs.bind {m : Interning α} {k : α → Interning β} {parts parts' : List Item}
    (h : pool.Absorbs (m pool) parts)
    (h' : ∀ x (pool' : Pool), pool'.Valid → pool'.Absorbs (k x pool') parts') :
    pool.Absorbs ((m >>= k) pool) (parts ++ parts') := by
  obtain ⟨valid, absorbs⟩ := h
  rw [bind_apply]
  rcases hm : m pool with ⟨e | x, pool₁⟩ <;> rw [hm] at valid absorbs
  · exact ⟨valid, by rw [absorb_append, absorbs]; rfl⟩
  · have hk := h' x pool₁ valid
    exact ⟨hk.valid, by rw [absorb_append, absorbs]; exact hk.absorbs⟩

theorem absorbs_internText (h : pool.Valid) (text : String) :
    pool.Absorbs (internText text pool) [.utf8 text] :=
  have hsim := simulates_internText h text
  ⟨hsim.valid, hsim.absorbs⟩

theorem absorbs_internClass (h : pool.Valid) (name : String) :
    pool.Absorbs (internClass name pool) (Item.classInfo name).parts :=
  have hsim := simulates_internClass h name
  ⟨hsim.valid, hsim.absorbs⟩

end Pool

theorem Class.absorbs_declare (h : pool.Valid) (name superName : String) :
    pool.Absorbs (declare name superName pool)
      ((Item.classInfo name).parts ++ (Item.classInfo superName).parts) := by
  apply (Pool.absorbs_internClass h name).bind
  intro i pool₁ h₁
  rw [← List.append_nil (Item.classInfo superName).parts]
  apply (Pool.absorbs_internClass h₁ superName).bind
  intro j pool₂ h₂
  exact Pool.absorbs_pure h₂ _

theorem Method.absorbs_declare (h : pool.Valid) (flags : UInt16) (name : String) (type : MethodType)
    (code : CodeAttribute) :
    pool.Absorbs (declare flags name type code pool)
      [.utf8 name, .utf8 type.text, .utf8 "Code"] := by
  apply (Pool.absorbs_internText h name).bind
  intro i pool₁ h₁
  apply (Pool.absorbs_internText h₁ type.text).bind
  intro j pool₂ h₂
  apply (Pool.absorbs_internText h₂ "Code").bind
  intro k pool₃ h₃
  exact Pool.absorbs_pure h₃ _

/-- The indices of a class that is declared lead to its names. -/
theorem Class.declare_eq_ok {name superName : String} {c : Class} (h : pool.Sound)
    (hdeclare : declare name superName pool = (.ok c, pool')) :
    pool'.Sound ∧ pool.Extends pool' ∧ c.methods = #[] ∧
      Lookup.className? pool'.get? c.thisClass = some name ∧
      Lookup.className? pool'.get? c.superClass = some superName := by
  obtain ⟨i, pool₁, hname, hdeclare⟩ := bind_eq_ok.1 hdeclare
  obtain ⟨j, pool₂, hsuper, hdeclare⟩ := bind_eq_ok.1 hdeclare
  cases hdeclare
  obtain ⟨h₁, hgrows₁, hi⟩ := h.internClass hname
  obtain ⟨h₂, hgrows₂, hj⟩ := h₁.internClass hsuper
  exact ⟨h₂, hgrows₁.trans hgrows₂, rfl, hgrows₂.sub.className? hi, hj⟩

/-- The indices of a method that is declared lead to its names. -/
theorem Method.declare_eq_ok {flags : UInt16} {name : String} {type : MethodType}
    {code : CodeAttribute} {m : Method} (h : pool.Sound)
    (hdeclare : declare flags name type code pool = (.ok m, pool')) :
    pool'.Sound ∧ pool.Extends pool' ∧ m.code = code ∧
      Lookup.text? pool'.get? m.name = some name ∧
      Lookup.text? pool'.get? m.descriptor = some type.text ∧
      Lookup.text? pool'.get? m.codeName = some "Code" := by
  obtain ⟨i, pool₁, hname, hdeclare⟩ := bind_eq_ok.1 hdeclare
  obtain ⟨j, pool₂, hdescriptor, hdeclare⟩ := bind_eq_ok.1 hdeclare
  obtain ⟨k, pool₃, hcodeName, hdeclare⟩ := bind_eq_ok.1 hdeclare
  cases hdeclare
  obtain ⟨h₁, hgrows₁, hi⟩ := h.internText hname
  obtain ⟨h₂, hgrows₂, hj⟩ := h₁.internText hdescriptor
  obtain ⟨h₃, hgrows₃, hk⟩ := h₂.internText hcodeName
  exact ⟨h₃, hgrows₁.trans (hgrows₂.trans hgrows₃), rfl,
    (hgrows₂.trans hgrows₃).sub.text? hi, hgrows₃.sub.text? hj, hk⟩

theorem CodeAttribute.ofBody_eq_ok {body : Body} {maxLocals : UInt16} {code : CodeAttribute} :
    ofBody body maxLocals = .ok code ↔ body.peak ≤ 65535 ∧ body.encode.length ≤ 65535 ∧
      code = ⟨UInt16.ofNat body.peak, maxLocals, body.encode⟩ := by
  simp only [ofBody]
  by_cases hpeak : body.peak > 65535
  · simp [hpeak]
  · by_cases hlength : body.encode.length > 65535
    · simp [hpeak, hlength]
    · rw [if_neg hpeak, if_neg hlength, Except.ok.injEq, eq_comm]
      simp [Nat.not_lt.1 hpeak, Nat.not_lt.1 hlength]

end Jvm

namespace Build

variable {α : Type} {a a' : Assembly}

theorem interning_eq_ok {step : Jvm.Interning α} {x : α} (h : interning step a = (.ok x, a')) :
    step a.pool = (.ok x, a'.pool) ∧ a'.body = a.body := by
  obtain ⟨a₁, hstep, hpool, hbody, -⟩ := interning_apply step a
  obtain ⟨hx, rfl⟩ := Prod.mk.inj (hstep.symm.trans h)
  exact ⟨Prod.ext hx hpool.symm, hbody⟩

theorem liftExcept_apply (m : Except Error α) (a : Assembly) :
    (liftExcept m : Build α) a = (m, a) := by
  cases m <;> rfl

theorem liftExcept_eq_ok {m : Except Error α} {x : α}
    (h : (liftExcept m : Build α) a = (.ok x, a')) : m = .ok x ∧ a = a' := by
  rw [liftExcept_apply] at h
  exact Prod.mk.inj h

theorem encodeClass_eq_ok {c : Jvm.Class} {bytes : List UInt8}
    (h : encodeClass c a = (.ok bytes, a')) : c.encode a.pool = .ok bytes := by
  obtain ⟨_, _, hget, h⟩ := Jvm.bind_eq_ok.1 h
  cases hget
  obtain ⟨bytes', _, hencode, h⟩ := Jvm.bind_eq_ok.1 h
  obtain ⟨_, _, hnote, h⟩ := Jvm.bind_eq_ok.1 h
  cases h
  exact (liftExcept_eq_ok hencode).1

theorem exists_encodeClass {c : Jvm.Class} {bytes : List UInt8}
    (h : c.encode a.pool = .ok bytes) : ∃ a', encodeClass c a = (.ok bytes, a') := by
  refine ⟨_, Jvm.bind_eq_ok.2 ⟨a, a, rfl, Jvm.bind_eq_ok.2 ⟨bytes, a, ?_, rfl⟩⟩⟩
  rw [h]
  rfl

end Build

/-! ### The class of a program -/

/-- A class holds a body as its one method `main`, and its names, in a pool that has grown. -/
structure Jvm.Class.Holds (c : Jvm.Class) (pool pool' : Pool) (body : Jvm.Body) (names : Naming)
    (main : Jvm.Method) : Prop where
  sound : pool'.Sound
  grows : pool.Extends pool'
  thisClass : Lookup.className? pool'.get? c.thisClass = some names.className
  superClass : Lookup.className? pool'.get? c.superClass = some names.superName
  methods : c.methods = #[main]
  code : main.code = ⟨UInt16.ofNat body.peak, mainLocals, body.encode⟩
  peak : body.peak ≤ 65535
  length : body.encode.length ≤ 65535
  name : Lookup.text? pool'.get? main.name = some "main"
  descriptor : Lookup.text? pool'.get? main.descriptor = some "([Ljava/lang/String;)V"
  codeName : Lookup.text? pool'.get? main.codeName = some "Code"

/-- The constants that a class needs for itself and its method `main`. -/
def Naming.parts (names : Naming) : List Jvm.Item :=
  (Jvm.Item.classInfo names.className).parts ++ ((Jvm.Item.classInfo names.superName).parts ++
    [.utf8 "main", .utf8 "([Ljava/lang/String;)V", .utf8 "Code"])

namespace Program

variable {names : Naming} {a a' : Assembly} {c : Jvm.Class}

/-- Declares the class of a program, which is then encoded. -/
def declare (names : Naming) : Build Jvm.Class := do
  if names.className.isEmpty then
    throw { cause := .unencodable .emptyClassName }
  let c ← Build.interning (Jvm.Class.declare names.className names.superName)
  let code ← liftExcept (CodeAttribute.ofBody (← get).body mainLocals)
  let main ← Build.interning (Jvm.Method.declare mainFlags "main" mainType code)
  return c.addMethod main

theorem package_eq (names : Naming) : package names = declare names >>= Build.encodeClass := by
  rw [package, declare]
  by_cases hempty : names.className.isEmpty = true
  · rw [if_pos hempty, if_pos hempty]
    rfl
  · rw [if_neg hempty, if_neg hempty]
    simp

theorem text_mainType : mainType.text = "([Ljava/lang/String;)V" := by
  decide

theorem declare_eq_ok (hdeclare : declare names a = (.ok c, a')) (h : a.pool.Sound) :
    ∃ main, c.Holds a.pool a'.pool a.body names main := by
  rw [declare] at hdeclare
  by_cases hempty : names.className.isEmpty = true
  · rw [if_pos hempty] at hdeclare
    cases hdeclare
  · rw [if_neg hempty] at hdeclare
    obtain ⟨c₁, a₁, hclass, hdeclare⟩ := Jvm.bind_eq_ok.1 hdeclare
    obtain ⟨_, _, hget, hdeclare⟩ := Jvm.bind_eq_ok.1 hdeclare
    cases hget
    obtain ⟨code, a₂, hcode, hdeclare⟩ := Jvm.bind_eq_ok.1 hdeclare
    obtain ⟨main, a₃, hmain, hdeclare⟩ := Jvm.bind_eq_ok.1 hdeclare
    cases hdeclare
    obtain ⟨hclass, hbody⟩ := Build.interning_eq_ok hclass
    obtain ⟨hofBody, rfl⟩ := Build.liftExcept_eq_ok hcode
    obtain ⟨hmain, -⟩ := Build.interning_eq_ok hmain
    obtain ⟨h₁, hgrows₁, hmethods, hthis, hsuper⟩ := Jvm.Class.declare_eq_ok h hclass
    obtain ⟨h₂, hgrows₂, rfl, hname, hdescriptor, hcodeName⟩ := Jvm.Method.declare_eq_ok h₁ hmain
    rw [hbody] at hofBody
    obtain ⟨hpeak, hlength, hcode⟩ := CodeAttribute.ofBody_eq_ok.1 hofBody
    exact ⟨main, h₂, hgrows₁.trans hgrows₂, hgrows₂.sub.className? hthis,
      hgrows₂.sub.className? hsuper, by simp [Jvm.Class.addMethod, hmethods], hcode, hpeak, hlength,
      hname, text_mainType ▸ hdescriptor, hcodeName⟩

/-- What stops a declaration: an empty name, then the names of the class, then the limits of the
code, then the names of the method. -/
theorem declare_result (names : Naming) (h : a.pool.Valid) :
    (declare names a).1.map (fun _ => ()) =
      if names.className.isEmpty then .error { cause := .unencodable .emptyClassName }
      else match absorb ((Item.classInfo names.className).parts ++
          (Item.classInfo names.superName).parts) a.pool.items with
        | (.error e, _) => .error e
        | (.ok (), held) => (CodeAttribute.ofBody a.body mainLocals).bind fun _ =>
          (absorb [.utf8 "main", .utf8 "([Ljava/lang/String;)V", .utf8 "Code"] held).1 := by
  rw [declare]
  by_cases hempty : names.className.isEmpty = true
  · rw [if_pos hempty, if_pos hempty]
    rfl
  · have hget (a : Assembly) : (get : Build Assembly) a = (.ok a, a) := rfl
    rw [if_neg hempty, if_neg hempty]
    obtain ⟨a₁, hclass, hpool, hbody, -⟩ :=
      Build.interning_apply (Jvm.Class.declare names.className names.superName) a
    obtain ⟨hvalid, habsorbs⟩ := Jvm.Class.absorbs_declare h names.className names.superName
    simp only [Jvm.bind_apply, hclass, habsorbs, hget, Build.liftExcept_apply]
    cases (Jvm.Class.declare names.className names.superName a.pool).1 with
    | error e => rfl
    | ok c =>
      rw [← hpool] at hvalid
      simp only [Except.map, hbody]
      cases CodeAttribute.ofBody a.body mainLocals with
      | error e => rfl
      | ok code =>
        obtain ⟨a₂, hmain, -⟩ :=
          Build.interning_apply (Jvm.Method.declare mainFlags "main" mainType code) a₁
        have habsorbs' := (Jvm.Method.absorbs_declare hvalid mainFlags "main" mainType code).absorbs
        rw [text_mainType] at habsorbs'
        simp only [hmain, ← hpool, habsorbs', Except.bind]
        cases (Jvm.Method.declare mainFlags "main" mainType code a₁.pool).1 <;> rfl

/-- A declared class is encoded. -/
theorem package_of_declare (hdeclare : declare names a = (.ok c, a')) (h : a.pool.Sound) :
    ∃ bytes a₁, c.encode a'.pool = .ok bytes ∧ package names a = (.ok bytes, a₁) := by
  obtain ⟨main, hholds⟩ := declare_eq_ok hdeclare h
  obtain ⟨bytes, hbytes⟩ : ∃ bytes, c.encode a'.pool = .ok bytes := by
    apply Jvm.Class.exists_encode hholds.sound
    · simp [hholds.methods]
    · simpa [hholds.methods, hholds.code] using hholds.length
  obtain ⟨a₁, hencode⟩ := Build.exists_encodeClass hbytes
  rw [package_eq]
  exact ⟨bytes, a₁, hbytes, Jvm.bind_eq_ok.2 ⟨c, a', hdeclare, hencode⟩⟩

/-- What a class file that is packaged consists of. -/
theorem package_eq_ok {bytes : List UInt8}
    (hpackage : package names a = (.ok bytes, a')) (h : a.pool.Sound) :
    ∃ pool c main, pool.Sound ∧ a.pool.Extends pool ∧ Jvm.Class.encode c pool = .ok bytes ∧
      c.methods = #[main] ∧ main.code.code = a.body.encode ∧ main.code.code.length < 2 ^ 32 ∧
      Lookup.text? pool.get? main.name = some "main" ∧
      Lookup.text? pool.get? main.descriptor = some "([Ljava/lang/String;)V" ∧
      Lookup.text? pool.get? main.codeName = some "Code" := by
  rw [package_eq] at hpackage
  obtain ⟨c, a₁, hdeclare, hencode⟩ := Jvm.bind_eq_ok.1 hpackage
  obtain ⟨main, hholds⟩ := declare_eq_ok hdeclare h
  have hcode : main.code.code = a.body.encode := by rw [hholds.code]
  have hlength := hholds.length
  exact ⟨a₁.pool, c, main, hholds.sound, hholds.grows, Build.encodeClass_eq_ok hencode,
    hholds.methods, hcode, by rw [hcode]; omega, hholds.name, hholds.descriptor, hholds.codeName⟩

theorem exists_package (hname : names.className.isEmpty = false) (h : a.pool.Sound)
    (habsorb : (absorb names.parts a.pool.items).1 = .ok ()) (hpeak : a.body.peak ≤ 65535)
    (hlength : a.body.encode.length ≤ 65535) : ∃ bytes a', package names a = (.ok bytes, a') := by
  have hresult := declare_result names h.valid
  rw [Naming.parts, ← List.append_assoc] at habsorb
  obtain ⟨held, hclass, hmethod⟩ := Jvm.absorb_append_ok.1 habsorb
  have hcode : CodeAttribute.ofBody a.body mainLocals = .ok _ :=
    CodeAttribute.ofBody_eq_ok.2 ⟨hpeak, hlength, rfl⟩
  rw [if_neg (by simp [hname]), hclass, hcode] at hresult
  rcases hdeclare : declare names a with ⟨e | c, a'⟩
  · simp [hdeclare, Except.map, Except.bind, hmethod] at hresult
  · obtain ⟨bytes, a₁, -, hpackage⟩ := package_of_declare hdeclare h
    exact ⟨bytes, a₁, hpackage⟩

end Program

/-- A program of moderate size has a class file if its constants and those of its class fit
together. -/
theorem Compiler.exists_classFile {source : List Char} {p : Program} {es : List Expr}
    (names : Naming) (h : (compile source).1 = .ok p) (hspelled : SpelledProgram es source)
    (hname : names.className.isEmpty = false)
    (habsorb : (absorb ((Expr.program es).flatMap Emission.parts ++ names.parts) []).1 = .ok ())
    (hlength : 3 * (Expr.program es).length ≤ 65535) : ∃ bytes, p.classFile names = .ok bytes := by
  obtain ⟨a, hcompile⟩ : ∃ a, compile source = (.ok p, a) := ⟨_, Prod.ext h rfl⟩
  obtain ⟨rfl, es', hspelled', -, hholds⟩ := compile_sound hcompile
  obtain rfl := hspelled'.unique hspelled
  obtain ⟨held, hheld, habsorb⟩ := Jvm.absorb_append_ok.1 habsorb
  obtain ⟨-, rfl⟩ := Prod.mk.inj (hholds.absorbs.symm.trans hheld)
  have hpeak : a.body.peak ≤ 65535 := by
    have hle := hholds.peak_le
    omega
  have hcode : a.body.encode.length ≤ 65535 := hholds.encode_length_le.trans hlength
  obtain ⟨bytes, a', hpackage⟩ := Program.exists_package
    (a := { pool := a.pool, body := a.body }) hname hholds.sound habsorb hpeak hcode
  exact ⟨bytes, by rw [Program.classFile, Program.assemble, hpackage]⟩

end JvmLisp
