import JvmLisp.Program.Form
import JvmLisp.Proofs.Jvm.Operation
import JvmLisp.Proofs.Pool.Capacity

/-! # Emissions

All that is done to a class under construction is to perform one emission after another: to intern
the constant of an operation, then to append its instruction with the effect that is stated for it.
`Assembly.Holds` says what the performed emissions leave behind. Performing succeeds exactly if the
constants can be absorbed and the depth of the stack stays in its bounds.
-/

namespace JvmLisp

open Jvm (Instruction Item Operation Pool absorb)

/-- An operation with its stated effect on the stack. -/
structure Emission where
  operation : Operation
  effect : Int
deriving DecidableEq

namespace Emission

/-- The constants that performing the emission adds, as far as they are new. -/
def parts (e : Emission) : List Item :=
  match e.operation.item? with
  | some x => x.parts
  | none => []

/-- The depth of the stack after emissions, by their stated effects. -/
def depth (es : List Emission) : Int :=
  (es.map effect).sum

@[simp] theorem depth_nil : depth [] = 0 := rfl

@[simp] theorem depth_append (es es' : List Emission) :
    depth (es ++ es') = depth es + depth es' := by
  simp [depth]

@[simp] theorem depth_cons (e : Emission) (es : List Emission) :
    depth (e :: es) = e.effect + depth es := by
  simp [depth]

/-- An instruction with its effect says the same as the emission, given a table of constants. -/
def Reads (get : Jvm.Lookup) (e : Emission) (p : Instruction × Int) : Prop :=
  p.1.operation? get = some e.operation ∧ p.2 = e.effect

theorem Reads.mono {get get' : Jvm.Lookup} (h : get.Sub get') {e : Emission}
    {p : Instruction × Int} (hp : e.Reads get p) : e.Reads get' p :=
  ⟨Instruction.operation?_mono h hp.1, hp.2⟩

/-- Of emissions that end in a known one, the instruction for it comes last. -/
theorem exists_of_reads_concat {get : Jvm.Lookup} {ps : List (Instruction × Int)}
    {es : List Emission} {e : Emission}
    (h : List.Forall₂ (fun p (e : Emission) => e.Reads get p) ps (es ++ [e])) :
    ∃ ps₁ p, ps = ps₁ ++ [p] ∧ e.Reads get p ∧
      List.Forall₂ (fun p (e : Emission) => e.Reads get p) ps₁ es := by
  induction es generalizing ps with
  | nil =>
    rcases h with _ | ⟨hp, ⟨⟩⟩
    exact ⟨[], _, rfl, hp, .nil⟩
  | cons e' es ih =>
    rcases h with _ | ⟨hp, h⟩
    obtain ⟨ps₁, p, rfl, hp', h⟩ := ih h
    exact ⟨_ :: ps₁, p, rfl, hp', .cons hp h⟩

end Emission

def Event.emission? : Event → Option (Instruction × Int)
  | .emitted i effect _ => some (i, effect)
  | _ => none

/-- The instructions that were emitted, with their stated effects, as the journal has them. -/
def Assembly.emitted (a : Assembly) : List (Instruction × Int) :=
  a.journal.toList.filterMap Event.emission?

namespace Build

/-- Interns the constant of an operation, if it has one. -/
def locate (op : Operation) : Build UInt16 :=
  match op.item? with
  | some x => intern x
  | none => pure 0

def perform (e : Emission) : Build Unit := do
  let i ← locate e.operation
  emit (e.operation.instruction i) e.effect

def performAll : List Emission → Build Unit
  | [] => pure ()
  | e :: es => do
    perform e
    performAll es

variable {a a' : Assembly}

theorem performAll_cons_ok {e : Emission} {es : List Emission} :
    performAll (e :: es) a = (.ok (), a') ↔
      ∃ a₁, perform e a = (.ok (), a₁) ∧ performAll es a₁ = (.ok (), a') := by
  rw [performAll, Jvm.bind_eq_ok]
  constructor
  · rintro ⟨_, a₁, h⟩
    exact ⟨a₁, h⟩
  · rintro ⟨a₁, h⟩
    exact ⟨(), a₁, h⟩

theorem performAll_append (es es' : List Emission) :
    performAll (es ++ es') = (do performAll es; performAll es') := by
  induction es with
  | nil => simp [performAll]
  | cons e es ih => simp [performAll, ih]

theorem performAll_append_ok {es es' : List Emission} :
    performAll (es ++ es') a = (.ok (), a') ↔
      ∃ a₁, performAll es a = (.ok (), a₁) ∧ performAll es' a₁ = (.ok (), a') := by
  rw [performAll_append, Jvm.bind_eq_ok]
  constructor
  · rintro ⟨_, a₁, h⟩
    exact ⟨a₁, h⟩
  · rintro ⟨a₁, h⟩
    exact ⟨(), a₁, h⟩

/-- Interning changes the pool only, apart from what the journal notes about constants. -/
theorem interning_apply {α : Type} (step : Jvm.Interning α) (a : Assembly) :
    ∃ a', interning step a = ((step a.pool).1, a') ∧ a'.pool = (step a.pool).2 ∧
      a'.body = a.body ∧ a'.emitted = a.emitted := by
  refine ⟨_, rfl, rfl, rfl, ?_⟩
  simp [Assembly.emitted, List.filterMap_map, List.filterMap_eq_nil_iff, Event.emission?]

theorem emit_apply (i : Instruction) (effect : Int) (a : Assembly)
    (h : 0 ≤ a.body.depth + effect ∧ a.body.depth + effect < Jvm.Body.depthBound) :
    ∃ a', emit i effect a = (.ok (), a') ∧ a'.pool = a.pool ∧
      a'.body = a.body.append i (a.body.depth + effect).toNat ∧
      a'.emitted = a.emitted ++ [(i, effect)] := by
  refine ⟨⟨a.pool, a.body.append i (a.body.depth + effect).toNat,
    a.journal.push (.emitted i effect (a.body.depth + effect).toNat), a.noted⟩, ?_, rfl, rfl, ?_⟩
  · simp [emit, Jvm.Body.emit, h, Jvm.Body.append]
  · simp [Assembly.emitted, Event.emission?]

theorem emit_ne_ok {i : Instruction} {effect : Int} (a a' : Assembly)
    (h : ¬(0 ≤ a.body.depth + effect ∧ a.body.depth + effect < Jvm.Body.depthBound)) :
    emit i effect a ≠ (.ok (), a') := by
  intro hemit
  have hresult := congrArg Prod.fst hemit
  simp [emit, Jvm.Body.emit, h] at hresult

/-- An operation that is located adds the parts of its constant and leaves the code alone. -/
theorem locate_apply (h : a.pool.Valid) (e : Emission) :
    ∃ result a', locate e.operation a = (result, a') ∧ a'.pool.Valid ∧
      a.pool.Extends a'.pool ∧
      absorb e.parts a.pool.items = (result.map fun _ => (), a'.pool.items) ∧
      a'.body = a.body ∧ a'.emitted = a.emitted ∧
      ∀ i x, result = .ok i → e.operation.item? = some x → a'.pool.resolve i = some x := by
  cases hitem : e.operation.item? with
  | none =>
    refine ⟨.ok 0, a, by rw [locate, hitem]; rfl, h, Pool.Extends.refl _, ?_, rfl, rfl, by simp⟩
    simp [Emission.parts, hitem, absorb, Except.map]
  | some x =>
    obtain ⟨a', hintern, hpool, hbody, hemitted⟩ := interning_apply (Pool.intern x) a
    have hsim := Pool.simulates_intern h x
    refine ⟨_, a', by rw [locate, hitem]; exact hintern, ?_, ?_, ?_, hbody, hemitted, ?_⟩
    · rw [hpool]
      exact hsim.valid
    · rw [hpool]
      exact hsim.grows
    · rw [Emission.parts, hitem, hpool]
      exact hsim.absorbs
    · rintro i y hi hy
      obtain rfl := Option.some.inj hy
      rw [hpool]
      exact hsim.index i hi

end Build

/-- What is there after emissions have been performed, from the start. -/
structure Assembly.Holds (a : Assembly) (es : List Emission) : Prop where
  valid : a.pool.Valid
  absorbs : absorb (es.flatMap Emission.parts) [] = (.ok (), a.pool.items)
  operations : List.Forall₂ (fun p (e : Emission) => e.Reads a.pool.get? p) a.emitted es
  instructions : a.body.instructions.toList = a.emitted.map Prod.fst
  depth : (a.body.depth : Int) = Emission.depth es
  peak : IsGreatest {d | ∃ es', es' <+: es ∧ Emission.depth es' = d} (a.body.peak : Int)

namespace Assembly

variable {a a' : Assembly} {e : Emission} {es es' : List Emission}

theorem holds_empty : ({} : Assembly).Holds [] where
  valid := Pool.valid_empty
  absorbs := rfl
  operations := .nil
  instructions := rfl
  depth := rfl
  peak := by
    constructor
    · exact ⟨[], List.nil_prefix, rfl⟩
    · rintro d ⟨es', h, rfl⟩
      rw [List.prefix_nil.1 h]
      rfl

theorem Holds.congr (h : a.Holds es) (hpool : a'.pool = a.pool) (hbody : a'.body = a.body)
    (hemitted : a'.emitted = a.emitted) : a'.Holds es := by
  obtain ⟨valid, absorbs, operations, instructions, depth, peak⟩ := h
  constructor <;> simpa only [hpool, hbody, hemitted]

theorem Holds.sound (h : a.Holds es) : a.pool.Sound := by
  have hchecked := Jvm.absorb_checked (List.forall_mem_nil _) (es.flatMap Emission.parts)
  rw [h.absorbs] at hchecked
  exact ⟨h.valid, hchecked⟩

/-- The instructions perform the emissions, one for one. -/
theorem Holds.map_operation? (h : a.Holds es) :
    a.body.instructions.toList.map (Instruction.operation? a.pool.get?) =
      es.map fun e => some e.operation := by
  rw [h.instructions, List.map_map, ← List.forall₂_eq_eq_eq, List.forall₂_map_left_iff,
    List.forall₂_map_right_iff]
  exact h.operations.imp fun p e hp => hp.1

theorem Holds.encode_length_le (h : a.Holds es) : a.body.encode.length ≤ 3 * es.length := by
  have hthree (is : List Instruction) : (is.flatMap Instruction.encode).length ≤ 3 * is.length := by
    induction is with
    | nil => simp
    | cons i is ih =>
      have hi := i.length_encode_le
      rw [List.flatMap_cons, List.length_append, List.length_cons]
      omega
  have hlength := h.operations.length_eq
  rw [Jvm.Body.encode, h.instructions]
  simpa [hlength] using hthree (a.emitted.map Prod.fst)

theorem isGreatest_depth_concat {m : Int} (e : Emission)
    (h : IsGreatest {d | ∃ es', es' <+: es ∧ Emission.depth es' = d} m) :
    IsGreatest {d | ∃ es', es' <+: es ++ [e] ∧ Emission.depth es' = d}
      (max m (Emission.depth (es ++ [e]))) := by
  obtain ⟨⟨es₀, hes₀, hm⟩, hmax⟩ := h
  constructor
  · rcases max_choice m (Emission.depth (es ++ [e])) with hmax | hmax
    · exact ⟨es₀, hes₀.trans (List.prefix_append es [e]), by rw [hmax, hm]⟩
    · exact ⟨es ++ [e], List.prefix_rfl, hmax.symm⟩
  · rintro d ⟨es', h, rfl⟩
    rcases List.prefix_concat_iff.1 h with rfl | h
    · exact le_max_right _ _
    · exact le_max_of_le_left (hmax ⟨es', h, rfl⟩)

/-- The constants of one more emission are absorbed after the others. -/
theorem Holds.absorb_concat (h : a.Holds es) (e : Emission) :
    absorb ((es ++ [e]).flatMap Emission.parts) [] = absorb e.parts a.pool.items := by
  rw [List.flatMap_append, Jvm.absorb_append, h.absorbs]
  simp

theorem Holds.perform (h : a.Holds es) (hperform : Build.perform e a = (.ok (), a')) :
    a'.Holds (es ++ [e]) := by
  obtain ⟨i, a₁, hlocate, hemit⟩ := Jvm.bind_eq_ok.1 hperform
  obtain ⟨result, a₁', hlocate', valid, grows, absorbs, hbody, hemitted, hindex⟩ :=
    Build.locate_apply h.valid e
  cases hlocate'.symm.trans hlocate
  have hbounds : 0 ≤ a₁.body.depth + e.effect ∧ a₁.body.depth + e.effect < Jvm.Body.depthBound := by
    by_contra hbounds
    exact Build.emit_ne_ok a₁ a' hbounds hemit
  obtain ⟨a₂, hemit', hpool, hbody', hemitted'⟩ := Build.emit_apply _ _ a₁ hbounds
  cases hemit'.symm.trans hemit
  have hdepth : (a'.body.depth : Int) = Emission.depth (es ++ [e]) := by
    rw [hbody] at hbounds
    rw [hbody', hbody, Emission.depth_append, ← h.depth]
    simp [Jvm.Body.append, hbounds.1]
  refine ⟨hpool ▸ valid, ?_, ?_, ?_, hdepth, ?_⟩
  · rw [h.absorb_concat, absorbs, hpool]
    rfl
  · have hold := h.operations.imp fun p e' h' => h'.mono grows.sub
    have hnew : e.Reads a₁.pool.get? (e.operation.instruction i, e.effect) :=
      ⟨Operation.operation?_instruction fun x hx => hindex i x rfl hx, rfl⟩
    rw [hpool, hemitted', hemitted]
    exact List.rel_append hold (List.Forall₂.cons hnew .nil)
  · simp [hbody', Jvm.Body.append, hbody, h.instructions, hemitted', hemitted]
  · have hpeak : (a'.body.peak : Int) = max (a.body.peak : Int) (Emission.depth (es ++ [e])) := by
      rw [← hdepth, hbody', hbody]
      simp [Jvm.Body.append]
    rw [hpeak]
    exact isGreatest_depth_concat e h.peak

/-- An emission can be performed if its constants can be absorbed and the depth keeps its bounds. -/
theorem Holds.exists_perform (h : a.Holds es)
    (habsorb : (absorb ((es ++ [e]).flatMap Emission.parts) []).1 = .ok ())
    (hdepth : 0 ≤ Emission.depth (es ++ [e]) ∧ Emission.depth (es ++ [e]) < Jvm.Body.depthBound) :
    ∃ a', Build.perform e a = (.ok (), a') := by
  obtain ⟨result, a₁, hlocate, -, -, absorbs, hbody, -, -⟩ := Build.locate_apply h.valid e
  rw [h.absorb_concat, absorbs] at habsorb
  cases result with
  | error => cases habsorb
  | ok i =>
    rw [Emission.depth_append, ← h.depth, ← hbody] at hdepth
    obtain ⟨a', hemit, -⟩ := Build.emit_apply (e.operation.instruction i) e.effect a₁
      (by simpa using hdepth)
    exact ⟨a', Jvm.bind_eq_ok.2 ⟨i, a₁, hlocate, hemit⟩⟩

/-! ### Runs -/

theorem Holds.performAll (h : a.Holds es) (hperform : Build.performAll es' a = (.ok (), a')) :
    a'.Holds (es ++ es') := by
  induction es' generalizing a es with
  | nil =>
    obtain rfl := (Prod.mk.inj hperform).2
    rwa [List.append_nil]
  | cons e es' ih =>
    obtain ⟨a₁, he, hes'⟩ := Build.performAll_cons_ok.1 hperform
    rw [List.append_cons]
    exact ih (h.perform he) hes'

theorem Holds.exists_performAll (h : a.Holds es)
    (habsorb : (absorb ((es ++ es').flatMap Emission.parts) []).1 = .ok ())
    (hdepth : ∀ es₁, es₁ <+: es' →
      0 ≤ Emission.depth (es ++ es₁) ∧ Emission.depth (es ++ es₁) < Jvm.Body.depthBound) :
    ∃ a', Build.performAll es' a = (.ok (), a') := by
  induction es' generalizing a es with
  | nil => exact ⟨a, rfl⟩
  | cons e es' ih =>
    rw [List.append_cons] at habsorb
    have hfirst : (absorb ((es ++ [e]).flatMap Emission.parts) []).1 = .ok () := by
      rw [List.flatMap_append] at habsorb
      obtain ⟨held, hheld, -⟩ := Jvm.absorb_append_ok.1 habsorb
      rw [hheld]
    obtain ⟨a₁, he⟩ := h.exists_perform hfirst (hdepth [e] (List.prefix_append [e] es'))
    obtain ⟨a', hes'⟩ := ih (h.perform he) habsorb fun es₁ hes₁ => by
      rw [← List.append_cons]
      exact hdepth (e :: es₁) ((List.prefix_cons_inj e).2 hes₁)
    exact ⟨a', Build.performAll_cons_ok.2 ⟨a₁, he, hes'⟩⟩

end Assembly

end JvmLisp
