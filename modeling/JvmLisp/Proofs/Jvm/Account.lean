import JvmLisp.Jvm.Body
import Mathlib.Data.List.Infix
import Mathlib.Order.Bounds.Basic
import Mathlib.Tactic

/-! # The account of the stack

A body is asked to append one instruction after another, whether or not it appended the earlier
ones. At every time it holds the account of those that it appended: the instructions in order, the
sum of their effects, and the greatest of the sums on the way. A refused instruction leaves no trace
in the account.
-/

namespace JvmLisp.Jvm

/-- The greatest of zero and all partial sums. -/
def highWater : List Int → Int
  | [] => 0
  | d :: ds => max 0 (d + highWater ds)

theorem highWater_nonneg (ds : List Int) : 0 ≤ highWater ds := by
  cases ds with
  | nil => exact le_rfl
  | cons d ds => exact le_max_left ..

@[simp] theorem highWater_append (ds ds' : List Int) :
    highWater (ds ++ ds') = max (highWater ds) (ds.sum + highWater ds') := by
  have hnonneg := highWater_nonneg ds'
  induction ds with
  | nil => simp [highWater, hnonneg]
  | cons d ds ih =>
    simp only [List.cons_append, highWater, ih, List.sum_cons]
    omega

/-- Each partial sum is the sum of a prefix; the empty one has the sum zero. -/
theorem isGreatest_highWater (ds : List Int) :
    IsGreatest {s | ∃ ds', ds' <+: ds ∧ ds'.sum = s} (highWater ds) := by
  induction ds with
  | nil =>
    constructor
    · exact ⟨[], List.prefix_rfl, rfl⟩
    · rintro s ⟨ds', hprefix, rfl⟩
      rw [List.prefix_nil.1 hprefix]
      exact le_rfl
  | cons d ds ih =>
    constructor
    · by_cases hpos : 0 ≤ d + highWater ds
      · obtain ⟨ds', hprefix, hsum⟩ := ih.1
        refine ⟨d :: ds', (List.prefix_cons_inj d).2 hprefix, ?_⟩
        rw [List.sum_cons, hsum, highWater, max_eq_right hpos]
      · exact ⟨[], List.nil_prefix, by simp only [List.sum_nil, highWater]; omega⟩
    · rintro s ⟨ds', hds', rfl⟩
      rcases List.prefix_cons_iff.1 hds' with rfl | ⟨ds₁, rfl, hprefix⟩
      · exact highWater_nonneg (d :: ds)
      · have hle := ih.2 ⟨ds₁, hprefix, rfl⟩
        simp only [List.sum_cons, highWater]
        omega

theorem sum_le_highWater (ds : List Int) : ds.sum ≤ highWater ds :=
  (isGreatest_highWater ds).2 ⟨ds, List.prefix_rfl, rfl⟩

namespace Body

variable {body : Body} {i : Instruction} {effect : Int} {calls : List (Instruction × Int)}

/-- Makes every call, also behind one that was refused. -/
def emitAll (calls : List (Instruction × Int)) (body : Body) : Body :=
  calls.foldl (fun body call => (emit call.1 call.2 body).2) body

/-- The calls that succeed when all are made. -/
def succeeding : List (Instruction × Int) → Body → List (Instruction × Int)
  | [], _ => []
  | (i, effect) :: calls, body => match emit i effect body with
    | (.ok _, body) => (i, effect) :: succeeding calls body
    | (.error _, body) => succeeding calls body

/-- The depth behind an instruction can be counted. -/
def HasRoom (body : Body) (effect : Int) : Prop :=
  0 ≤ body.depth + effect ∧ body.depth + effect < depthBound

theorem emit_of_hasRoom (i : Instruction) (h : body.HasRoom effect) :
    emit i effect body = (.ok (), body.append i (body.depth + effect).toNat) :=
  if_pos h

theorem emit_of_not_hasRoom (i : Instruction) (h : ¬body.HasRoom effect) :
    emit i effect body = (.error { cause := .defect (.underflow i effect body.depth) }, body) :=
  if_neg h

theorem not_hasRoom_iff :
    ¬body.HasRoom effect ↔ body.depth + effect < 0 ∨ 2 ^ 64 - 1 < body.depth + effect := by
  simp only [HasRoom, depthBound, UInt64.size]
  omega

theorem emit_eq_error_iff {e : Error} :
    (emit i effect body).1 = .error e ↔
      ¬body.HasRoom effect ∧ e = { cause := .defect (.underflow i effect body.depth) } := by
  by_cases hroom : body.HasRoom effect
  · simp [emit_of_hasRoom i hroom, hroom]
  · simp [emit_of_not_hasRoom i hroom, hroom, eq_comm]

theorem peak_le_emit (i : Instruction) (effect : Int) (body : Body) :
    body.peak ≤ (emit i effect body).2.peak := by
  by_cases hroom : body.HasRoom effect
  · rw [emit_of_hasRoom i hroom]
    exact le_max_left ..
  · rw [emit_of_not_hasRoom i hroom]

theorem peak_le_emitAll (calls : List (Instruction × Int)) (body : Body) :
    body.peak ≤ (emitAll calls body).peak := by
  induction calls generalizing body with
  | nil => exact le_rfl
  | cons call calls ih => exact (peak_le_emit call.1 call.2 body).trans (ih _)

/-- The body is the account of calls that all succeeded. -/
structure Accounts (body : Body) (calls : List (Instruction × Int)) : Prop where
  instructions : body.instructions.toList = calls.map Prod.fst
  depth : (body.depth : Int) = (calls.map Prod.snd).sum
  peak : (body.peak : Int) = highWater (calls.map Prod.snd)

theorem accounts_empty : ({} : Body).Accounts [] where
  instructions := rfl
  depth := rfl
  peak := rfl

theorem Accounts.append (h : body.Accounts calls) (i : Instruction)
    (hroom : body.HasRoom effect) :
    (body.append i (body.depth + effect).toNat).Accounts (calls ++ [(i, effect)]) where
  instructions := by simp [Body.append, h.instructions]
  depth := by
    have hnonneg := hroom.1
    simp only [Body.append, List.map_append, List.sum_append, List.map_cons, List.map_nil,
      List.sum_singleton, ← h.depth]
    omega
  peak := by
    have hnonneg := hroom.1
    have hpeak := h.peak
    have hdepth : (body.depth : Int) ≤ body.peak := by
      rw [h.depth, h.peak]
      exact sum_le_highWater _
    simp only [Body.append, List.map_append, highWater_append, List.map_cons, List.map_nil,
      highWater, ← h.depth, ← h.peak]
    omega

/-- Behind a run, the calls of the run that succeeded are on the account. -/
theorem Accounts.emitAll {done : List (Instruction × Int)} (h : body.Accounts done)
    (calls : List (Instruction × Int)) :
    (emitAll calls body).Accounts (done ++ succeeding calls body) := by
  induction calls generalizing body done with
  | nil => simpa [Body.emitAll, succeeding] using h
  | cons call calls ih =>
    rcases call with ⟨i, effect⟩
    rw [Body.emitAll, List.foldl_cons, ← Body.emitAll]
    by_cases hroom : body.HasRoom effect
    · simp only [emit_of_hasRoom i hroom, succeeding]
      rw [List.append_cons]
      exact ih (h.append i hroom)
    · simp only [emit_of_not_hasRoom i hroom, succeeding]
      exact ih h

/-- Behind any run of calls on a new body, refused ones included: the next call is refused exactly
if the depth would leave its bounds, as a defect and without a change; the body has the instructions
of the calls that succeeded, the sum of their effects and the greatest of zero and all partial sums;
and the greatest never falls, nor is it below the depth. -/
theorem emitAll_accounts (calls : List (Instruction × Int)) :
    let body := emitAll calls {}
    let done := succeeding calls {}
    (∀ i effect, ((∃ e, (emit i effect body).1 = .error e) ↔
        body.depth + effect < 0 ∨ 2 ^ 64 - 1 < body.depth + effect) ∧
      ∀ e, (emit i effect body).1 = .error e →
        e.cause.isDefect = true ∧ (emit i effect body).2 = body) ∧
    body.instructions.toList = done.map Prod.fst ∧
    (body.depth : Int) = (done.map Prod.snd).sum ∧
    IsGreatest {s | ∃ ds, ds <+: done.map Prod.snd ∧ ds.sum = s} (body.peak : Int) ∧
    (∀ more, body.peak ≤ (emitAll more body).peak) ∧ body.depth ≤ body.peak := by
  intro body done
  have haccounts : body.Accounts done := accounts_empty.emitAll calls
  refine ⟨fun i effect => ⟨?_, ?_⟩, haccounts.instructions, haccounts.depth, ?_,
    fun more => peak_le_emitAll more body, ?_⟩
  · simp [emit_eq_error_iff, not_hasRoom_iff]
  · intro e he
    obtain ⟨hroom, rfl⟩ := emit_eq_error_iff.1 he
    exact ⟨rfl, by rw [emit_of_not_hasRoom i hroom]⟩
  · rw [haccounts.peak]
    exact isGreatest_highWater _
  · have hle := sum_le_highWater (done.map Prod.snd)
    rw [← haccounts.depth, ← haccounts.peak] at hle
    exact_mod_cast hle

end Body

end JvmLisp.Jvm
