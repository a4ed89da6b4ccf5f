import Mathlib.Algebra.BigOperators.Group.Finset.Basic
import JvmLisp.Proofs.Pool.Catalogue

/-! # Capacity

Which items a pool can take depends on the set of them only, not on their order or on how often each
is asked for: every text must be valid, and the widths of the distinct items must add up to no more
than there are indices.
-/

namespace JvmLisp.Jvm

/-- A text of ASCII characters without NUL whose length fits two bytes. -/
def Storable (text : String) : Prop :=
  (∀ c ∈ text.toList, 0 < c.toNat ∧ c.toNat < 128) ∧ text.utf8ByteSize ≤ 65535

instance (text : String) : Decidable (Storable text) :=
  @instDecidableAnd _ _ (List.decidableBAll _ _) inferInstance

theorem Pool.checkText_eq_ok {text : String} : checkText text = .ok () ↔ Storable text := by
  have hnone : (text.toList.find? fun c => c.toNat = 0 || c.toNat > 127) = none ↔
      ∀ c ∈ text.toList, 0 < c.toNat ∧ c.toNat < 128 := by
    rw [List.find?_eq_none]
    apply forall₂_congr
    intro c _
    simp only [Bool.or_eq_true, decide_eq_true_eq]
    omega
  rw [checkText, Storable, ← hnone]
  split
  · rename_i c hc
    simp [hc]
  · rename_i hc
    by_cases hlength : text.utf8ByteSize ≤ 65535 <;> simp [hc, Constant.maxTextBytes, hlength]

theorem totalWidth_eq_sum {items : List Item} (h : items.Nodup) :
    totalWidth items = ∑ x ∈ items.toFinset, x.width :=
  (List.sum_toFinset Item.width h).symm

theorem absorb_append_ok {xs ys held : List Item} :
    (absorb (xs ++ ys) held).1 = .ok () ↔
      ∃ held', absorb xs held = (.ok (), held') ∧ (absorb ys held').1 = .ok () := by
  rw [absorb_append]
  rcases absorb xs held with ⟨_ | _, held'⟩ <;> simp

/-- The items that are held already count towards the capacity, but are not checked again. -/
theorem absorb_held_ok_iff {xs held : List Item} (hheld : held.Nodup)
    (hfits : 1 + totalWidth held ≤ Pool.maxCount) :
    (absorb xs held).1 = .ok () ↔ (∀ x ∈ xs, x ∉ held → x.check = .ok ()) ∧
      1 + ∑ x ∈ (held ++ xs).toFinset, x.width ≤ Pool.maxCount := by
  induction xs generalizing held with
  | nil => simpa [absorb, ← totalWidth_eq_sum hheld] using hfits
  | cons x xs ih =>
    rw [absorb]
    by_cases hx : x ∈ held
    · have hsame : (held ++ x :: xs).toFinset = (held ++ xs).toFinset := by
        ext y
        simp only [List.mem_toFinset, List.mem_append, List.mem_cons]
        grind
      rw [if_pos hx, ih hheld hfits, hsame]
      simp [hx]
    · have hheld' : (held ++ [x]).Nodup := by
        rw [List.nodup_append]
        simp only [hheld, List.nodup_singleton, true_and, List.mem_singleton]
        grind
      have hwidth : totalWidth (held ++ [x]) = totalWidth held + x.width := by simp [totalWidth]
      rw [if_neg hx]
      cases hcheck : x.check with
      | error e => simp [hx, hcheck]
      | ok =>
        simp only
        split
        · rename_i hroom
          rw [ih hheld' (by omega), ← List.append_cons]
          simp only [List.mem_append, List.mem_cons]
          grind
        · rename_i hroom
          have hle : totalWidth (held ++ [x]) ≤ ∑ y ∈ (held ++ x :: xs).toFinset, y.width := by
            rw [totalWidth_eq_sum hheld']
            apply Finset.sum_le_sum_of_subset
            intro y hy
            simp only [List.mem_toFinset, List.mem_append, List.mem_cons] at hy ⊢
            grind
          simp only [reduceCtorEq, false_iff, not_and, not_le]
          intro
          omega

theorem absorb_ok_iff {xs : List Item} :
    (absorb xs []).1 = .ok () ↔ (∀ x ∈ xs, x.check = .ok ()) ∧
      ∑ x ∈ xs.toFinset, x.width ≤ 65534 := by
  have hcapacity (n : Nat) : 1 + n ≤ Pool.maxCount ↔ n ≤ 65534 := by
    simp only [Pool.maxCount]
    omega
  rw [absorb_held_ok_iff List.nodup_nil (by decide), hcapacity]
  simp

/-! ### Checked texts -/

theorem absorb_checked {held : List Item} (hheld : ∀ x ∈ held, x.check = .ok ())
    (xs : List Item) : ∀ x ∈ (absorb xs held).2, x.check = .ok () := by
  induction xs generalizing held with
  | nil => exact hheld
  | cons x xs ih =>
    rw [absorb]
    split
    · exact ih hheld
    · split
      · exact hheld
      · rename_i hcheck
        split
        · apply ih
          intro y hy
          rcases List.mem_append.1 hy with hy | hy
          · exact hheld y hy
          · rwa [List.mem_singleton.1 hy]
        · exact hheld

namespace Pool

/-- A valid pool in which all texts can be encoded. -/
structure Sound (pool : Pool) : Prop where
  valid : pool.Valid
  checked : ∀ x ∈ pool.items, x.check = .ok ()

variable {pool pool' : Pool} {i : UInt16}

theorem Sound.storable (h : pool.Sound) {text : String} (hmem : .utf8 text ∈ pool.constants) :
    Storable text := by
  obtain ⟨i, hi⟩ := h.valid.mem_constants.1 hmem
  have hitem : Item.utf8 text ∈ pool.items :=
    h.valid.mem_items.2 ⟨i, Lookup.resolve_utf8.2 (Lookup.text?_eq_some.2 hi)⟩
  exact checkText_eq_ok.1 (h.checked _ hitem)

theorem Simulates.sound {outcome : Except Error UInt16 × Pool} {parts : List Item} {x : Item}
    (h : Simulates pool outcome parts x) (hpool : pool.Sound) : outcome.2.Sound := by
  have hchecked := absorb_checked hpool.checked parts
  rw [h.absorbs] at hchecked
  exact ⟨h.valid, hchecked⟩

theorem Sound.internText (h : pool.Sound) {text : String}
    (hintern : internText text pool = (.ok i, pool')) :
    pool'.Sound ∧ pool.Extends pool' ∧ Lookup.text? pool'.get? i = some text := by
  have hsim := simulates_internText h.valid text
  have hsound := hsim.sound h
  rw [hintern] at hsim hsound
  exact ⟨hsound, hsim.grows, Lookup.resolve_utf8.1 (hsim.index i rfl)⟩

/-- An operation whose parts can be absorbed succeeds, and leaves what else can be absorbed. -/
theorem Simulates.exists_ok {outcome : Except Error UInt16 × Pool} {parts more : List Item}
    {x : Item} (h : Simulates pool outcome parts x)
    (habsorb : (absorb (parts ++ more) pool.items).1 = .ok ()) :
    ∃ i pool', outcome = (.ok i, pool') ∧ pool'.Valid ∧ (absorb more pool'.items).1 = .ok () := by
  obtain ⟨held, hparts, hmore⟩ := absorb_append_ok.1 habsorb
  rcases outcome with ⟨e | i, pool'⟩
  · cases h.absorbs.symm.trans hparts
  · obtain ⟨-, rfl⟩ := Prod.mk.inj (h.absorbs.symm.trans hparts)
    exact ⟨i, pool', rfl, h.valid, hmore⟩

theorem Sound.internClass (h : pool.Sound) {name : String}
    (hintern : internClass name pool = (.ok i, pool')) :
    pool'.Sound ∧ pool.Extends pool' ∧ Lookup.className? pool'.get? i = some name := by
  have hsim := simulates_internClass h.valid name
  have hsound := hsim.sound h
  rw [hintern] at hsim hsound
  exact ⟨hsound, hsim.grows, Lookup.resolve_classInfo.1 (hsim.index i rfl)⟩

end Pool

end JvmLisp.Jvm
