import JvmLisp.Jvm.Pool
import Mathlib.Data.List.Infix
import Mathlib.Data.List.ReduceOption
import Mathlib.Tactic

/-! # The structure of a pool

A pool is laid out from its constants: index zero is empty, each constant takes as many indices as
it is wide, and the first of them holds it. A valid pool has this layout, fits its header, finds
each constant under the one index that holds it, and refers only downwards, to constants of the kind
that the reference asks for. Appending a new constant whose references are in place keeps a pool
valid.
-/

namespace JvmLisp.Jvm

namespace Constant

/-- The indices that a constant refers to, each with the tag of what has to stand there. -/
def references : Constant → List (UInt16 × UInt8)
  | classInfo index | string index | methodType index => [(index, 1)]
  | nameAndType name descriptor => [(name, 1), (descriptor, 1)]
  | member _ owner signature => [(owner, 7), (signature, 12)]
  | _ => []

/-- The slots that a constant takes. Only the first of them holds it. -/
def cells (c : Constant) : List (Option Constant) :=
  some c :: List.replicate (c.width - 1) none

theorem width_eq (c : Constant) : c.width = 1 ∨ c.width = 2 := by
  cases c <;> simp [width]

theorem width_pos (c : Constant) : 0 < c.width := by
  rcases c.width_eq with h | h <;> omega

@[simp] theorem length_cells (c : Constant) : c.cells.length = c.width := by
  have h := c.width_pos
  simp only [cells, List.length_cons, List.length_replicate]
  omega

@[simp] theorem reduceOption_cells (c : Constant) : c.cells.reduceOption = [c] := by
  rcases c.width_eq with h | h <;> simp [cells, h, List.reduceOption]

/-- Constants numbered from an index on. Each moves the next one by its width. -/
def numbered : Nat → List Constant → List (Nat × Constant)
  | _, [] => []
  | n, c :: cs => (n, c) :: numbered (n + c.width) cs

theorem getElem?_numbered (n : Nat) (cs : List Constant) (k : Nat) :
    (numbered n cs)[k]? = cs[k]?.map fun c => (n + ((cs.take k).map width).sum, c) := by
  induction cs generalizing n k with
  | nil => simp [numbered]
  | cons c cs ih =>
    cases k with
    | zero => simp [numbered]
    | succ k => simp [numbered, ih, Nat.add_assoc]

theorem map_snd_numbered (n : Nat) (cs : List Constant) : (numbered n cs).map Prod.snd = cs := by
  induction cs generalizing n with
  | nil => rfl
  | cons c cs ih => simp [numbered, ih]

/-- Reading the slots of constants from left to right finds them at their numbers. -/
theorem filterMap_zipIdx_cells (n : Nat) (cs : List Constant) :
    ((cs.flatMap cells).zipIdx n).filterMap (fun (slot, i) => slot.map (i, ·)) =
      numbered n cs := by
  induction cs generalizing n with
  | nil => rfl
  | cons c cs ih =>
    rcases c.width_eq with h | h <;> simp [numbered, cells, h, ← ih, Nat.add_assoc]

/-- Behind the first slot of a wide constant there is an empty one. -/
theorem getElem?_cells_succ {cs : List Constant} {c : Constant} {n : Nat}
    (h : (cs.flatMap cells)[n]? = some (some c)) (hwide : c.width = 2) :
    (cs.flatMap cells)[n + 1]? = some none := by
  induction cs generalizing n with
  | nil => simp at h
  | cons d cs ih =>
    rcases d.width_eq with hd | hd
    · have hcells : (d :: cs).flatMap cells = some d :: cs.flatMap cells := by simp [cells, hd]
      rw [hcells] at h ⊢
      cases n with
      | zero => simp_all
      | succ n => exact ih h
    · have hcells : (d :: cs).flatMap cells = some d :: none :: cs.flatMap cells := by
        simp [cells, hd]
      rw [hcells] at h ⊢
      match n with
      | 0 => rfl
      | 1 => simp at h
      | n + 2 => exact ih h

end Constant

namespace Pool

variable {pool pool' pool'' : Pool} {c d : Constant} {i j : UInt16}

/-- The constants in the order in which they were added. -/
def constants (pool : Pool) : List Constant :=
  pool.slots.toList.reduceOption

theorem get?_eq_some_iff : pool.get? i = some c ↔ pool.slots[i.toNat]? = some (some c) := by
  simp [get?, Option.join_eq_some_iff]

theorem mem_entries {n : Nat} : (n, c) ∈ pool.entries ↔ pool.slots[n]? = some (some c) := by
  simp [entries, entriesFrom, List.mem_filterMap, List.mem_zipIdx_iff_getElem?]

theorem get?_eq_some_iff_mem : pool.get? i = some c ↔ (i.toNat, c) ∈ pool.entries := by
  rw [mem_entries, get?_eq_some_iff]

theorem lt_of_get?_eq_some (h : pool.get? i = some c) : i.toNat < pool.slots.size := by
  rw [get?_eq_some_iff] at h
  exact (Array.getElem?_eq_some_iff.1 h).1

theorem get?_eq_none_of_le (h : pool.slots.size ≤ i.toNat) : pool.get? i = none := by
  simp [get?, Array.getElem?_eq_none h]

/-- The table with a constant appended, without regard to its limit. -/
def append (pool : Pool) (c : Constant) : Pool :=
  ⟨if c.width = 2 then (pool.slots.push (some c)).push none else pool.slots.push (some c),
    pool.index.insert c (UInt16.ofNat pool.slots.size)⟩

theorem push_eq (c : Constant) (pool : Pool) :
    push c pool = if pool.slots.size + c.width ≤ maxCount then
      (.ok (UInt16.ofNat pool.slots.size), pool.append c)
    else (.error { cause := .limit .poolSize }, pool) := by
  rfl

theorem toList_slots_append (pool : Pool) (c : Constant) :
    (pool.append c).slots.toList = pool.slots.toList ++ c.cells := by
  rcases c.width_eq with h | h <;> simp [append, h, Constant.cells]

@[simp] theorem constants_append (pool : Pool) (c : Constant) :
    (pool.append c).constants = pool.constants ++ [c] := by
  rw [constants, toList_slots_append, List.reduceOption_append, Constant.reduceOption_cells]
  rfl

/-- A constant was appended to the table, then another, and so on. -/
def Extends (pool pool' : Pool) : Prop :=
  ∃ added : List Constant, pool' = added.foldl append pool

theorem Extends.refl (pool : Pool) : pool.Extends pool :=
  ⟨[], rfl⟩

theorem Extends.trans (h : pool.Extends pool') (h' : pool'.Extends pool'') :
    pool.Extends pool'' := by
  obtain ⟨added, rfl⟩ := h
  obtain ⟨more, rfl⟩ := h'
  exact ⟨added ++ more, by rw [List.foldl_append]⟩

theorem extends_append (pool : Pool) (c : Constant) : pool.Extends (pool.append c) :=
  ⟨[c], rfl⟩

theorem Extends.slots (h : pool.Extends pool') : pool.slots.toList <+: pool'.slots.toList := by
  obtain ⟨added, rfl⟩ := h
  induction added generalizing pool with
  | nil => exact List.prefix_rfl
  | cons c added ih =>
    exact (List.prefix_append _ c.cells).trans (toList_slots_append pool c ▸ ih)

/-- What follows changes nothing below. -/
theorem Extends.get?_of_lt (h : pool.Extends pool') (hi : i.toNat < pool.slots.size) :
    pool'.get? i = pool.get? i := by
  obtain ⟨rest, hrest⟩ := h.slots
  rw [Pool.get?, Pool.get?, ← Array.getElem?_toList, ← Array.getElem?_toList, ← hrest,
    List.getElem?_append_left hi]

theorem Extends.get? (h : pool.Extends pool') (hc : pool.get? i = some c) :
    pool'.get? i = some c := by
  rw [h.get?_of_lt (lt_of_get?_eq_some hc), hc]

theorem constants_foldl_append (pool : Pool) (added : List Constant) :
    (added.foldl append pool).constants = pool.constants ++ added := by
  induction added generalizing pool with
  | nil => simp
  | cons c added ih => simp [ih]

/-- Everything that a constant refers to is in the table. -/
def Supports (pool : Pool) (c : Constant) : Prop :=
  ∀ r ∈ c.references, ∃ d, pool.get? r.1 = some d ∧ d.tag = r.2

theorem Supports.mono (h : pool.Extends pool') (hc : pool.Supports c) : pool'.Supports c := by
  intro r hr
  obtain ⟨d, hd, htag⟩ := hc r hr
  exact ⟨d, h.get? hd, htag⟩

structure Valid (pool : Pool) : Prop where
  slots_eq : pool.slots.toList = none :: pool.constants.flatMap Constant.cells
  nodup : pool.constants.Nodup
  size_le : pool.slots.size ≤ maxCount
  index_iff : ∀ c i, pool.index[c]? = some i ↔ pool.get? i = some c
  supports : ∀ i c, pool.get? i = some c → pool.Supports c
  descends : ∀ i c, pool.get? i = some c → ∀ r ∈ c.references, r.1 < i

theorem valid_empty : ({} : Pool).Valid where
  slots_eq := rfl
  nodup := List.nodup_nil
  size_le := by decide
  index_iff c i := by
    have h : ({} : Pool).get? i ≠ some c := by
      rw [Ne, get?_eq_some_iff]
      rcases hi : i.toNat with _ | n <;> simp
    simp [h]
  supports i c h := by
    rw [get?_eq_some_iff] at h
    rcases hi : i.toNat with _ | n <;> simp [hi] at h
  descends i c h := by
    rw [get?_eq_some_iff] at h
    rcases hi : i.toNat with _ | n <;> simp [hi] at h

theorem Valid.slots_size (h : pool.Valid) :
    pool.slots.size = 1 + (pool.constants.map Constant.width).sum := by
  have hlen := congrArg List.length h.slots_eq
  simpa [List.length_flatMap, Nat.add_comm] using hlen

theorem Valid.lt_slots_size_iff (h : pool.Valid) {n : Nat} :
    n < pool.slots.size ↔ n ≤ pool.size := by
  have hsize := h.slots_size
  rw [size]
  omega

theorem Valid.entries_eq (h : pool.Valid) :
    pool.entries = Constant.numbered 1 pool.constants := by
  rw [← Constant.filterMap_zipIdx_cells, entries, entriesFrom]
  simp [h.slots_eq]

/-- An index fits two bytes. -/
theorem Valid.exists_index (h : pool.Valid) {n : Nat} (hn : pool.slots[n]? = some (some c)) :
    ∃ i : UInt16, i.toNat = n ∧ pool.get? i = some c := by
  have hlt := (Array.getElem?_eq_some_iff.1 hn).1
  have hle := h.size_le
  have hi : (UInt16.ofNat n).toNat = n :=
    UInt16.toNat_ofNat_of_lt' (by simp [UInt16.size, maxCount] at hle ⊢; omega)
  exact ⟨UInt16.ofNat n, hi, by rw [get?_eq_some_iff, hi, hn]⟩

theorem Valid.mem_constants (h : pool.Valid) :
    c ∈ pool.constants ↔ ∃ i, pool.get? i = some c := by
  rw [constants, List.reduceOption_mem_iff, List.mem_iff_getElem?]
  constructor
  · rintro ⟨n, hn⟩
    rw [Array.getElem?_toList] at hn
    obtain ⟨i, -, hi⟩ := h.exists_index hn
    exact ⟨i, hi⟩
  · rintro ⟨i, hi⟩
    rw [get?_eq_some_iff] at hi
    exact ⟨i.toNat, by rw [Array.getElem?_toList, hi]⟩

/-- A constant stands at one index only. -/
theorem Valid.index_unique (h : pool.Valid) (hi : pool.get? i = some c)
    (hj : pool.get? j = some c) : i = j := by
  rw [← h.index_iff] at hi hj
  exact Option.some.inj (hi.symm.trans hj)

/-! ### Appending keeps a pool valid -/

theorem size_slots_append (pool : Pool) (c : Constant) :
    (pool.append c).slots.size = pool.slots.size + c.width := by
  rw [← Array.length_toList, toList_slots_append, List.length_append, Constant.length_cells,
    Array.length_toList]

theorem toNat_ofNat_size (h : pool.slots.size + c.width ≤ maxCount) :
    (UInt16.ofNat pool.slots.size).toNat = pool.slots.size := by
  have hw := c.width_pos
  simp only [maxCount] at h
  exact UInt16.toNat_ofNat_of_lt' (by simp [UInt16.size]; omega)

theorem get?_append (h : pool.slots.size + c.width ≤ maxCount) (j : UInt16) :
    (pool.append c).get? j =
      if j = UInt16.ofNat pool.slots.size then some c else pool.get? j := by
  have hn := toNat_ofNat_size h
  have hj : j = UInt16.ofNat pool.slots.size ↔ j.toNat = pool.slots.size := by
    rw [← UInt16.toNat_inj, hn]
  simp only [get?, ← Array.getElem?_toList, toList_slots_append, hj]
  rcases Nat.lt_trichotomy j.toNat pool.slots.size with hlt | heq | hgt
  · rw [List.getElem?_append_left (by simpa using hlt), if_neg (by omega)]
  · rw [List.getElem?_append_right (by simp [heq]), if_pos heq]
    simp [heq, Constant.cells]
  · -- Behind the first cell of a constant there is nothing to find.
    obtain ⟨k, hk⟩ := Nat.exists_eq_add_of_lt hgt
    have hsub : j.toNat - pool.slots.toList.length = k + 1 := by simp; omega
    have hold : pool.slots.toList[j.toNat]? = none :=
      List.getElem?_eq_none (by simpa using hgt.le)
    rw [List.getElem?_append_right (by simpa using hgt.le), if_neg (by omega), hsub, hold,
      Constant.cells, List.getElem?_cons_succ, List.getElem?_replicate]
    split <;> rfl

/-- The index of a new constant is behind everything that the table holds. -/
theorem get?_ofNat_size (h : pool.slots.size + c.width ≤ maxCount) :
    pool.get? (UInt16.ofNat pool.slots.size) = none :=
  get?_eq_none_of_le (toNat_ofNat_size h).ge

theorem Valid.append (h : pool.Valid) (hroom : pool.slots.size + c.width ≤ maxCount)
    (hnew : pool.index[c]? = none) (hrefs : pool.Supports c) : (pool.append c).Valid where
  slots_eq := by
    rw [toList_slots_append, constants_append, h.slots_eq]
    simp
  nodup := by
    rw [constants_append, List.nodup_append]
    refine ⟨h.nodup, List.nodup_singleton c, ?_⟩
    intro d hd e he heq
    obtain rfl := List.mem_singleton.1 he
    obtain ⟨i, hi⟩ := h.mem_constants.1 hd
    rw [heq, ← h.index_iff, hnew] at hi
    cases hi
  size_le := by
    rw [size_slots_append]
    exact hroom
  index_iff d j := by
    have hsize := get?_ofNat_size hroom
    rw [get?_append hroom, Pool.append, Std.HashMap.getElem?_insert]
    by_cases hd : c = d
    · subst hd
      have hold : pool.get? j ≠ some c := by simp [← h.index_iff, hnew]
      by_cases hj : j = UInt16.ofNat pool.slots.size
      · simp [hj]
      · simp [hj, hold, Ne.symm hj]
    · by_cases hj : j = UInt16.ofNat pool.slots.size
      · simp [hj, hd, h.index_iff, hsize]
      · simp [hj, hd, h.index_iff]
  supports j d hj := by
    rw [get?_append hroom] at hj
    split at hj
    · obtain rfl := Option.some.inj hj
      exact hrefs.mono (extends_append _ _)
    · exact (h.supports j d hj).mono (extends_append _ _)
  descends j d hj r hr := by
    rw [get?_append hroom] at hj
    split at hj
    · rename_i hj'
      obtain rfl := Option.some.inj hj
      obtain ⟨e, he, -⟩ := hrefs r hr
      rw [hj', UInt16.lt_iff_toNat_lt, toNat_ofNat_size hroom]
      exact lt_of_get?_eq_some he
    · exact h.descends j d hj r hr

end Pool
end JvmLisp.Jvm
