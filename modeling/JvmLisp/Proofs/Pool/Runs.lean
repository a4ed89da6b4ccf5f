import JvmLisp.Proofs.Pool.Capacity

/-! # Runs of requests

A pool serves one request after another, whether the earlier ones succeeded or failed. What every
request keeps holds after every run: the table is laid out from the constants in the order in which
they were appended, it never outgrows its header, and all references point down to the right kind.
-/

namespace JvmLisp.Jvm.Pool

/-- Makes every request, also behind one that failed. -/
def internAll (requests : List Item) (pool : Pool) : Pool :=
  requests.foldl (fun pool x => (intern x pool).2) pool

theorem Valid.internAll {pool : Pool} (h : pool.Valid) (requests : List Item) :
    (internAll requests pool).Valid ∧ pool.Extends (internAll requests pool) := by
  induction requests generalizing pool with
  | nil => exact ⟨h, Extends.refl pool⟩
  | cons x requests ih =>
    have hx := simulates_intern h x
    obtain ⟨hvalid, hgrows⟩ := ih hx.valid
    exact ⟨hvalid, hx.grows.trans hgrows⟩

theorem sound_empty : ({} : Pool).Sound :=
  ⟨valid_empty, List.forall_mem_nil _⟩

theorem Sound.internAll {pool : Pool} (h : pool.Sound) (requests : List Item) :
    (Pool.internAll requests pool).Sound := by
  induction requests generalizing pool with
  | nil => exact h
  | cons x requests ih => exact ih ((simulates_intern h.valid x).sound h)

variable {pool : Pool} {c : Constant} {i : UInt16}

theorem Valid.size_eq (h : pool.Valid) : pool.size = totalWidth pool.items := by
  rw [size, h.slots_size, totalWidth, h.sum_width_items]
  omega

theorem Valid.size_le_max (h : pool.Valid) : pool.size ≤ 65534 := by
  have hle := h.size_le
  simp only [maxCount] at hle
  simp only [size]
  omega

theorem Valid.count_eq (h : pool.Valid) : pool.count = .ok (UInt16.ofNat (pool.size + 1)) := by
  have hsize : pool.size + 1 = pool.slots.size := by
    have hpos := h.slots_size
    simp only [size]
    omega
  rw [count, if_pos h.size_le, hsize]

/-- The second index of a wide constant holds nothing. -/
theorem Valid.get?_succ (h : pool.Valid) (hc : pool.get? i = some c) (hwide : c.width = 2) :
    pool.get? (i + 1) = none := by
  have hle := h.size_le
  have hlt := lt_of_get?_eq_some hc
  have hsucc : (i + 1).toNat = i.toNat + 1 := by
    simp only [maxCount] at hle
    rw [UInt16.toNat_add, UInt16.toNat_one, Nat.mod_eq_of_lt (by omega)]
  rw [get?_eq_some_iff, ← Array.getElem?_toList, h.slots_eq] at hc
  rcases hi : i.toNat with _ | n
  · simp [hi] at hc
  · rw [hi, List.getElem?_cons_succ] at hc
    have hnext := Constant.getElem?_cells_succ hc hwide
    rw [get?, hsucc, ← Array.getElem?_toList, h.slots_eq, hi, List.getElem?_cons_succ, hnext]
    rfl

theorem Valid.get?_zero (h : pool.Valid) : pool.get? 0 = none := by
  rw [get?, ← Array.getElem?_toList, h.slots_eq]
  rfl

/-- After any run of requests on a new pool, failed ones included: the constants that were appended
are listed in that order, each starting behind the widths of those before it; an index yields a
constant exactly where one starts; the header counts the indices; and references point down to
constants of the required kind. -/
theorem internAll_structure (requests : List Item) :
    let pool := internAll requests {}
    ∃ added : List Constant,
      pool = added.foldl append {} ∧
      (∀ k, pool.entries[k]? =
        added[k]?.map fun c => (1 + ((added.take k).map Constant.width).sum, c)) ∧
      (∀ i c, pool.get? i = some c ↔ (i.toNat, c) ∈ pool.entries) ∧
      pool.get? 0 = none ∧
      (∀ i c, pool.get? i = some c → c.width = 2 → pool.get? (i + 1) = none) ∧
      (∀ i : UInt16, pool.size < i.toNat → pool.get? i = none) ∧
      pool.size = (added.map Constant.width).sum ∧
      pool.size ≤ 65534 ∧
      (∃ count, pool.count = .ok count ∧ count.toNat = pool.size + 1) ∧
      ∀ i c, pool.get? i = some c → ∀ r ∈ c.references,
        r.1 < i ∧ ∃ d, pool.get? r.1 = some d ∧ d.tag = r.2 := by
  intro pool
  obtain ⟨hvalid, added, hadded⟩ := valid_empty.internAll requests
  have hconstants : pool.constants = added := by
    rw [show pool = added.foldl append {} from hadded, constants_foldl_append]
    rfl
  have hentries : pool.entries = Constant.numbered 1 added := by
    rw [← hconstants]
    exact hvalid.entries_eq
  have hsize : pool.slots.size = 1 + (added.map Constant.width).sum := by
    rw [← hconstants]
    exact hvalid.slots_size
  refine ⟨added, hadded, ?_, fun i c => get?_eq_some_iff_mem, hvalid.get?_zero,
    fun i c => hvalid.get?_succ, ?_, ?_, hvalid.size_le_max, ?_, ?_⟩
  · intro k
    rw [hentries, Constant.getElem?_numbered]
  · intro i hi
    exact get?_eq_none_of_le (by simp only [size] at hi; omega)
  · simp only [size]
    omega
  · refine ⟨_, hvalid.count_eq, UInt16.toNat_ofNat_of_lt' ?_⟩
    have hle := hvalid.size_le_max
    simp only [UInt16.size]
    omega
  · intro i c hc r hr
    exact ⟨hvalid.descends i c hc r hr, hvalid.supports i c hc r hr⟩

end JvmLisp.Jvm.Pool
