import JvmLisp.Proofs.Pool.Refusal

/-! # The order of requests

Requests share what they refer to, so which of them adds a shared constant depends on their order,
and so do the indices. Whether all of them succeed does not, and neither does what is in the pool in
the end: the items that were asked for with all their parts, each of them once.
-/

namespace JvmLisp.Jvm.Pool

variable {pool : Pool} {requests requests' : List Item}

/-- Each request of a run yields an index. -/
def AllSucceed : List Item → Pool → Prop
  | [], _ => True
  | x :: requests, pool => (∃ i, (intern x pool).1 = .ok i) ∧ AllSucceed requests (intern x pool).2

/-- All requests succeed if and only if their parts can be absorbed. -/
theorem Valid.allSucceed_iff (h : pool.Valid) :
    AllSucceed requests pool ↔
      (absorb (requests.flatMap Item.parts) pool.items).1 = .ok () := by
  induction requests generalizing pool with
  | nil => simp [AllSucceed, absorb]
  | cons x requests ih =>
    have hsim := simulates_intern h x
    rw [AllSucceed, List.flatMap_cons, absorb_append, hsim.absorbs, ih hsim.valid]
    cases hx : (intern x pool).1 with
    | error e => simp [Except.map]
    | ok i => simp [Except.map]

theorem Valid.absorb_of_allSucceed (h : pool.Valid) (hall : AllSucceed requests pool) :
    absorb (requests.flatMap Item.parts) pool.items =
      (.ok (), (Pool.internAll requests pool).items) := by
  induction requests generalizing pool with
  | nil => rfl
  | cons x requests ih =>
    have hsim := simulates_intern h x
    obtain ⟨⟨i, hi⟩, hrest⟩ := hall
    rw [List.flatMap_cons, absorb_append, hsim.absorbs, hi]
    exact ih hsim.valid hrest

/-- On a new pool, what the requests need decides, whatever their order. -/
theorem allSucceed_empty_iff :
    AllSucceed requests {} ↔ (∀ x ∈ requests.flatMap Item.parts, x.check = .ok ()) ∧
      ∑ x ∈ (requests.flatMap Item.parts).toFinset, x.width ≤ 65534 := by
  rw [← absorb_ok_iff]
  exact valid_empty.allSucceed_iff

/-- A run of requests that all succeed leaves the items that they need. -/
theorem AllSucceed.mem_items (h : AllSucceed requests {}) (x : Item) :
    x ∈ (internAll requests {}).items ↔ x ∈ requests.flatMap Item.parts := by
  have hempty : ({} : Pool).items = [] := rfl
  rw [mem_of_absorb (valid_empty.absorb_of_allSucceed h), hempty]
  simp

theorem AllSucceed.items_perm (h : AllSucceed requests {}) (h' : AllSucceed requests' {})
    (hperm : requests.Perm requests') :
    (internAll requests {}).items.Perm (internAll requests' {}).items := by
  have hvalid := (valid_empty.internAll requests).1
  have hvalid' := (valid_empty.internAll requests').1
  rw [List.perm_ext_iff_of_nodup hvalid.nodup_items hvalid'.nodup_items]
  intro x
  rw [h.mem_items, h'.mem_items]
  exact (hperm.flatMap_right Item.parts).mem_iff

/-- Each entry expands to an item. -/
theorem Valid.map_item?_entries (h : pool.Valid) :
    pool.entries.map (fun e => Lookup.item? pool.get? e.2) = pool.items.map some := by
  have hsnd : pool.entries.map (fun e => Lookup.item? pool.get? e.2) =
      (pool.entries.map Prod.snd).map (Lookup.item? pool.get?) := by
    rw [List.map_map]
    rfl
  rw [hsnd, h.entries_eq, Constant.map_snd_numbered, items,
    h.map_some_filterMap (List.Subset.refl _)]

/-- Requests in any order all succeed or do not all succeed. If they succeed, the entries, with the
texts and values that they refer to in place of indices, are the same up to their order: those that
the requests need. So there are equally many of them, and they take equally many indices. -/
theorem internAll_perm (hperm : requests.Perm requests') :
    let pool := internAll requests {}
    let pool' := internAll requests' {}
    (AllSucceed requests {} ↔ AllSucceed requests' {}) ∧
    (AllSucceed requests {} →
      pool.size = pool'.size ∧
      pool.entries.length = pool'.entries.length ∧
      ∃ items items' : List Item,
        pool.entries.map (fun e => Lookup.item? pool.get? e.2) = items.map some ∧
        pool'.entries.map (fun e => Lookup.item? pool'.get? e.2) = items'.map some ∧
        items.Perm items' ∧ ∀ x, x ∈ items ↔ ∃ y ∈ requests, x ∈ y.parts) := by
  intro pool pool'
  have hvalid : pool.Valid := (valid_empty.internAll requests).1
  have hvalid' : pool'.Valid := (valid_empty.internAll requests').1
  have hparts := hperm.flatMap_right Item.parts
  have hiff : AllSucceed requests {} ↔ AllSucceed requests' {} := by
    rw [allSucceed_empty_iff, allSucceed_empty_iff, List.toFinset_eq_of_perm _ _ hparts]
    simp only [hparts.mem_iff]
  refine ⟨hiff, fun h => ?_⟩
  have hitems : pool.items.Perm pool'.items := h.items_perm (hiff.1 h) hperm
  have hentries := hvalid.map_item?_entries
  have hentries' := hvalid'.map_item?_entries
  refine ⟨?_, ?_, pool.items, pool'.items, hentries, hentries', hitems, ?_⟩
  · rw [hvalid.size_eq, hvalid'.size_eq, totalWidth, totalWidth]
    exact (hitems.map Item.width).sum_eq
  · have hlength := congrArg List.length hentries
    have hlength' := congrArg List.length hentries'
    rw [List.length_map, List.length_map] at hlength hlength'
    rw [hlength, hlength', hitems.length_eq]
  · intro x
    rw [h.mem_items, List.mem_flatMap]

/-- A class and a string that share their text, with a wide constant between them. The constants
come in another order if the requests do. -/
theorem internAll_perm_shared_text :
    let requests := [Item.classInfo "A", .long 1, .string "A"]
    let requests' := [Item.string "A", .long 1, .classInfo "A"]
    requests.Perm requests' ∧ AllSucceed requests {} ∧ AllSucceed requests' {} ∧
      (internAll requests {}).size = (internAll requests' {}).size ∧
      (internAll requests {}).items ≠ (internAll requests' {}).items := by
  intro requests requests'
  have hperm : requests.Perm requests' := by decide
  have hall : AllSucceed requests {} := valid_empty.allSucceed_iff.2 (by decide)
  obtain ⟨hiff, hsame⟩ := internAll_perm hperm
  refine ⟨hperm, hall, hiff.1 hall, (hsame hall).1, ?_⟩
  rw [valid_empty.items_internAll, valid_empty.items_internAll]
  decide

end JvmLisp.Jvm.Pool
