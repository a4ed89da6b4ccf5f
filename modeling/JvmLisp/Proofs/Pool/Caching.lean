import JvmLisp.Jvm.CachedPool
import JvmLisp.Proofs.Pool.Deduplication

/-! # Caches and the index of a pool

A pool with caches looks for an item by its texts and values before it adds anything, and a pool
with an index looks for constants after the indices in them are known. The two agree: they give the
same answers to the same requests, failed ones included, and hold the same constants at the same
indices.

What is compared is what a cache finds with what an index resolves to. An item that no cache knows
is not among the items of the other pool either, and interning its parts does not bring it in.
-/

namespace JvmLisp.Jvm

theorem mem_of_mem_absorb {xs held : List Item} {x : Item} (h : x ∈ (absorb xs held).2) :
    x ∈ held ∨ x ∈ xs := by
  induction xs generalizing held with
  | nil => exact .inl h
  | cons y xs ih =>
    rw [absorb] at h
    split at h
    · exact (ih h).imp_right (List.mem_cons_of_mem y)
    · split at h
      · exact .inl h
      · split at h
        · rcases ih h with h | h
          · exact (List.mem_append.1 h).imp_right fun h => by simp_all
          · exact .inr (List.mem_cons_of_mem y h)
        · exact .inl h

/-- Interning brings in nothing but parts. -/
theorem Pool.Simulates.notMem {pool : Pool} {outcome : Except Error UInt16 × Pool}
    {parts : List Item} {x y : Item} (h : pool.Simulates outcome parts y) (hx : x ∉ pool.items)
    (hparts : x ∉ parts) : x ∉ outcome.2.items := by
  intro hmem
  have habsorbed : x ∈ (absorb parts pool.items).2 := by
    rw [h.absorbs]
    exact hmem
  exact (mem_of_mem_absorb habsorbed).elim hx hparts

theorem Pool.Valid.resolve_append {pool : Pool} {c : Constant} {x y : Item} {i : UInt16}
    (h : pool.Valid) (hroom : pool.slots.size + c.width ≤ maxCount)
    (hx : Lookup.item? pool.get? c = some x) :
    (pool.append c).resolve i = some y ↔
      i = UInt16.ofNat pool.slots.size ∧ x = y ∨ pool.resolve i = some y := by
  have hsub := (extends_append pool c).sub
  have hget := get?_append hroom i
  have hend := get?_ofNat_size hroom
  constructor
  · intro hi
    obtain ⟨d, hd, hdy⟩ := Lookup.resolve_eq_some.1 hi
    rw [hget] at hd
    split at hd
    · rename_i hnew
      obtain rfl := Option.some.inj hd
      exact .inl ⟨hnew, Option.some.inj ((hsub.item? hx).symm.trans hdy)⟩
    · obtain ⟨z, hz, hiz⟩ := h.resolve_of_get? hd
      obtain rfl := Option.some.inj ((hsub.item? hz).symm.trans hdy)
      exact .inr hiz
  · rintro (⟨rfl, rfl⟩ | hi)
    · refine Lookup.resolve_eq_some.2 ⟨c, ?_, hsub.item? hx⟩
      rw [hget, if_pos rfl]
    · exact hsub.resolve hi

theorem Caches.find?_insert (caches : Caches) (i : UInt16) (x y : Item) :
    (caches.insert i x).find? y = if x = y then some i else caches.find? y := by
  rcases x with _ | _ | _ | _ | _ | _ | _ | ⟨_ | _ | _, _, _, _⟩ | _ | _ <;>
    rcases y with _ | _ | _ | _ | _ | _ | _ | ⟨_ | _ | _, _, _, _⟩ | _ | _ <;>
    simp [insert, find?, Std.HashMap.getElem?_insert]

namespace CachedPool

variable {p : CachedPool} {pool : Pool} {c : Constant} {x y : Item} {parts : List Item}

/-- Both pools have the same constants in the same slots, and a cache finds an item where the other
pool holds it. -/
structure Agrees (p : CachedPool) (pool : Pool) : Prop where
  valid : pool.Valid
  constants_eq : p.constants.toList = pool.constants
  slots_eq : p.slots.toList.map (·.bind (p.constants[·]?)) = pool.slots.toList
  /-- No slot points behind the constants. -/
  place_lt : ∀ k, some k ∈ p.slots.toList → k < p.constants.size
  find_iff : ∀ x i, p.caches.find? x = some i ↔ pool.resolve i = some x

theorem agrees_empty : Agrees {} {} where
  valid := Pool.valid_empty
  constants_eq := rfl
  slots_eq := rfl
  place_lt k hk := by simp at hk
  find_iff x i := by
    have hfind : ({} : Caches).find? x = none := by
      rcases x with _ | _ | _ | _ | _ | _ | _ | ⟨_ | _ | _, _, _, _⟩ | _ | _ <;>
        simp [Caches.find?]
    have hresolve : ({} : Pool).resolve i ≠ some x := by
      intro h
      have hmem := Pool.valid_empty.mem_items.2 ⟨i, h⟩
      cases hmem
    simp [hfind, hresolve]

theorem Agrees.size_slots (h : p.Agrees pool) : p.slots.size = pool.slots.size := by
  simpa using congrArg List.length h.slots_eq

theorem Agrees.size_eq (h : p.Agrees pool) : p.size = pool.size := by
  rw [size, Pool.size, h.size_slots]

theorem Agrees.get?_eq (h : p.Agrees pool) (i : UInt16) : p.get? i = pool.get? i := by
  have hslot : pool.slots[i.toNat]? = p.slots[i.toNat]?.map (·.bind (p.constants[·]?)) := by
    rw [← Array.getElem?_toList, ← h.slots_eq, List.getElem?_map, Array.getElem?_toList]
  rw [get?, Pool.get?, hslot]
  rcases p.slots[i.toNat]? with _ | _ | k <;> rfl

theorem Agrees.encode_eq (h : p.Agrees pool) : p.encode = pool.encode := by
  have hcount : p.count = pool.count := by rw [count, Pool.count, h.size_slots]
  have hconstants : pool.entries.map Prod.snd = p.constants.toList := by
    rw [h.valid.entries_eq, Constant.map_snd_numbered, h.constants_eq]
  rw [encode, Pool.encode, hcount, ← hconstants, List.mapM_map]
  rfl

theorem Agrees.notMem_items (h : p.Agrees pool) (hx : p.caches.find? x = none) :
    x ∉ pool.items := by
  intro hmem
  obtain ⟨i, hi⟩ := h.valid.mem_items.1 hmem
  cases hx.symm.trans ((h.find_iff x i).2 hi)

/-- Two computations with the same result, behind which the pools agree. -/
structure Matches {α : Type} (outcome : Except Error α × CachedPool)
    (outcome' : Except Error α × Pool) : Prop where
  result : outcome.1 = outcome'.1
  agrees : outcome.2.Agrees outcome'.2

theorem Matches.bind {m : Caching UInt16} {m' : Interning UInt16} {k : UInt16 → Caching UInt16}
    {k' : UInt16 → Interning UInt16} (h : Matches (m p) (m' pool))
    (hsim : pool.Simulates (m' pool) parts y)
    (hk : ∀ i q pool', q.Agrees pool' → pool.Extends pool' → pool'.resolve i = some y →
      (∀ x, x ∉ parts → x ∉ pool.items → x ∉ pool'.items) → Matches (k i q) (k' i pool')) :
    Matches ((m >>= k) p) ((m' >>= k') pool) := by
  obtain ⟨hresult, hagrees⟩ := h
  rw [bind_apply, bind_apply]
  rcases hm : m p with ⟨r, q⟩
  rcases hm' : m' pool with ⟨r', pool'⟩
  rw [hm, hm'] at hresult hagrees
  rw [hm'] at hsim
  obtain rfl : r = r' := hresult
  cases r with
  | error e => exact ⟨rfl, hagrees⟩
  | ok i =>
    exact hk i q pool' hagrees hsim.grows (hsim.index i rfl) fun x hparts hx =>
      hsim.notMem hx hparts

theorem push_eq (c : Constant) (p : CachedPool) :
    push c p = if p.slots.size + c.width ≤ Pool.maxCount then
      (.ok (UInt16.ofNat p.slots.size),
        ⟨p.constants.push c, if c.width = 2 then (p.slots.push (some p.constants.size)).push none
          else p.slots.push (some p.constants.size), p.caches⟩)
    else (.error { cause := .limit .poolSize }, p) :=
  rfl

theorem store_apply (x : Item) (c : Constant) (p : CachedPool) :
    store x c p = match push c p with
      | (.ok i, q) => (.ok i, { q with caches := q.caches.insert i x })
      | (.error e, q) => (.error e, q) := by
  rw [store, bind_apply]
  rcases push c p with ⟨_ | _, _⟩ <;> rfl

theorem cached_of_find? {i : UInt16} {make : Caching Constant} (h : p.caches.find? x = some i) :
    cached x make p = (.ok i, p) := by
  have hget : (get : Caching CachedPool) p = (.ok p, p) := rfl
  rw [cached, bind_apply, hget]
  simp only [h]
  rfl

theorem cached_of_new {make : Caching Constant} (h : p.caches.find? x = none) :
    cached x make p = (make >>= store x) p := by
  have hget : (get : Caching CachedPool) p = (.ok p, p) := rfl
  rw [cached, bind_apply, hget]
  simp only [h]

theorem toList_slots_push (slots : Array (Option Nat)) (k : Nat) (c : Constant) :
    (if c.width = 2 then (slots.push (some k)).push none else slots.push (some k)).toList =
      slots.toList ++ some k :: List.replicate (c.width - 1) none := by
  rcases c.width_eq with h | h <;> simp [h]

theorem Agrees.index_eq_none (h : p.Agrees pool) (hx : Lookup.item? pool.get? c = some x)
    (hnew : x ∉ pool.items) : pool.index[c]? = none := by
  rw [Option.eq_none_iff_forall_ne_some]
  intro i hi
  exact hnew ((h.valid.find_iff hx).1 ⟨i, hi⟩)

/-- A constant that is new to both pools is given the same index in both. -/
theorem Agrees.store (h : p.Agrees pool) (hx : Lookup.item? pool.get? c = some x)
    (hnew : x ∉ pool.items) : Matches (CachedPool.store x c p) (Pool.push c pool) := by
  have hindex := h.index_eq_none hx hnew
  rw [store_apply, push_eq, Pool.push_eq, h.size_slots]
  by_cases hroom : pool.slots.size + c.width ≤ Pool.maxCount
  · rw [if_pos hroom, if_pos hroom]
    refine ⟨rfl, h.valid.append hroom hindex (Pool.supports_of_item? hx), ?_, ?_, ?_, ?_⟩
    · simp [h.constants_eq]
    · have hold : ∀ o ∈ p.slots.toList, o.bind ((p.constants.push c)[·]?) =
          o.bind (p.constants[·]?) := by
        rintro (_ | k) hk
        · rfl
        · simp [Array.getElem?_push, (h.place_lt k hk).ne]
      rw [toList_slots_push, Pool.toList_slots_append, List.map_append, List.map_congr_left hold,
        h.slots_eq]
      simp [Constant.cells]
    · intro k hk
      rw [toList_slots_push, List.mem_append, List.mem_cons, List.mem_replicate] at hk
      rw [Array.size_push]
      rcases hk with hk | hk | ⟨-, hk⟩
      · exact Nat.lt_succ_of_lt (h.place_lt k hk)
      · exact Nat.lt_succ_of_le (Option.some.inj hk).le
      · cases hk
    · intro y i
      have hold := h.find_iff y i
      have hmem : x = y → pool.resolve i ≠ some y := by
        rintro rfl hi
        exact hnew (h.valid.mem_items.2 ⟨i, hi⟩)
      rw [Caches.find?_insert, h.valid.resolve_append hroom hx]
      by_cases hxy : x = y
      · simp [hxy, hmem hxy, eq_comm]
      · simp [hxy, hold]
  · rw [if_neg hroom, if_neg hroom]
    exact ⟨rfl, h⟩

theorem Agrees.store_add (h : p.Agrees pool) (hx : Lookup.item? pool.get? c = some x)
    (hnew : x ∉ pool.items) : Matches (CachedPool.store x c p) (Pool.add c pool) := by
  have hadd : Pool.add c pool = Pool.push c pool := by
    rw [Pool.add, bind_apply]
    simp only [Pool.find?, h.index_eq_none hx hnew]
  rw [hadd]
  exact h.store hx hnew

/-- What a cache finds is what the other pool finds, constant by constant. -/
theorem Agrees.cached {make : Caching Constant} (h : p.Agrees pool)
    (hmake : x ∉ pool.items → Matches ((make >>= CachedPool.store x) p) (Pool.intern x pool)) :
    Matches (cached x make p) (Pool.intern x pool) := by
  cases hfind : p.caches.find? x with
  | some i =>
    rw [cached_of_find? hfind, h.valid.intern_of_resolve ((h.find_iff x i).1 hfind)]
    exact ⟨rfl, h⟩
  | none =>
    rw [cached_of_new hfind]
    exact hmake (h.notMem_items hfind)

/-! ### Requests -/

theorem Agrees.internText (h : p.Agrees pool) (text : String) :
    Matches (internText text p) (Pool.internText text pool) := by
  refine h.cached (x := .utf8 text) fun hnew => ?_
  have hx : Lookup.item? pool.get? (.utf8 text) = some (.utf8 text) := rfl
  have hindex := h.index_eq_none hx hnew
  change Matches _ (Pool.internText text pool)
  rw [Pool.internText, bind_assoc, bind_apply, bind_apply]
  simp only [Pool.find?, hindex]
  rw [bind_apply]
  cases hcheck : Pool.checkText text with
  | error e => exact ⟨rfl, h⟩
  | ok _ => exact h.store hx hnew

/-- A new constant that refers to a text is stored behind its text. -/
theorem Agrees.store_ofText {text : String} {make : UInt16 → Constant} (h : p.Agrees pool)
    (hx : ∀ (get : Lookup) i, get.text? i = some text → get.item? (make i) = some x)
    (hne : x ≠ .utf8 text) (hnew : x ∉ pool.items) :
    Matches (((do return make (← CachedPool.internText text)) >>= CachedPool.store x) p)
      ((Pool.internText text >>= fun i => Pool.add (make i)) pool) := by
  rw [bind_assoc]
  refine (h.internText text).bind (Pool.simulates_internText h.valid text) ?_
  intro i q pool' hq _ hi hkept
  exact hq.store_add (hx _ i (Lookup.resolve_utf8.1 hi)) (hkept x (by simp [hne]) hnew)

theorem Agrees.internClass (h : p.Agrees pool) (name : String) :
    Matches (internClass name p) (Pool.internClass name pool) :=
  h.cached (h.store_ofText (fun _ _ ht => by simp [Lookup.item?, ht]) (by simp))

theorem Agrees.internNameAndType (h : p.Agrees pool) (name descriptor : String) :
    Matches (internNameAndType name descriptor p)
      (Pool.internNameAndType name descriptor pool) := by
  refine h.cached (x := .nameAndType name descriptor) fun hnew => ?_
  rw [bind_assoc]
  refine (h.internText name).bind (Pool.simulates_internText h.valid name) ?_
  intro i q pool' hq _ hi hkept
  rw [bind_assoc]
  refine (hq.internText descriptor).bind (Pool.simulates_internText hq.valid descriptor) ?_
  intro j q' pool'' hq' hgrows hj hkept'
  have hi := Lookup.resolve_utf8.1 (hgrows.sub.resolve hi)
  exact hq'.store_add (by simp [Lookup.item?, hi, Lookup.resolve_utf8.1 hj])
    (hkept' _ (by simp) (hkept _ (by simp) hnew))

/-- Both pools give the same answer to a request, and agree behind it. -/
theorem Agrees.intern (h : p.Agrees pool) (x : Item) :
    Matches (intern x p) (Pool.intern x pool) := by
  cases x with
  | utf8 text => exact h.internText text
  | integer | float | long | double => exact h.cached (h.store_add rfl)
  | classInfo name => exact h.internClass name
  | nameAndType name descriptor => exact h.internNameAndType name descriptor
  | string | methodType =>
    exact h.cached (h.store_ofText (fun _ _ ht => by simp [Lookup.item?, ht]) (by simp))
  | member kind owner name descriptor =>
    refine h.cached fun hnew => ?_
    rw [bind_assoc]
    refine (h.internClass owner).bind (Pool.simulates_internClass h.valid owner) ?_
    intro i q pool' hq _ hi hkept
    rw [bind_assoc]
    refine (hq.internNameAndType name descriptor).bind
      (Pool.simulates_internNameAndType hq.valid name descriptor) ?_
    intro j q' pool'' hq' hgrows hj hkept'
    have hi := Lookup.resolve_classInfo.1 (hgrows.sub.resolve hi)
    exact hq'.store_add (by simp [Lookup.item?, hi, Lookup.resolve_nameAndType.1 hj])
      (hkept' _ (by simp) (hkept _ (by simp) hnew))

/-- Makes every request, also behind one that failed. -/
def internAll (requests : List Item) (p : CachedPool) : CachedPool :=
  requests.foldl (fun p x => (intern x p).2) p

theorem Agrees.internAll (h : p.Agrees pool) (requests : List Item) :
    (internAll requests p).Agrees (Pool.internAll requests pool) := by
  induction requests generalizing p pool with
  | nil => exact h
  | cons x requests ih => exact ih (h.intern x).agrees

/-- After any run of requests on new pools, failed ones included, both pools hold the same constants
at the same indices, are encoded alike, and give the same answer to the next request. -/
theorem internAll_agrees (requests : List Item) :
    let p := internAll requests {}
    let pool := Pool.internAll requests {}
    p.size = pool.size ∧ (∀ i, p.get? i = pool.get? i) ∧ p.encode = pool.encode ∧
      ∀ x, (intern x p).1 = (Pool.intern x pool).1 := by
  intro p pool
  have h : p.Agrees pool := agrees_empty.internAll requests
  exact ⟨h.size_eq, h.get?_eq, h.encode_eq, fun x => (h.intern x).result⟩

end CachedPool
end JvmLisp.Jvm
