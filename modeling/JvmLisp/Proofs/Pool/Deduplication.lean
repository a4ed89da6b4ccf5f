import Mathlib.Logic.Relation
import JvmLisp.Proofs.Pool.Runs

/-! # Deduplication

In one run of requests an index and an item stand for each other: an item that was interned keeps
its index for the rest of the run, no other item gets this index, and asking for it again changes
nothing. The table is never searched by meaning, only by constants that hold indices, so this rests
on texts, and then all that refers to them, standing in it once.
-/

namespace JvmLisp.Jvm

/-- Items that are all held already are absorbed without a trace. -/
theorem absorb_of_subset {xs held : List Item} (h : xs ⊆ held) :
    absorb xs held = (.ok (), held) := by
  induction xs with
  | nil => rfl
  | cons x xs ih =>
    rw [List.cons_subset] at h
    rw [absorb, if_pos h.1]
    exact ih h.2

/-! ### Following references -/

namespace Lookup

variable {get : Lookup} {i j : UInt16} {x y : Item}

/-- The constant at an index refers to another index. -/
def Refers (get : Lookup) (i j : UInt16) : Prop :=
  ∃ c, get i = some c ∧ j ∈ c.references.map Prod.fst

/-- From an index, references lead to an item. -/
def Leads (get : Lookup) (i : UInt16) (x : Item) : Prop :=
  ∃ j, Relation.ReflTransGen get.Refers i j ∧ get.resolve j = some x

theorem leads_self (h : get.resolve i = some x) : get.Leads i x :=
  ⟨i, .refl, h⟩

theorem Refers.leads (h : get.Refers i j) (hx : get.Leads j x) : get.Leads i x := by
  obtain ⟨k, hk, hx⟩ := hx
  exact ⟨k, .head h hk, hx⟩

theorem Refers.leads_text {t : String} (h : get.Refers i j) (ht : get.text? j = some t) :
    get.Leads i (.utf8 t) :=
  h.leads (leads_self (resolve_utf8.2 ht))

theorem leads_of_className? {t : String} (h : get.className? i = some t)
    (hx : x ∈ (Item.classInfo t).parts) : get.Leads i x := by
  obtain ⟨n, hi, hn⟩ := className?_eq_some.1 h
  have hrefers : get.Refers i n := ⟨_, hi, by simp [Constant.references]⟩
  rcases List.mem_pair.1 hx with rfl | rfl
  · exact hrefers.leads_text (text?_eq_some.2 hn)
  · exact leads_self (resolve_classInfo.2 h)

theorem leads_of_signature? {n d : String} (h : get.signature? i = some (n, d))
    (hx : x ∈ (Item.nameAndType n d).parts) : get.Leads i x := by
  obtain ⟨j, k, hi, hj, hk⟩ := signature?_eq_some.1 h
  have hname : get.Refers i j := ⟨_, hi, by simp [Constant.references]⟩
  have hdescriptor : get.Refers i k := ⟨_, hi, by simp [Constant.references]⟩
  simp only [Item.parts, List.mem_cons, List.not_mem_nil, or_false] at hx
  rcases hx with rfl | rfl | rfl
  · exact hname.leads_text (text?_eq_some.2 hj)
  · exact hdescriptor.leads_text (text?_eq_some.2 hk)
  · exact leads_self (resolve_nameAndType.2 h)

/-- From the index of an item, references lead to all parts of the item. -/
theorem leads_of_mem_parts (hi : get.resolve i = some x) (hy : y ∈ x.parts) : get.Leads i y := by
  obtain ⟨c, hc, hcx⟩ := resolve_eq_some.1 hi
  have hrefers (j : UInt16) (hj : j ∈ c.references.map Prod.fst) : get.Refers i j := ⟨c, hc, hj⟩
  cases c with
  | utf8 | integer | float | long | double =>
    obtain rfl := Option.some.inj hcx
    obtain rfl := List.mem_singleton.1 hy
    exact leads_self hi
  | classInfo n | string n | methodType n =>
    obtain ⟨t, ht, rfl⟩ := Option.map_eq_some_iff.1 hcx
    rcases List.mem_pair.1 hy with rfl | rfl
    · exact (hrefers n (by simp [Constant.references])).leads_text ht
    · exact leads_self hi
  | nameAndType n d =>
    obtain ⟨t, -, u, -, rfl⟩ := by simpa [item?, Option.bind_eq_some_iff] using hcx
    exact leads_of_signature? (resolve_nameAndType.1 hi) hy
  | member kind o s =>
    obtain ⟨t, ht, n, d, hs, rfl⟩ := by simpa [item?, Option.bind_eq_some_iff] using hcx
    have hsplit : (Item.member kind t n d).parts =
        (Item.classInfo t).parts ++ ((Item.nameAndType n d).parts ++ [.member kind t n d]) := rfl
    rw [hsplit, List.mem_append, List.mem_append, List.mem_singleton] at hy
    rcases hy with hy | hy | rfl
    · exact (hrefers o (by simp [Constant.references])).leads (leads_of_className? ht hy)
    · exact (hrefers s (by simp [Constant.references])).leads (leads_of_signature? hs hy)
    · exact leads_self hi

end Lookup

namespace Pool

variable {pool pool' : Pool} {i j : UInt16} {x : Item}

/-- An item stands at one index only. -/
theorem Valid.resolve_inj (h : pool.Valid) (hi : pool.resolve i = some x)
    (hj : pool.resolve j = some x) : i = j := by
  obtain ⟨c, hc, hcx⟩ := Lookup.resolve_eq_some.1 hi
  obtain ⟨d, hd, hdx⟩ := Lookup.resolve_eq_some.1 hj
  obtain rfl := h.item?_inj hcx hdx
  exact h.index_unique hc hd

/-- A pool that has grown by nothing is the same pool. -/
theorem Extends.eq_of_items (hgrows : pool.Extends pool') (h : pool.Valid) (h' : pool'.Valid)
    (hitems : pool'.items = pool.items) : pool' = pool := by
  obtain ⟨added, rfl⟩ := hgrows
  have hwidth := h'.sum_width_items
  rw [hitems, h.sum_width_items, constants_foldl_append, List.map_append, List.sum_append] at hwidth
  cases added with
  | nil => rfl
  | cons c added =>
    have hpos := c.width_pos
    rw [List.map_cons, List.sum_cons] at hwidth
    omega

/-- What an item refers to is in the pool together with it. -/
theorem Valid.parts_subset (h : pool.Valid) (hi : pool.resolve i = some x) :
    x.parts ⊆ pool.items := by
  intro y hy
  obtain ⟨j, -, hj⟩ := Lookup.leads_of_mem_parts hi hy
  exact h.mem_items.2 ⟨j, hj⟩

/-! ### Requests -/

/-- An item that is present is found, and the pool stays as it is. -/
theorem Valid.intern_of_resolve (h : pool.Valid) (hi : pool.resolve i = some x) :
    intern x pool = (.ok i, pool) := by
  have hsim := simulates_intern h x
  have habsorbs := hsim.absorbs
  rw [absorb_of_subset (h.parts_subset hi)] at habsorbs
  rcases hintern : intern x pool with ⟨e | j, pool'⟩
  · rw [hintern] at habsorbs
    cases congrArg Prod.fst habsorbs
  · rw [hintern] at hsim habsorbs
    obtain rfl := hsim.grows.eq_of_items h hsim.valid (congrArg Prod.snd habsorbs).symm
    rw [h.resolve_inj (hsim.index j rfl) hi]

/-- The items after a run of requests, found without the pool. -/
theorem Valid.items_internAll (h : pool.Valid) (requests : List Item) :
    (Pool.internAll requests pool).items =
      requests.foldl (fun held x => (absorb x.parts held).2) pool.items := by
  induction requests generalizing pool with
  | nil => rfl
  | cons x requests ih =>
    have hx := simulates_intern h x
    rw [List.foldl_cons, hx.absorbs]
    exact ih hx.valid

/-- In a pool after any run of requests on a new one, failed ones included, no constant occurs
twice. If a request for an item then yields an index, the index resolves to the item whatever is
requested afterwards; asking again yields the index and leaves the pool as it is; and a later request
yields the same index if and only if it is for the same item. -/
theorem internAll_deduplicates (before : List Item) :
    let pool := internAll before {}
    (pool.entries.map Prod.snd).Nodup ∧
    ∀ x i, (intern x pool).1 = .ok i → ∀ between : List Item,
      let later := internAll between (intern x pool).2
      later.resolve i = some x ∧
      intern x later = (.ok i, later) ∧
      ∀ y j, (intern y later).1 = .ok j → (i = j ↔ x = y) := by
  intro pool
  have hpool : pool.Valid := (valid_empty.internAll before).1
  constructor
  · rw [hpool.entries_eq, Constant.map_snd_numbered]
    exact hpool.nodup
  · intro x i hi between later
    have hsim := simulates_intern hpool x
    obtain ⟨hlater, hgrows⟩ := hsim.valid.internAll between
    have hx : later.resolve i = some x := hgrows.sub.resolve (hsim.index i hi)
    refine ⟨hx, hlater.intern_of_resolve hx, ?_⟩
    intro y j hj
    have hsim' := simulates_intern hlater y
    have hy := hsim'.index j hj
    have hx' := hsim'.grows.sub.resolve hx
    constructor
    · rintro rfl
      exact Option.some.inj (hx'.symm.trans hy)
    · rintro rfl
      exact hsim'.valid.resolve_inj hx' hy

/-- A request that fails halfway, then a field, a text that the field shares, and a method that
differs from the field in its kind only. -/
theorem internAll_deduplicates_members :
    let field := Item.member .field "A" "x" "J"
    let method := Item.member .method "A" "x" "J"
    let pool := internAll [.member .method "A" "é" "J"] {}
    let later := internAll [.string "x"] (intern field pool).2
    ∃ i j, (intern field pool).1 = .ok i ∧ (intern method later).1 = .ok j ∧
      later.resolve i = some field ∧ intern field later = (.ok i, later) ∧ i ≠ j := by
  intro field method pool later
  have hpool : pool.Valid := (valid_empty.internAll _).1
  have hlater : later.Valid := ((simulates_intern hpool field).valid.internAll _).1
  have hitems : later.items = _ :=
    valid_empty.items_internAll [.member .method "A" "é" "J", field, .string "x"]
  have hfield : (absorb (field.parts ++ []) pool.items).1 = .ok () := by
    rw [valid_empty.items_internAll]
    decide
  have hmethod : (absorb (method.parts ++ []) later.items).1 = .ok () := by
    rw [hitems]
    decide
  obtain ⟨i, pool₁, hi, -⟩ := (simulates_intern hpool field).exists_ok hfield
  obtain ⟨j, pool₂, hj, -⟩ := (simulates_intern hlater method).exists_ok hmethod
  have hi := congrArg Prod.fst hi
  have hj := congrArg Prod.fst hj
  obtain ⟨hresolve, hagain, hother⟩ := (internAll_deduplicates _).2 field i hi [.string "x"]
  refine ⟨i, j, hi, hj, hresolve, hagain, fun hij => ?_⟩
  exact absurd ((hother method j hj).1 hij) (by decide)

end Pool

end JvmLisp.Jvm
