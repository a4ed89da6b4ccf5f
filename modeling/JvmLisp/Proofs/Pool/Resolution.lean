import JvmLisp.Proofs.Pool.Structure

/-! # What an index means

An index resolves to an item: the constant at the index, with the texts that it refers to in place
of their indices. Resolution needs only a way to look constants up, so it serves the table of a pool
and a table that was read back from a file alike.

In a valid pool every index in use resolves, different indices resolve to different items, and what
an index resolves to stays the same when the pool grows.
-/

namespace JvmLisp.Jvm

/-- Constants by index. -/
abbrev Lookup := UInt16 → Option Constant

namespace Lookup

variable {get get' : Lookup} {c : Constant} {i : UInt16} {x : Item}

def text? (get : Lookup) (i : UInt16) : Option String :=
  match get i with
  | some (.utf8 text) => some text
  | _ => none

def className? (get : Lookup) (i : UInt16) : Option String :=
  match get i with
  | some (.classInfo name) => get.text? name
  | _ => none

def signature? (get : Lookup) (i : UInt16) : Option (String × String) :=
  match get i with
  | some (.nameAndType name descriptor) => do return (← get.text? name, ← get.text? descriptor)
  | _ => none

/-- A constant by its texts and values. -/
def item? (get : Lookup) : Constant → Option Item
  | .utf8 text => some (.utf8 text)
  | .integer value => some (.integer value)
  | .float bits => some (.float bits)
  | .long value => some (.long value)
  | .double bits => some (.double bits)
  | .classInfo name => (get.text? name).map .classInfo
  | .string text => (get.text? text).map .string
  | .methodType descriptor => (get.text? descriptor).map .methodType
  | .nameAndType name descriptor => do
    return .nameAndType (← get.text? name) (← get.text? descriptor)
  | .member kind owner signature => do
    let owner ← get.className? owner
    let (name, descriptor) ← get.signature? signature
    return .member kind owner name descriptor

/-- The item at an index. -/
def resolve (get : Lookup) (i : UInt16) : Option Item :=
  get i >>= get.item?

theorem text?_eq_some {t : String} : get.text? i = some t ↔ get i = some (.utf8 t) := by
  unfold text?
  split <;> simp_all

theorem className?_eq_some {t : String} :
    get.className? i = some t ↔ ∃ n, get i = some (.classInfo n) ∧ get n = some (.utf8 t) := by
  unfold className?
  split <;> simp_all [text?_eq_some]

theorem signature?_eq_some {n d : String} :
    get.signature? i = some (n, d) ↔ ∃ j k, get i = some (.nameAndType j k) ∧
      get j = some (.utf8 n) ∧ get k = some (.utf8 d) := by
  unfold signature?
  split <;> simp_all [text?_eq_some, Option.bind_eq_some_iff]

/-- Everything that one table holds stands in the other at the same index. -/
def Sub (get get' : Lookup) : Prop :=
  ∀ i c, get i = some c → get' i = some c

theorem Sub.text? {t : String} (h : get.Sub get') (ht : get.text? i = some t) :
    get'.text? i = some t := by
  rw [text?_eq_some] at *
  exact h _ _ ht

theorem Sub.className? {t : String} (h : get.Sub get') (ht : get.className? i = some t) :
    get'.className? i = some t := by
  rw [className?_eq_some] at *
  obtain ⟨n, hn, ht⟩ := ht
  exact ⟨n, h _ _ hn, h _ _ ht⟩

theorem Sub.signature? {s : String × String} (h : get.Sub get') (hs : get.signature? i = some s) :
    get'.signature? i = some s := by
  rw [signature?_eq_some] at *
  obtain ⟨j, k, hi, hj, hk⟩ := hs
  exact ⟨j, k, h _ _ hi, h _ _ hj, h _ _ hk⟩

theorem Sub.item? (h : get.Sub get') (hx : get.item? c = some x) : get'.item? c = some x := by
  cases c with
  | utf8 | integer | float | long | double => exact hx
  | classInfo n | string n | methodType n =>
    obtain ⟨t, ht, rfl⟩ := Option.map_eq_some_iff.1 hx
    simp [Lookup.item?, h.text? ht]
  | nameAndType n d =>
    obtain ⟨t, ht, u, hu, rfl⟩ := by simpa [Lookup.item?, Option.bind_eq_some_iff] using hx
    simp [Lookup.item?, h.text? ht, h.text? hu]
  | member kind o s =>
    obtain ⟨t, ht, n, d, hs, rfl⟩ := by simpa [Lookup.item?, Option.bind_eq_some_iff] using hx
    simp [Lookup.item?, h.className? ht, h.signature? hs]

theorem resolve_eq_some : get.resolve i = some x ↔ ∃ c, get i = some c ∧ get.item? c = some x := by
  simp [resolve, Option.bind_eq_some_iff]

theorem resolve_utf8 {t : String} : get.resolve i = some (.utf8 t) ↔ get.text? i = some t := by
  rw [resolve_eq_some, text?_eq_some]
  constructor
  · rintro ⟨c, hc, hx⟩
    cases c <;> simp_all [item?, Option.bind_eq_some_iff]
  · intro h
    exact ⟨_, h, rfl⟩

theorem resolve_classInfo {t : String} :
    get.resolve i = some (.classInfo t) ↔ get.className? i = some t := by
  rw [resolve_eq_some, className?_eq_some]
  constructor
  · rintro ⟨c, hc, hx⟩
    cases c <;> simp_all [item?, Option.bind_eq_some_iff, text?_eq_some]
  · rintro ⟨n, hn, ht⟩
    exact ⟨_, hn, by simp [item?, text?_eq_some.2 ht]⟩

theorem resolve_nameAndType {n d : String} :
    get.resolve i = some (.nameAndType n d) ↔ get.signature? i = some (n, d) := by
  rw [resolve_eq_some, signature?_eq_some]
  constructor
  · rintro ⟨c, hc, hx⟩
    cases c <;> simp_all [item?, Option.bind_eq_some_iff, text?_eq_some]
  · rintro ⟨j, k, hi, hj, hk⟩
    exact ⟨_, hi, by simp [item?, text?_eq_some.2 hj, text?_eq_some.2 hk]⟩

theorem resolve_long {value : Int64} :
    get.resolve i = some (.long value) ↔ get i = some (.long value) := by
  rw [resolve_eq_some]
  constructor
  · rintro ⟨c, hc, hx⟩
    cases c <;> simp_all [item?, Option.bind_eq_some_iff]
  · intro h
    exact ⟨_, h, rfl⟩

theorem Sub.resolve (h : get.Sub get') (hx : get.resolve i = some x) : get'.resolve i = some x := by
  rw [resolve_eq_some] at *
  obtain ⟨c, hc, hx⟩ := hx
  exact ⟨c, h _ _ hc, h.item? hx⟩

end Lookup

/-- The number of indices that an item takes. -/
def Item.width : Item → Nat
  | long _ | double _ => 2
  | _ => 1

theorem Lookup.width_of_item? {get : Lookup} {c : Constant} {x : Item}
    (h : get.item? c = some x) : x.width = c.width := by
  cases c with
  | utf8 | integer | float | long | double =>
    obtain rfl := Option.some.inj h
    rfl
  | classInfo | string | methodType =>
    obtain ⟨t, ht, rfl⟩ := Option.map_eq_some_iff.1 h
    rfl
  | nameAndType n d =>
    obtain ⟨t, ht, u, hu, rfl⟩ := by simpa [Lookup.item?, Option.bind_eq_some_iff] using h
    rfl
  | member kind o s =>
    obtain ⟨t, ht, n, d, hs, rfl⟩ := by simpa [Lookup.item?, Option.bind_eq_some_iff] using h
    rfl

theorem Lookup.sum_width_filterMap {get : Lookup} {cs : List Constant}
    (h : ∀ c ∈ cs, ∃ x, get.item? c = some x) :
    ((cs.filterMap get.item?).map Item.width).sum = (cs.map Constant.width).sum := by
  induction cs with
  | nil => rfl
  | cons c cs ih =>
    obtain ⟨x, hx⟩ := h c (by simp)
    rw [List.filterMap_cons_some hx]
    simp [Lookup.width_of_item? hx, ih fun d hd => h d (by simp [hd])]

namespace Constant

variable {c : Constant}

theorem eq_utf8_of_tag (h : c.tag = 1) : ∃ text, c = .utf8 text := by
  cases c with
  | utf8 text => exact ⟨text, rfl⟩
  | member kind => cases kind <;> simp [tag, MemberKind.tag] at h
  | _ => simp [tag] at h

theorem eq_classInfo_of_tag (h : c.tag = 7) : ∃ name, c = .classInfo name := by
  cases c with
  | classInfo name => exact ⟨name, rfl⟩
  | member kind => cases kind <;> simp [tag, MemberKind.tag] at h
  | _ => simp [tag] at h

theorem eq_nameAndType_of_tag (h : c.tag = 12) : ∃ name type, c = .nameAndType name type := by
  cases c with
  | nameAndType name type => exact ⟨name, type, rfl⟩
  | member kind => cases kind <;> simp [tag, MemberKind.tag] at h
  | _ => simp [tag] at h

end Constant

namespace Pool

variable {pool pool' : Pool} {c d : Constant} {i j : UInt16} {x : Item}

/-- The item at an index of a pool. -/
abbrev resolve (pool : Pool) (i : UInt16) : Option Item :=
  Lookup.resolve pool.get? i

/-- The items of a pool, in the order in which they were added. -/
def items (pool : Pool) : List Item :=
  pool.constants.filterMap (Lookup.item? pool.get?)

theorem Extends.sub (h : pool.Extends pool') : Lookup.Sub pool.get? pool'.get? :=
  fun _ _ hc => h.get? hc

theorem text?_of_tag (h : ∃ d, pool.get? i = some d ∧ d.tag = 1) :
    ∃ t, Lookup.text? pool.get? i = some t := by
  obtain ⟨d, hd, htag⟩ := h
  obtain ⟨t, rfl⟩ := Constant.eq_utf8_of_tag htag
  exact ⟨t, Lookup.text?_eq_some.2 hd⟩

theorem Valid.className?_of_tag (h : pool.Valid) (hi : ∃ d, pool.get? i = some d ∧ d.tag = 7) :
    ∃ t, Lookup.className? pool.get? i = some t := by
  obtain ⟨d, hd, htag⟩ := hi
  obtain ⟨n, rfl⟩ := Constant.eq_classInfo_of_tag htag
  obtain ⟨t, ht⟩ := text?_of_tag (h.supports _ _ hd (n, 1) (by simp [Constant.references]))
  exact ⟨t, Lookup.className?_eq_some.2 ⟨n, hd, Lookup.text?_eq_some.1 ht⟩⟩

theorem Valid.signature?_of_tag (h : pool.Valid) (hi : ∃ d, pool.get? i = some d ∧ d.tag = 12) :
    ∃ s, Lookup.signature? pool.get? i = some s := by
  obtain ⟨d, hd, htag⟩ := hi
  obtain ⟨n, m, rfl⟩ := Constant.eq_nameAndType_of_tag htag
  obtain ⟨t, ht⟩ := text?_of_tag (h.supports _ _ hd (n, 1) (by simp [Constant.references]))
  obtain ⟨u, hu⟩ := text?_of_tag (h.supports _ _ hd (m, 1) (by simp [Constant.references]))
  rw [Lookup.text?_eq_some] at ht hu
  exact ⟨(t, u), Lookup.signature?_eq_some.2 ⟨n, m, hd, ht, hu⟩⟩

theorem Valid.item?_of_supports (h : pool.Valid) (hc : pool.Supports c) :
    ∃ x, Lookup.item? pool.get? c = some x := by
  cases c with
  | utf8 | integer | float | long | double => exact ⟨_, rfl⟩
  | classInfo n | string n | methodType n =>
    obtain ⟨t, ht⟩ := text?_of_tag (hc (n, 1) (by simp [Constant.references]))
    exact ⟨_, by rw [Lookup.item?, ht]; rfl⟩
  | nameAndType n d =>
    obtain ⟨t, ht⟩ := text?_of_tag (hc (n, 1) (by simp [Constant.references]))
    obtain ⟨u, hu⟩ := text?_of_tag (hc (d, 1) (by simp [Constant.references]))
    exact ⟨_, by rw [Lookup.item?, ht, hu]; rfl⟩
  | member kind o s =>
    obtain ⟨t, ht⟩ := h.className?_of_tag (hc (o, 7) (by simp [Constant.references]))
    obtain ⟨u, hu⟩ := h.signature?_of_tag (hc (s, 12) (by simp [Constant.references]))
    exact ⟨_, by rw [Lookup.item?, ht, hu]; rfl⟩

theorem Valid.item?_of_mem (h : pool.Valid) (hc : c ∈ pool.constants) :
    ∃ x, Lookup.item? pool.get? c = some x := by
  obtain ⟨i, hi⟩ := h.mem_constants.1 hc
  exact h.item?_of_supports (h.supports i c hi)

/-- Every index in use resolves. -/
theorem Valid.map_some_filterMap (h : pool.Valid) {cs : List Constant} (hcs : cs ⊆ pool.constants) :
    (cs.filterMap (Lookup.item? pool.get?)).map some = cs.map (Lookup.item? pool.get?) := by
  rw [List.map_filterMap_some_eq_filter_map_isSome, List.filter_eq_self]
  intro x hx
  obtain ⟨c, hc, rfl⟩ := List.mem_map.1 hx
  obtain ⟨y, hy⟩ := h.item?_of_mem (hcs hc)
  rw [hy]
  rfl

theorem Valid.resolve_of_get? (h : pool.Valid) (hc : pool.get? i = some c) :
    ∃ x, Lookup.item? pool.get? c = some x ∧ pool.resolve i = some x := by
  obtain ⟨x, hx⟩ := h.item?_of_supports (h.supports i c hc)
  exact ⟨x, hx, Lookup.resolve_eq_some.2 ⟨c, hc, hx⟩⟩

theorem Valid.className?_inj (h : pool.Valid) {t : String}
    (hi : Lookup.className? pool.get? i = some t) (hj : Lookup.className? pool.get? j = some t) :
    i = j := by
  obtain ⟨n, hi, hn⟩ := Lookup.className?_eq_some.1 hi
  obtain ⟨m, hj, hm⟩ := Lookup.className?_eq_some.1 hj
  rw [h.index_unique hn hm] at hi
  exact h.index_unique hi hj

theorem Valid.signature?_inj (h : pool.Valid) {s : String × String}
    (hi : Lookup.signature? pool.get? i = some s) (hj : Lookup.signature? pool.get? j = some s) :
    i = j := by
  obtain ⟨n, m, hi, hn, hm⟩ := Lookup.signature?_eq_some.1 hi
  obtain ⟨n', m', hj, hn', hm'⟩ := Lookup.signature?_eq_some.1 hj
  rw [h.index_unique hn hn', h.index_unique hm hm'] at hi
  exact h.index_unique hi hj

/-- Constants with the same meaning are the same, as texts stand in the pool only once. -/
theorem Valid.item?_inj (h : pool.Valid) (hc : Lookup.item? pool.get? c = some x)
    (hd : Lookup.item? pool.get? d = some x) : c = d := by
  have text {n m : UInt16} {t : String} (hn : Lookup.text? pool.get? n = some t)
      (hm : Lookup.text? pool.get? m = some t) : n = m :=
    h.index_unique (Lookup.text?_eq_some.1 hn) (Lookup.text?_eq_some.1 hm)
  cases c <;> cases d <;>
    simp only [Lookup.item?, Option.map_eq_some_iff, Option.bind_eq_bind, Option.bind_eq_some_iff,
      Option.pure_def, Option.some.injEq, Prod.exists] at hc hd <;>
    grind [h.className?_inj, h.signature?_inj]

/-! ### The items of a pool -/

theorem Valid.mem_items (h : pool.Valid) : x ∈ pool.items ↔ ∃ i, pool.resolve i = some x := by
  simp only [items, List.mem_filterMap, h.mem_constants, Lookup.resolve_eq_some]
  constructor
  · rintro ⟨c, ⟨i, hi⟩, hx⟩
    exact ⟨i, c, hi, hx⟩
  · rintro ⟨i, c, hi, hx⟩
    exact ⟨c, ⟨i, hi⟩, hx⟩

theorem Valid.long_mem_items (h : pool.Valid) {value : Int64} :
    .long value ∈ pool.items ↔ ∃ i, pool.get? i = some (.long value) := by
  rw [h.mem_items]
  exact exists_congr fun i => Lookup.resolve_long

/-- A constant is found under an index if and only if the pool has its item. -/
theorem Valid.find_iff (h : pool.Valid) (hx : Lookup.item? pool.get? c = some x) :
    (∃ i, pool.index[c]? = some i) ↔ x ∈ pool.items := by
  rw [h.mem_items]
  constructor
  · rintro ⟨i, hi⟩
    exact ⟨i, Lookup.resolve_eq_some.2 ⟨c, (h.index_iff c i).1 hi, hx⟩⟩
  · rintro ⟨i, hi⟩
    obtain ⟨d, hd, hdx⟩ := Lookup.resolve_eq_some.1 hi
    obtain rfl := h.item?_inj hx hdx
    exact ⟨i, (h.index_iff c i).2 hd⟩

theorem Valid.sum_width_items (h : pool.Valid) :
    (pool.items.map Item.width).sum = (pool.constants.map Constant.width).sum :=
  Lookup.sum_width_filterMap fun _ => h.item?_of_mem

/-- No item occurs twice. -/
theorem Valid.nodup_items (h : pool.Valid) : pool.items.Nodup := by
  rw [items, List.Nodup, List.pairwise_filterMap]
  apply h.nodup.imp
  intro c d hne x hx y hy hxy
  subst hxy
  exact hne (h.item?_inj hx hy)

theorem Valid.items_append (h : pool.Valid) (hx : Lookup.item? pool.get? c = some x) :
    (pool.append c).items = pool.items ++ [x] := by
  have hsub := (extends_append pool c).sub
  have hold : ∀ d ∈ pool.constants,
      Lookup.item? (pool.append c).get? d = Lookup.item? pool.get? d := by
    intro d hd
    obtain ⟨y, hy⟩ := h.item?_of_mem hd
    rw [hy, hsub.item? hy]
  rw [items, constants_append, List.filterMap_append, List.filterMap_congr hold,
    List.filterMap_cons_some (hsub.item? hx)]
  rfl

end Pool
end JvmLisp.Jvm
