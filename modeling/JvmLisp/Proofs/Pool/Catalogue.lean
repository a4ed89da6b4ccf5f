import JvmLisp.Proofs.Pool.Resolution

/-! # Pools as lists of items

Interning an item adds its parts, those it refers to first. Seen through `Pool.items`, this is an
operation on plain lists of items, `absorb`, which knows nothing of indices: the pool simulates it,
for operations that succeed and for those that fail halfway.
-/

namespace JvmLisp.Jvm

namespace Item

/-- The item with everything that it refers to, in the order of interning. -/
def parts : Item → List Item
  | classInfo name => [utf8 name, classInfo name]
  | string text => [utf8 text, string text]
  | methodType descriptor => [utf8 descriptor, methodType descriptor]
  | nameAndType name descriptor => [utf8 name, utf8 descriptor, nameAndType name descriptor]
  | member kind owner name descriptor =>
    [utf8 owner, classInfo owner, utf8 name, utf8 descriptor, nameAndType name descriptor,
      member kind owner name descriptor]
  | x => [x]

/-- Only texts can be refused for what they are. -/
def check : Item → Except Error Unit
  | utf8 text => Pool.checkText text
  | _ => .ok ()

end Item

/-- The indices that a list of items takes. -/
def totalWidth (items : List Item) : Nat :=
  (items.map Item.width).sum

/-- Adds items to a list that is to hold each of them once, up to the first that is refused. -/
def absorb : List Item → List Item → Except Error Unit × List Item
  | [], held => (.ok (), held)
  | x :: xs, held =>
    if x ∈ held then absorb xs held
    else match x.check with
      | .error e => (.error e, held)
      | .ok () =>
        if 1 + totalWidth held + x.width ≤ Pool.maxCount then absorb xs (held ++ [x])
        else (.error { cause := .limit .poolSize }, held)

theorem absorb_append (xs ys held : List Item) :
    absorb (xs ++ ys) held = match absorb xs held with
      | (.ok (), held) => absorb ys held
      | (.error e, held) => (.error e, held) := by
  induction xs generalizing held with
  | nil => rfl
  | cons x xs ih =>
    simp only [List.cons_append, absorb]
    split
    · exact ih held
    · split
      · rfl
      · split
        · exact ih _
        · rfl

/-- A computation that failed is not continued. -/
theorem bind_apply {σ α β : Type} (m : ExceptT Error (StateM σ) α)
    (k : α → ExceptT Error (StateM σ) β) (s : σ) :
    (m >>= k) s = match m s with
      | (.ok a, s) => k a s
      | (.error e, s) => (.error e, s) := by
  simp only [bind, ExceptT.bind, ExceptT.mk, StateT.bind]
  rcases m s with ⟨_ | _, _⟩ <;> rfl

theorem bind_eq_ok {σ α β : Type} {m : ExceptT Error (StateM σ) α}
    {k : α → ExceptT Error (StateM σ) β} {y : β} {a a' : σ} :
    (m >>= k) a = (.ok y, a') ↔ ∃ x a₁, m a = (.ok x, a₁) ∧ k x a₁ = (.ok y, a') := by
  rw [bind_apply]
  rcases m a with ⟨e | x, a₁⟩
  · constructor
    · intro h
      cases h
    · rintro ⟨_, _, h, -⟩
      cases h
  · constructor
    · intro h
      exact ⟨x, a₁, rfl, h⟩
    · rintro ⟨_, _, h, h'⟩
      cases h
      exact h'

namespace Pool

variable {pool pool' : Pool} {c : Constant} {i : UInt16} {x y : Item}

theorem supports_of_item? (hx : Lookup.item? pool.get? c = some x) : pool.Supports c := by
  have text {n : UInt16} {t : String} (h : Lookup.text? pool.get? n = some t) :
      ∃ d, pool.get? n = some d ∧ d.tag = 1 :=
    ⟨_, Lookup.text?_eq_some.1 h, rfl⟩
  intro r hr
  cases c with
  | utf8 | integer | float | long | double => simp [Constant.references] at hr
  | classInfo n | string n | methodType n =>
    obtain rfl := List.mem_singleton.1 hr
    obtain ⟨t, ht, -⟩ := Option.map_eq_some_iff.1 hx
    exact text ht
  | nameAndType n d =>
    obtain ⟨t, ht, u, hu, -⟩ := by simpa [Lookup.item?, Option.bind_eq_some_iff] using hx
    rcases List.mem_pair.1 hr with rfl | rfl
    · exact text ht
    · exact text hu
  | member kind o s =>
    obtain ⟨t, ht, n, d, hs, -⟩ := by simpa [Lookup.item?, Option.bind_eq_some_iff] using hx
    rcases List.mem_pair.1 hr with rfl | rfl
    · obtain ⟨n, hn, -⟩ := Lookup.className?_eq_some.1 ht
      exact ⟨_, hn, rfl⟩
    · obtain ⟨j, k, hj, -⟩ := Lookup.signature?_eq_some.1 hs
      exact ⟨_, hj, rfl⟩

/-- An operation on a pool that adds parts as `absorb` adds them to a list, and whose result, if it
has one, is the index of an item. -/
structure Simulates (pool : Pool) (outcome : Except Error UInt16 × Pool) (parts : List Item)
    (x : Item) : Prop where
  valid : outcome.2.Valid
  grows : pool.Extends outcome.2
  absorbs : absorb parts pool.items = (outcome.1.map fun _ => (), outcome.2.items)
  index : ∀ i, outcome.1 = .ok i → outcome.2.resolve i = some x

theorem Simulates.bind {m : Interning UInt16} {k : UInt16 → Interning UInt16}
    {parts parts' : List Item} (h : Simulates pool (m pool) parts x)
    (h' : ∀ i pool', pool'.Valid → pool.Extends pool' → pool'.resolve i = some x →
      Simulates pool' (k i pool') parts' y) :
    Simulates pool ((m >>= k) pool) (parts ++ parts') y := by
  obtain ⟨valid, grows, absorbs, index⟩ := h
  rw [bind_apply]
  rcases hm : m pool with ⟨_ | i, pool'⟩
  · rw [hm] at valid grows absorbs
    exact ⟨valid, grows, by rw [absorb_append, absorbs]; rfl, by simp⟩
  · rw [hm] at valid grows absorbs index
    have hk := h' i pool' valid grows (index i rfl)
    refine ⟨hk.valid, grows.trans hk.grows, ?_, hk.index⟩
    rw [absorb_append, absorbs]
    exact hk.absorbs

/-- A constant that is found is not added again. -/
theorem simulates_found (h : pool.Valid) (hx : Lookup.item? pool.get? c = some x)
    (hi : pool.index[c]? = some i) : Simulates pool (.ok i, pool) [x] x where
  valid := h
  grows := Extends.refl pool
  absorbs := by
    have hmem : x ∈ pool.items := (h.find_iff hx).1 ⟨i, hi⟩
    simp [absorb, hmem, Except.map]
  index j hj := by
    obtain rfl := Except.ok.inj hj
    exact Lookup.resolve_eq_some.2 ⟨c, (h.index_iff c i).1 hi, hx⟩

theorem simulates_push (h : pool.Valid) (hx : Lookup.item? pool.get? c = some x)
    (hnew : pool.index[c]? = none) (hcheck : x.check = .ok ()) :
    Simulates pool (push c pool) [x] x := by
  have hmem : x ∉ pool.items := by simp [← h.find_iff hx, hnew]
  have hsize : pool.slots.size = 1 + totalWidth pool.items := by
    rw [h.slots_size, totalWidth, h.sum_width_items]
  rw [push_eq]
  split
  · rename_i hroom
    refine ⟨h.append hroom hnew (supports_of_item? hx), extends_append pool c, ?_, ?_⟩
    · rw [hsize, ← Lookup.width_of_item? hx] at hroom
      simp [absorb, hmem, hcheck, hroom, h.items_append hx, Except.map]
    · intro j hj
      obtain rfl := Except.ok.inj hj
      refine Lookup.resolve_eq_some.2 ⟨c, ?_, (extends_append pool c).sub.item? hx⟩
      rw [get?_append hroom, if_pos rfl]
  · rename_i hroom
    refine ⟨h, Extends.refl pool, ?_, by simp⟩
    rw [hsize, ← Lookup.width_of_item? hx] at hroom
    simp [absorb, hmem, hcheck, hroom, Except.map]

/-- A text that is refused leaves the pool as it is. -/
theorem simulates_refused {e : Error} (h : pool.Valid) (hx : Lookup.item? pool.get? c = some x)
    (hnew : pool.index[c]? = none) (hcheck : x.check = .error e) :
    Simulates pool (.error e, pool) [x] x where
  valid := h
  grows := Extends.refl pool
  absorbs := by
    have hmem : x ∉ pool.items := by simp [← h.find_iff hx, hnew]
    simp [absorb, hmem, hcheck, Except.map]
  index := by simp

theorem simulates_add (h : pool.Valid) (hx : Lookup.item? pool.get? c = some x)
    (hcheck : x.check = .ok ()) : Simulates pool (add c pool) [x] x := by
  rw [add, bind_apply]
  simp only [find?]
  cases hindex : pool.index[c]? with
  | some i => exact simulates_found h hx hindex
  | none => exact simulates_push h hx hindex hcheck

theorem simulates_internText (h : pool.Valid) (text : String) :
    Simulates pool (internText text pool) [.utf8 text] (.utf8 text) := by
  have hx : Lookup.item? pool.get? (.utf8 text) = some (.utf8 text) := rfl
  rw [internText, bind_apply]
  simp only [find?]
  cases hindex : pool.index[Constant.utf8 text]? with
  | some i => exact simulates_found h hx hindex
  | none =>
    simp only [bind_apply]
    cases hcheck : checkText text with
    | error e => exact simulates_refused h hx hindex hcheck
    | ok _ => exact simulates_push h hx hindex hcheck

theorem simulates_internClass (h : pool.Valid) (name : String) :
    Simulates pool (internClass name pool) [.utf8 name, .classInfo name] (.classInfo name) := by
  apply (simulates_internText h name).bind
  intro i pool' h' _ hi
  exact simulates_add h' (by simp [Lookup.item?, Lookup.resolve_utf8.1 hi]) rfl

theorem simulates_internNameAndType (h : pool.Valid) (name descriptor : String) :
    Simulates pool (internNameAndType name descriptor pool)
      [.utf8 name, .utf8 descriptor, .nameAndType name descriptor]
      (.nameAndType name descriptor) := by
  apply (simulates_internText h name).bind
  intro i pool' h' _ hi
  apply (simulates_internText h' descriptor).bind
  intro j pool'' h'' hgrows hj
  have hi := Lookup.resolve_utf8.1 (hgrows.sub.resolve hi)
  exact simulates_add h'' (by simp [Lookup.item?, hi, Lookup.resolve_utf8.1 hj]) rfl

/-- Interning an item absorbs its parts, and gives the index that resolves to the item. -/
theorem simulates_intern (h : pool.Valid) (x : Item) :
    Simulates pool (intern x pool) x.parts x := by
  cases x with
  | utf8 text => exact simulates_internText h text
  | integer | float | long | double => exact simulates_add h rfl rfl
  | classInfo name => exact simulates_internClass h name
  | nameAndType name descriptor => exact simulates_internNameAndType h name descriptor
  | string text =>
    apply (simulates_internText h text).bind
    intro i pool' h' _ hi
    exact simulates_add h' (by simp [Lookup.item?, Lookup.resolve_utf8.1 hi]) rfl
  | methodType descriptor =>
    apply (simulates_internText h descriptor).bind
    intro i pool' h' _ hi
    exact simulates_add h' (by simp [Lookup.item?, Lookup.resolve_utf8.1 hi]) rfl
  | member kind owner name descriptor =>
    apply (simulates_internClass h owner).bind
    intro i pool' h' _ hi
    apply (simulates_internNameAndType h' name descriptor).bind
    intro j pool'' h'' hgrows hj
    have hi := Lookup.resolve_classInfo.1 (hgrows.sub.resolve hi)
    exact simulates_add h'' (by simp [Lookup.item?, hi, Lookup.resolve_nameAndType.1 hj]) rfl

end Pool
end JvmLisp.Jvm
