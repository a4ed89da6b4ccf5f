import JvmLisp.Proofs.Pool.Deduplication

/-! # Refusal

A request adds the items that are missing for it one by one, and stops at the first that is refused.
What it added before stays. So the outcome can be told from the pool and the request alone: which
item is refused, why, and what is left behind.
-/

namespace JvmLisp.Jvm

/-! ### Why an item is refused -/

/-- What is wrong with a text: its first character that is not ASCII or is NUL, or else its length. -/
inductive TextFault (text : String) : Cause → Prop
  | character {front back : List Char} {c : Char} (split : text.toList = front ++ c :: back)
      (plain : ∀ d ∈ front, 0 < d.toNat ∧ d.toNat < 128) (bad : ¬(0 < c.toNat ∧ c.toNat < 128)) :
      TextFault text (.unencodable (if c.toNat = 0 then .nul text else .notAscii c text))
  | length (plain : ∀ c ∈ text.toList, 0 < c.toNat ∧ c.toNat < 128)
      (long : 65535 < text.utf8ByteSize) :
      TextFault text (.limit (.textLength text.utf8ByteSize))

/-- Why an item cannot be added when a number of indices are in use. A text must be valid before
there has to be room for it. -/
inductive Item.Refused (used : Nat) : Item → Cause → Prop
  | text {text : String} {cause : Cause} (fault : TextFault text cause) :
      Refused used (.utf8 text) cause
  | room {x : Item} (storable : ∀ text, x = .utf8 text → Storable text)
      (full : 65534 < used + x.width) : Refused used x (.limit .poolSize)

/-- What the check of a text looks for, in terms of the characters that it lets pass. -/
theorem Pool.plain_iff (c : Char) :
    (!(c.toNat = 0 || c.toNat > 127 : Bool)) = true ↔ 0 < c.toNat ∧ c.toNat < 128 := by
  simp only [Bool.not_eq_true', Bool.or_eq_false_iff, decide_eq_false_iff_not]
  omega

/-- A text that fails its check fails it for a fault. -/
theorem Pool.checkText_eq_error {text : String} {e : Error} (h : checkText text = .error e) :
    ∃ cause, TextFault text cause ∧ e = { cause } := by
  rw [checkText] at h
  split at h
  · rename_i c hc
    obtain rfl := Except.error.inj h
    obtain ⟨hbad, front, back, hsplit, hfront⟩ := List.find?_eq_some_iff_append.1 hc
    refine ⟨_, .character hsplit (fun d hd => (plain_iff d).1 (hfront d hd)) ?_, rfl⟩
    rw [← plain_iff, hbad]
    simp
  · rename_i hnone
    split at h
    · cases h
    · rename_i hlong
      obtain rfl := Except.error.inj h
      refine ⟨_, .length (fun c hc => (plain_iff c).1 ?_) (Nat.not_le.1 hlong), rfl⟩
      simpa using List.find?_eq_none.1 hnone c hc

/-- A text with a fault fails its check for this fault. -/
theorem TextFault.checkText {text : String} {cause : Cause} (h : TextFault text cause) :
    Pool.checkText text = .error { cause } := by
  rw [Pool.checkText]
  cases h with
  | @character front back c split plain bad =>
    have hfind : text.toList.find? (fun c => c.toNat = 0 || c.toNat > 127) = some c := by
      rw [List.find?_eq_some_iff_append]
      refine ⟨?_, front, back, split, fun d hd => (Pool.plain_iff d).2 (plain d hd)⟩
      rwa [← Pool.plain_iff, Bool.not_eq_true, Bool.not_eq_false'] at bad
    rw [hfind]
  | length plain long =>
    have hfind : text.toList.find? (fun c => c.toNat = 0 || c.toNat > 127) = none := by
      rw [List.find?_eq_none]
      intro c hc
      simpa using (Pool.plain_iff c).2 (plain c hc)
    rw [hfind]
    exact if_neg (Nat.not_le.2 long)

theorem TextFault.not_storable {text : String} {cause : Cause} (h : TextFault text cause) :
    ¬Storable text := by
  intro hstorable
  cases (Pool.checkText_eq_ok.2 hstorable).symm.trans h.checkText

theorem exists_textFault {text : String} (h : ¬Storable text) : ∃ cause, TextFault text cause := by
  cases hcheck : Pool.checkText text with
  | ok => exact absurd (Pool.checkText_eq_ok.1 hcheck) h
  | error e =>
    obtain ⟨cause, hfault, -⟩ := Pool.checkText_eq_error hcheck
    exact ⟨cause, hfault⟩

theorem Item.not_refused_iff {used : Nat} {x : Item} :
    (∀ cause, ¬x.Refused used cause) ↔
      (∀ text, x = .utf8 text → Storable text) ∧ used + x.width ≤ 65534 := by
  constructor
  · intro h
    have hstorable : ∀ text, x = .utf8 text → Storable text := by
      rintro text rfl
      by_contra hnot
      obtain ⟨cause, hfault⟩ := exists_textFault hnot
      exact h cause (.text hfault)
    refine ⟨hstorable, ?_⟩
    by_contra hfull
    exact h _ (.room hstorable (Nat.not_le.1 hfull))
  · rintro ⟨hstorable, hroom⟩ cause hrefused
    cases hrefused with
    | text fault => exact fault.not_storable (hstorable _ rfl)
    | room _ full => omega

/-! ### What is missing -/

/-- The items of a list that are not held, each of them once. -/
def missing (xs held : List Item) : List Item :=
  (xs.removeAll held).eraseDups

@[simp] theorem totalWidth_nil : totalWidth [] = 0 := rfl

@[simp] theorem totalWidth_cons (x : Item) (xs : List Item) :
    totalWidth (x :: xs) = x.width + totalWidth xs := by
  simp [totalWidth]

@[simp] theorem totalWidth_append (xs ys : List Item) :
    totalWidth (xs ++ ys) = totalWidth xs + totalWidth ys := by
  simp [totalWidth]

variable {x : Item} {xs ys held : List Item}

@[simp] theorem missing_nil : missing [] held = [] := rfl

theorem mem_missing : x ∈ missing xs held ↔ x ∈ xs ∧ x ∉ held := by
  simp [missing, List.removeAll]

theorem missing_cons_of_mem (h : x ∈ held) : missing (x :: xs) held = missing xs held := by
  simp [missing, List.removeAll, h]

/-- An item that is missing is held when the rest is looked at. -/
theorem missing_cons_of_notMem (h : x ∉ held) :
    missing (x :: xs) held = x :: missing xs (held ++ [x]) := by
  have hfirst : (x :: xs).removeAll held = x :: xs.removeAll held := by simp [List.removeAll, h]
  have hrest : (xs.removeAll held).filter (fun y => !y == x) = xs.removeAll (held ++ [x]) := by
    simp only [List.removeAll, List.filter_filter]
    apply List.filter_congr
    intro y _
    rw [Bool.eq_iff_iff]
    simp [and_comm]
  rw [missing, hfirst, List.eraseDups_cons, hrest, missing]

theorem missing_append :
    missing (xs ++ ys) held = missing xs held ++ missing ys (held ++ missing xs held) := by
  induction xs generalizing held with
  | nil => simp
  | cons x xs ih =>
    by_cases hx : x ∈ held
    · rw [List.cons_append, missing_cons_of_mem hx, missing_cons_of_mem hx, ih]
    · rw [List.cons_append, missing_cons_of_notMem hx, missing_cons_of_notMem hx, ih]
      simp

theorem nodup_missing (xs held : List Item) : (missing xs held).Nodup := by
  induction xs generalizing held with
  | nil => simp
  | cons x xs ih =>
    by_cases hx : x ∈ held
    · rw [missing_cons_of_mem hx]
      exact ih held
    · rw [missing_cons_of_notMem hx, List.nodup_cons, mem_missing]
      exact ⟨by simp, ih _⟩

/-! ### Adding items in order -/

/-- Each item in turn can be added, with those before it. -/
def AllAdmitted (used : Nat) (xs : List Item) : Prop :=
  ∀ front x back, xs = front ++ x :: back → ∀ cause, ¬x.Refused (used + totalWidth front) cause

theorem allAdmitted_nil (used : Nat) : AllAdmitted used [] := by
  intro front x back h
  simp at h

theorem allAdmitted_cons {used : Nat} :
    AllAdmitted used (x :: xs) ↔
      (∀ cause, ¬x.Refused used cause) ∧ AllAdmitted (used + x.width) xs := by
  constructor
  · intro h
    refine ⟨h [] x xs rfl, ?_⟩
    rintro front y back rfl
    simpa [Nat.add_assoc] using h (x :: front) y back rfl
  · rintro ⟨hx, hxs⟩ front y back h
    cases front with
    | nil =>
      obtain ⟨rfl, -⟩ := List.cons.inj h
      exact hx
    | cons z front =>
      obtain ⟨rfl, rfl⟩ := List.cons.inj h
      simpa [Nat.add_assoc] using hxs front y back rfl

/-- Items can be added one after another if the texts are valid and there is room for all. -/
theorem allAdmitted_iff {used : Nat} (hused : used ≤ 65534) :
    AllAdmitted used xs ↔
      (∀ text, .utf8 text ∈ xs → Storable text) ∧ used + totalWidth xs ≤ 65534 := by
  induction xs generalizing used with
  | nil => simpa [allAdmitted_nil] using hused
  | cons x xs ih =>
    rw [allAdmitted_cons, Item.not_refused_iff]
    constructor
    · rintro ⟨⟨hx, hroom⟩, hxs⟩
      obtain ⟨hstorable, hall⟩ := (ih hroom).1 hxs
      refine ⟨fun text htext => ?_, by rw [totalWidth_cons]; omega⟩
      rcases List.mem_cons.1 htext with htext | htext
      · exact hx text htext.symm
      · exact hstorable text htext
    · rintro ⟨hstorable, hall⟩
      rw [totalWidth_cons] at hall
      refine ⟨⟨fun text htext => hstorable text (by simp [htext]), by omega⟩, ?_⟩
      exact (ih (by omega)).2 ⟨fun text htext => hstorable text (by simp [htext]), by omega⟩

/-- An item that is not held is either added or the end. -/
theorem absorb_cons_of_notMem (h : x ∉ held) (xs : List Item) :
    ((∀ cause, ¬x.Refused (totalWidth held) cause) ∧
      absorb (x :: xs) held = absorb xs (held ++ [x])) ∨
    ∃ cause, x.Refused (totalWidth held) cause ∧
      absorb (x :: xs) held = (.error { cause }, held) := by
  rw [absorb, if_neg h]
  cases hcheck : x.check with
  | error e =>
    cases x with
    | utf8 text =>
      obtain ⟨cause, hfault, rfl⟩ := Pool.checkText_eq_error hcheck
      exact .inr ⟨cause, .text hfault, rfl⟩
    | _ => cases hcheck
  | ok =>
    have hstorable : ∀ text, x = .utf8 text → Storable text := by
      rintro text rfl
      exact Pool.checkText_eq_ok.1 hcheck
    have hmax : Pool.maxCount = 65535 := rfl
    by_cases hroom : 1 + totalWidth held + x.width ≤ Pool.maxCount
    · exact .inl ⟨Item.not_refused_iff.2 ⟨hstorable, by omega⟩, if_pos hroom⟩
    · exact .inr ⟨_, .room hstorable (by omega), if_neg hroom⟩

/-- All that is missing is added, or all before the first item that is refused. -/
theorem absorb_outcome (xs held : List Item) :
    (AllAdmitted (totalWidth held) (missing xs held) ∧
      absorb xs held = (.ok (), held ++ missing xs held)) ∨
    ∃ front x back cause, missing xs held = front ++ x :: back ∧
      AllAdmitted (totalWidth held) front ∧ x.Refused (totalWidth held + totalWidth front) cause ∧
      absorb xs held = (.error { cause }, held ++ front) := by
  induction xs generalizing held with
  | nil => exact .inl ⟨allAdmitted_nil _, by simp [absorb]⟩
  | cons x xs ih =>
    by_cases hx : x ∈ held
    · rw [missing_cons_of_mem hx, absorb, if_pos hx]
      exact ih held
    · rw [missing_cons_of_notMem hx]
      obtain ⟨hadmitted, habsorb⟩ | ⟨cause, hrefused, habsorb⟩ := absorb_cons_of_notMem hx xs
      · have hwidth : totalWidth (held ++ [x]) = totalWidth held + x.width := by simp
        rw [habsorb]
        obtain ⟨hall, hok⟩ | ⟨front, y, back, cause, hsplit, hall, hrefused, herror⟩ :=
          ih (held ++ [x])
        · rw [hwidth] at hall
          exact .inl ⟨allAdmitted_cons.2 ⟨hadmitted, hall⟩, by rw [hok]; simp⟩
        · rw [hwidth] at hall hrefused
          refine .inr ⟨x :: front, y, back, cause, by rw [hsplit]; rfl,
            allAdmitted_cons.2 ⟨hadmitted, hall⟩, ?_, by rw [herror]; simp⟩
          rwa [totalWidth_cons, ← Nat.add_assoc]
      · exact .inr ⟨[], x, _, cause, rfl, allAdmitted_nil _, hrefused, by simpa using habsorb⟩

/-- Absorbing adds what is asked for and nothing else. -/
theorem mem_of_absorb {held' : List Item} (h : absorb xs held = (.ok (), held')) (x : Item) :
    x ∈ held' ↔ x ∈ held ∨ x ∈ xs := by
  obtain ⟨-, hok⟩ | ⟨_, _, _, _, -, -, -, herror⟩ := absorb_outcome xs held
  · obtain ⟨-, rfl⟩ := Prod.mk.inj (h.symm.trans hok)
    rw [List.mem_append, mem_missing]
    by_cases hx : x ∈ held <;> simp [hx]
  · cases h.symm.trans herror

/-- What stops an absorption is a full pool, or an item that fails its check. -/
theorem absorb_eq_error {e : Error} (h : (absorb xs held).1 = .error e) :
    e.cause = .limit .poolSize ∨ ∃ x ∈ xs, x.check = .error e := by
  obtain ⟨-, hok⟩ | ⟨front, x, back, cause, hsplit, -, hrefused, herror⟩ := absorb_outcome xs held
  · rw [hok] at h
    cases h
  · rw [herror] at h
    obtain rfl := Except.error.inj h
    have hx : x ∈ missing xs held := by simp [hsplit]
    cases hrefused with
    | text fault => exact .inr ⟨_, (mem_missing.1 hx).1, fault.checkText⟩
    | room => exact .inl rfl

/-- Beside items that are valid, more can be added if their texts are valid and all that is missing
fits. -/
theorem absorb_ok_iff_missing (hheld : ∀ x ∈ held, x.check = .ok ())
    (hfits : totalWidth held ≤ 65534) :
    (absorb xs held).1 = .ok () ↔ (∀ text, .utf8 text ∈ xs → Storable text) ∧
      totalWidth held + totalWidth (missing xs held) ≤ 65534 := by
  have htexts : (∀ text, .utf8 text ∈ missing xs held → Storable text) ↔
      ∀ text, .utf8 text ∈ xs → Storable text := by
    apply forall_congr'
    intro text
    rw [mem_missing]
    constructor
    · intro h hmem
      by_cases hold : Item.utf8 text ∈ held
      · exact Pool.checkText_eq_ok.1 (hheld _ hold)
      · exact h ⟨hmem, hold⟩
    · intro h hmem
      exact h hmem.1
  rw [← htexts, ← allAdmitted_iff hfits]
  obtain ⟨hall, hok⟩ | ⟨front, x, back, cause, hsplit, -, hrefused, herror⟩ :=
    absorb_outcome xs held
  · simp [hok, hall]
  · rw [herror]
    simp only [reduceCtorEq, false_iff]
    intro hall
    exact hall front x back hsplit cause hrefused

/-! ### Requests -/

namespace Pool

variable {pool pool' : Pool}

/-- The constants of items were appended, one after another. -/
def ExtendsBy (pool : Pool) (added : List Item) (pool' : Pool) : Prop :=
  ∃ cs : List Constant, pool' = cs.foldl append pool ∧
    cs.map (Lookup.item? pool'.get?) = added.map some

theorem items_foldl_append (h : pool.Valid) (cs : List Constant) :
    (cs.foldl append pool).items =
      pool.items ++ cs.filterMap (Lookup.item? (cs.foldl append pool).get?) := by
  have hgrows : pool.Extends (cs.foldl append pool) := ⟨cs, rfl⟩
  rw [items, constants_foldl_append, List.filterMap_append]
  congr 1
  apply List.filterMap_congr
  intro c hc
  obtain ⟨x, hx⟩ := h.item?_of_mem hc
  rw [hx, hgrows.sub.item? hx]

theorem ExtendsBy.items {added : List Item} (h : pool.ExtendsBy added pool') (hpool : pool.Valid) :
    pool'.items = pool.items ++ added := by
  obtain ⟨cs, rfl, hmeaning⟩ := h
  have hadded := congrArg (List.filterMap id) hmeaning
  rw [items_foldl_append hpool]
  simpa [List.filterMap_map] using hadded

theorem Extends.extendsBy {added : List Item} (hgrows : pool.Extends pool') (h : pool.Valid)
    (h' : pool'.Valid) (hitems : pool'.items = pool.items ++ added) :
    pool.ExtendsBy added pool' := by
  obtain ⟨cs, rfl⟩ := hgrows
  rw [items_foldl_append h] at hitems
  refine ⟨cs, rfl, ?_⟩
  rw [← List.append_cancel_left hitems, h'.map_some_filterMap]
  intro c hc
  simp [constants_foldl_append, hc]

end Pool

/-- The item itself comes last, after what it refers to. -/
theorem Item.exists_parts_eq (x : Item) : ∃ front, x.parts = front ++ [x] ∧ x ∉ front := by
  cases x with
  | utf8 | integer | float | long | double => exact ⟨[], rfl, by simp⟩
  | classInfo name => exact ⟨[.utf8 name], rfl, by simp⟩
  | string text => exact ⟨[.utf8 text], rfl, by simp⟩
  | methodType descriptor => exact ⟨[.utf8 descriptor], rfl, by simp⟩
  | nameAndType name descriptor => exact ⟨[.utf8 name, .utf8 descriptor], rfl, by simp⟩
  | member kind owner name descriptor =>
    exact ⟨[.utf8 owner, .classInfo owner, .utf8 name, .utf8 descriptor,
      .nameAndType name descriptor], rfl, by simp⟩

/-- Of what is missing for an item that is not held, the item itself comes last. -/
theorem notMem_of_missing_parts {y : Item} {front back : List Item} (hx : x ∉ held)
    (h : missing x.parts held = front ++ y :: back) : x ∉ front := by
  obtain ⟨before, hparts, hbefore⟩ := x.exists_parts_eq
  have hlast : missing x.parts held = missing before held ++ [x] := by
    have hnew : x ∉ held ++ missing before held := by simp [hx, mem_missing, hbefore]
    rw [hparts, missing_append, missing_cons_of_notMem hnew, missing_nil]
  intro hmem
  have hnodup := nodup_missing x.parts held
  rw [h, List.nodup_append] at hnodup
  have hend : x ∈ y :: back := by
    have hsuffix : (y :: back).getLast? = some x := by
      rw [← List.getLast?_append_of_ne_nil front (by simp), ← h, hlast]
      simp
    exact List.mem_of_getLast? hsuffix
  exact hnodup.2.2 x hmem x hend rfl

namespace Pool

theorem Sound.absorb_ok_iff {pool : Pool} (h : pool.Sound) (xs : List Item) :
    (absorb xs pool.items).1 = .ok () ↔ (∀ text, .utf8 text ∈ xs → Storable text) ∧
      pool.size + totalWidth (missing xs pool.items) ≤ 65534 := by
  have hmax := h.valid.size_le_max
  rw [h.valid.size_eq] at hmax ⊢
  exact absorb_ok_iff_missing h.checked hmax

/-- The items that an operation adds, and the error if it does not add all. -/
theorem Simulates.outcome {pool : Pool} {outcome : Except Error UInt16 × Pool} {parts : List Item}
    (h : Simulates pool outcome parts x) (hpool : pool.Valid) :
    (∃ i, outcome.1 = .ok i ∧ outcome.2.items = pool.items ++ missing parts pool.items) ∨
    ∃ front y back cause, missing parts pool.items = front ++ y :: back ∧
      AllAdmitted pool.size front ∧ y.Refused (pool.size + totalWidth front) cause ∧
      outcome.1 = .error { cause } ∧ outcome.2.items = pool.items ++ front := by
  rw [hpool.size_eq]
  obtain ⟨-, hok⟩ | ⟨front, y, back, cause, hsplit, hall, hrefused, herror⟩ :=
    absorb_outcome parts pool.items
  · obtain ⟨hresult, hitems⟩ := Prod.mk.inj (h.absorbs.symm.trans hok)
    cases hfst : outcome.1 with
    | error e => simp [hfst, Except.map] at hresult
    | ok i => exact .inl ⟨i, rfl, hitems⟩
  · obtain ⟨hresult, hitems⟩ := Prod.mk.inj (h.absorbs.symm.trans herror)
    cases hfst : outcome.1 with
    | error e =>
      obtain rfl : e = { cause } := by simpa [hfst, Except.map] using hresult
      exact .inr ⟨front, y, back, cause, hsplit, hall, hrefused, rfl, hitems⟩
    | ok i => simp [hfst, Except.map] at hresult

/-- In a pool after any run of requests on a new one, failed ones included, a request succeeds if
and only if its texts are valid and there is room for what is missing. Then all of that is added, and
the index is that of the item. Otherwise what is missing is added up to the first item that is
refused, and the error says why this one is; all that the pool held stays where it was, and the
requested item is not there. -/
theorem internAll_intern (requests : List Item) (x : Item) :
    let pool := internAll requests {}
    let pool' := (intern x pool).2
    let needed := missing x.parts pool.items
    ((∃ i, (intern x pool).1 = .ok i) ↔ (∀ text, .utf8 text ∈ x.parts → Storable text) ∧
      pool.size + totalWidth needed ≤ 65534) ∧
    (∀ i, (intern x pool).1 = .ok i → pool.ExtendsBy needed pool' ∧ pool'.resolve i = some x) ∧
    ∀ e, (intern x pool).1 = .error e → ∃ front y back,
      needed = front ++ y :: back ∧ AllAdmitted pool.size front ∧
      y.Refused (pool.size + totalWidth front) e.cause ∧ e.location = none ∧
      pool.ExtendsBy front pool' ∧ (∀ i c, pool.get? i = some c → pool'.get? i = some c) ∧
      ∀ i, pool'.resolve i ≠ some x := by
  intro pool pool' needed
  have hpool : pool.Sound := sound_empty.internAll requests
  have hsim := simulates_intern hpool.valid x
  have houtcome := hsim.outcome hpool.valid
  refine ⟨?_, ?_, ?_⟩
  · rw [← hpool.absorb_ok_iff x.parts, hsim.absorbs]
    cases (intern x pool).1 <;> simp [Except.map]
  · intro i hi
    obtain ⟨_, -, hitems⟩ | ⟨_, _, _, _, -, -, -, herror, -⟩ := houtcome
    · exact ⟨hsim.grows.extendsBy hpool.valid hsim.valid hitems, hsim.index i hi⟩
    · rw [herror] at hi
      cases hi
  · intro e he
    obtain ⟨_, hok, -⟩ | ⟨front, y, back, cause, hsplit, hall, hrefused, herror, hitems⟩ := houtcome
    · rw [hok] at he
      cases he
    · obtain rfl := Except.error.inj (herror.symm.trans he)
      have hx : x ∉ pool.items := by
        intro hmem
        obtain ⟨i, hi⟩ := hpool.valid.mem_items.1 hmem
        rw [hpool.valid.intern_of_resolve hi] at he
        cases he
      refine ⟨front, y, back, hsplit, hall, hrefused, rfl,
        hsim.grows.extendsBy hpool.valid hsim.valid hitems, fun i c => hsim.grows.get?, ?_⟩
      intro i hi
      have hmem : x ∈ pool'.items := hsim.valid.mem_items.2 ⟨i, hi⟩
      rw [hitems, List.mem_append] at hmem
      exact hmem.elim hx (notMem_of_missing_parts hx hsplit)

/-- The text of the owner is there already. The owner is added, and the name is refused. -/
theorem internAll_intern_refused_name :
    let pool := internAll [.utf8 "A"] {}
    let x := Item.member .method "A" "é" "J"
    (intern x pool).1 = .error { cause := .unencodable (.notAscii 'é' "é") } ∧
      pool.ExtendsBy [.classInfo "A"] (intern x pool).2 ∧
      ∀ i, (intern x pool).2.resolve i ≠ some x := by
  intro pool x
  have hpool : pool.Valid := (valid_empty.internAll _).1
  have hitems : pool.items = [.utf8 "A"] := by
    rw [valid_empty.items_internAll]
    decide
  have habsorb : absorb x.parts pool.items =
      (.error { cause := .unencodable (.notAscii 'é' "é") }, [.utf8 "A", .classInfo "A"]) := by
    rw [hitems]
    decide
  obtain ⟨hresult, hitems'⟩ := Prod.mk.inj ((simulates_intern hpool x).absorbs.symm.trans habsorb)
  rcases hintern : (intern x pool).1 with e | i
  · obtain rfl : e = _ := by simpa [hintern, Except.map] using hresult
    obtain ⟨front, -, -, -, -, -, -, hadded, -, habsent⟩ := (internAll_intern _ x).2.2 _ hintern
    have hfront : [Item.utf8 "A"] ++ front = [.utf8 "A", .classInfo "A"] := by
      rw [← hitems, ← hitems']
      exact (hadded.items hpool).symm
    obtain rfl : front = [.classInfo "A"] := by simpa using hfront
    exact ⟨rfl, hadded, habsent⟩
  · simp [hintern, Except.map] at hresult

end Pool

end JvmLisp.Jvm
