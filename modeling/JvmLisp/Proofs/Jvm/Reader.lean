import JvmLisp.Bytes
import Mathlib.Tactic

/-! # Reading bytes

Readers for parts of a list of bytes. What the encoder writes is read back, whatever follows it.
-/

namespace JvmLisp.Jvm

/-- Reads a value at the start of a list of bytes. -/
abbrev Reader := StateT (List UInt8) Option

namespace Reader

variable {α β : Type}

@[simp] theorem bind_apply (r : Reader α) (k : α → Reader β) (s : List UInt8) :
    (r >>= k) s = (r s).bind fun p => k p.1 p.2 := rfl

@[simp] theorem pure_apply (x : α) (s : List UInt8) : (pure x : Reader α) s = some (x, s) := rfl

theorem bind_of_eq {r : Reader α} {k : α → Reader β} {s s' : List UInt8} {x : α}
    (h : r s = some (x, s')) : (r >>= k) s = k x s' := by
  rw [bind_apply, h, Option.bind_some]

@[simp] theorem map_apply (f : α → β) (r : Reader α) (s : List UInt8) :
    (f <$> r) s = (r s).map fun p => (f p.1, p.2) := by
  change (r s).bind _ = _
  cases r s <;> rfl

def u1 : Reader UInt8
  | b :: bytes => some (b, bytes)
  | [] => none

def u2 : Reader UInt16 := do
  let high ← u1
  let low ← u1
  return UInt16.ofNat (2 ^ 8 * high.toNat + low.toNat)

def u4 : Reader UInt32 := do
  let high ← u2
  let low ← u2
  return UInt32.ofNat (2 ^ 16 * high.toNat + low.toNat)

def u8 : Reader UInt64 := do
  let high ← u4
  let low ← u4
  return UInt64.ofNat (2 ^ 32 * high.toNat + low.toNat)

/-- Reads a number of bytes as they are. -/
def bytes (n : Nat) : Reader (List UInt8) := fun s =>
  if n ≤ s.length then some (s.take n, s.drop n) else none

/-- Reads a number of values, one after another. -/
def times : Nat → Reader α → Reader (List α)
  | 0, _ => return []
  | n + 1, r => do
    let x ← r
    let xs ← times n r
    return x :: xs

@[simp] theorem u1_cons (b : UInt8) (rest : List UInt8) : u1 (b :: rest) = some (b, rest) := rfl

@[simp] theorem u2_append (n : UInt16) (rest : List UInt8) :
    u2 (Bytes.ofUInt16 n ++ rest) = some (n, rest) := by
  have hn : UInt16.ofNat (2 ^ 8 * (n >>> 8).toUInt8.toNat + n.toUInt8.toNat) = n := by
    apply UInt16.toNat.inj
    simp [Nat.shiftRight_eq_div_pow]
    have hlt := n.toNat_lt
    omega
  simp only [u2, Bytes.ofUInt16, List.cons_append, List.nil_append, bind_apply, u1_cons,
    Option.bind_some, hn, pure_apply]

@[simp] theorem u4_append (n : UInt32) (rest : List UInt8) :
    u4 (Bytes.ofUInt32 n ++ rest) = some (n, rest) := by
  have hn : UInt32.ofNat (2 ^ 16 * (n >>> 16).toUInt16.toNat + n.toUInt16.toNat) = n := by
    apply UInt32.toNat.inj
    simp [Nat.shiftRight_eq_div_pow]
    have hlt := n.toNat_lt
    omega
  simp only [u4, Bytes.ofUInt32, List.append_assoc, bind_apply, u2_append, Option.bind_some, hn,
    pure_apply]

@[simp] theorem u8_append (n : UInt64) (rest : List UInt8) :
    u8 (Bytes.ofUInt64 n ++ rest) = some (n, rest) := by
  have hn : UInt64.ofNat (2 ^ 32 * (n >>> 32).toUInt32.toNat + n.toUInt32.toNat) = n := by
    apply UInt64.toNat.inj
    simp [Nat.shiftRight_eq_div_pow]
    have hlt := n.toNat_lt
    omega
  simp only [u8, Bytes.ofUInt64, List.append_assoc, bind_apply, u4_append, Option.bind_some, hn,
    pure_apply]

@[simp] theorem bytes_append (bs rest : List UInt8) :
    bytes bs.length (bs ++ rest) = some (bs, rest) := by
  simp [bytes]

theorem times_flatten {r : Reader α} {xs : List α} {bss : List (List UInt8)}
    (h : List.Forall₂ (fun x bs => ∀ rest, r (bs ++ rest) = some (x, rest)) xs bss)
    (rest : List UInt8) : times xs.length r (bss.flatten ++ rest) = some (xs, rest) := by
  induction h with
  | nil => rfl
  | cons hx _ ih => simp [times, hx, ih]

/-! ### Progress -/

/-- Nothing is put back. -/
def Shrinks (r : Reader α) : Prop :=
  ∀ s p, r s = some p → p.2.length ≤ s.length

theorem shrinks_pure (x : α) : Shrinks (pure x) := by
  intro s p h
  cases h
  exact le_rfl

theorem shrinks_failure : Shrinks (failure : Reader α) := by
  intro s p h
  cases h

theorem Shrinks.bind {r : Reader α} {k : α → Reader β} (h : r.Shrinks) (h' : ∀ x, (k x).Shrinks) :
    (r >>= k).Shrinks := by
  intro s p hp
  obtain ⟨q, hq, hp⟩ := Option.bind_eq_some_iff.1 hp
  exact (h' q.1 q.2 p hp).trans (h s q hq)

theorem u1_length_lt {s : List UInt8} {p : UInt8 × List UInt8} (h : u1 s = some p) :
    p.2.length < s.length := by
  cases s with
  | nil => cases h
  | cons b s =>
    cases h
    exact Nat.lt_succ_self _

theorem shrinks_u1 : u1.Shrinks := fun _ _ h => (u1_length_lt h).le

theorem shrinks_u2 : u2.Shrinks :=
  shrinks_u1.bind fun _ => shrinks_u1.bind fun _ => shrinks_pure _

theorem shrinks_u4 : u4.Shrinks :=
  shrinks_u2.bind fun _ => shrinks_u2.bind fun _ => shrinks_pure _

theorem shrinks_u8 : u8.Shrinks :=
  shrinks_u4.bind fun _ => shrinks_u4.bind fun _ => shrinks_pure _

theorem shrinks_bytes (n : Nat) : (bytes n).Shrinks := by
  intro s p h
  rw [bytes] at h
  split_ifs at h
  cases h
  rw [List.length_drop]
  exact Nat.sub_le ..

/-- At least one byte is taken. -/
def Consumes (r : Reader α) : Prop :=
  ∀ s p, r s = some p → p.2.length < s.length

theorem consumes_u1_bind {k : UInt8 → Reader α} (h : ∀ b, (k b).Shrinks) : (u1 >>= k).Consumes := by
  intro s p hp
  obtain ⟨q, hq, hp⟩ := Option.bind_eq_some_iff.1 hp
  exact (h q.1 q.2 p hp).trans_lt (u1_length_lt hq)

/-! ### All of the bytes -/

/-- Reads values until no byte is left. -/
def toEnd (r : Reader α) (h : r.Consumes) (s : List UInt8) : Option (List α) :=
  if s = [] then some [] else
    match _h : r s with
    | none => none
    | some (x, rest) => (toEnd r h rest).map (x :: ·)
termination_by s.length
decreasing_by exact h _ _ _h

theorem toEnd_append {r : Reader α} (h : r.Consumes) {x : α} {bs rest : List UInt8}
    (hread : r (bs ++ rest) = some (x, rest)) :
    toEnd r h (bs ++ rest) = (toEnd r h rest).map (x :: ·) := by
  have hne : bs ++ rest ≠ [] := by
    intro hnil
    have hlt := h _ _ hread
    rw [hnil] at hlt
    exact absurd hlt (Nat.not_lt_zero _)
  rw [toEnd, if_neg hne]
  split
  · rename_i hnone
    cases hnone.symm.trans hread
  · rename_i x' rest' hsome
    cases hsome.symm.trans hread
    rfl

/-- Values that are each read back, whatever follows, are read back from their bytes in a row. -/
theorem toEnd_flatMap {r : Reader α} (h : r.Consumes) {encode : α → List UInt8} {xs : List α}
    (hread : ∀ x ∈ xs, ∀ rest, r (encode x ++ rest) = some (x, rest)) :
    toEnd r h (xs.flatMap encode) = some xs := by
  induction xs with
  | nil =>
    rw [List.flatMap_nil, toEnd]
    rfl
  | cons x xs ih =>
    rw [List.forall_mem_cons] at hread
    rw [List.flatMap_cons, toEnd_append h (hread.1 _), ih hread.2, Option.map_some]

end Reader

end JvmLisp.Jvm
