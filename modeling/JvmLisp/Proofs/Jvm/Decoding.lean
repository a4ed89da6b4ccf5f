import JvmLisp.Jvm.Class
import JvmLisp.Proofs.Jvm.Reader
import JvmLisp.Proofs.Pool.Capacity
import JvmLisp.Proofs.Pool.Runs

/-! # Reading class files

A class file is read into an image: its constants by index, its fields and methods, and their
attributes. The image of an encoded class has the constants of the pool at their indices, and the
code of each method as it was encoded.
-/

namespace JvmLisp.Jvm

theorem except_bind_eq_ok {α β : Type} {m : Except Error α} {k : α → Except Error β} {y : β} :
    (m >>= k) = .ok y ↔ ∃ x, m = .ok x ∧ k x = .ok y := by
  cases m <;> simp [bind, Except.bind]

theorem forall₂_of_mapM_eq_ok {α β : Type} {f : α → Except Error β} {xs : List α} {ys : List β}
    (h : xs.mapM f = .ok ys) : List.Forall₂ (fun x y => f x = .ok y) xs ys := by
  induction xs generalizing ys with
  | nil =>
    cases h
    exact .nil
  | cons x xs ih =>
    rw [List.mapM_cons] at h
    obtain ⟨y, hx, h⟩ := except_bind_eq_ok.1 h
    obtain ⟨ys', hxs, h⟩ := except_bind_eq_ok.1 h
    cases h
    exact .cons hx (ih hxs)

theorem exists_mapM_eq_ok {α β : Type} {f : α → Except Error β} {xs : List α}
    (h : ∀ x ∈ xs, ∃ y, f x = .ok y) : ∃ ys, xs.mapM f = .ok ys := by
  induction xs with
  | nil => exact ⟨[], rfl⟩
  | cons x xs ih =>
    rw [List.forall_mem_cons] at h
    obtain ⟨y, hy⟩ := h.1
    obtain ⟨ys, hys⟩ := ih h.2
    rw [List.mapM_cons]
    exact ⟨y :: ys, except_bind_eq_ok.2 ⟨y, hy, except_bind_eq_ok.2 ⟨ys, hys, rfl⟩⟩⟩

/-! ### Constants -/

/-- The text that bytes encode with one byte for each character. -/
def textOf? (bytes : List UInt8) : Option String :=
  if bytes.all fun b => 0 < b.toNat ∧ b.toNat < 128 then
    some (String.ofList (bytes.map fun b => Char.ofNat b.toNat))
  else none

theorem ofText_eq {text : String} (h : Storable text) :
    Bytes.ofText text = text.toList.map fun c => UInt8.ofNat c.toNat := by
  have hflat : Bytes.ofText text = text.toList.flatMap String.utf8EncodeChar := by
    rw [Bytes.ofText, String.toUTF8_eq_toByteArray, ← String.ofList_toList (s := text),
      String.toByteArray_ofList, List.utf8Encode, List.toList_data_toByteArray,
      String.ofList_toList]
  rw [hflat, List.map_eq_flatMap]
  apply List.flatMap_congr
  intro c hc
  have hsize : c.utf8Size = 1 := by
    rw [Char.utf8Size_eq_one_iff, UInt32.le_iff_toNat_le]
    exact Nat.le_of_lt_succ (h.1 c hc).2
  rw [String.utf8EncodeChar_eq_singleton hsize]
  rfl

theorem textOf?_ofText {text : String} (h : Storable text) :
    textOf? (Bytes.ofText text) = some text := by
  have htoNat : ∀ c ∈ text.toList, (UInt8.ofNat c.toNat).toNat = c.toNat := by
    intro c hc
    rw [UInt8.toNat_ofNat']
    have hlt := (h.1 c hc).2
    omega
  rw [ofText_eq h, textOf?, if_pos]
  · rw [List.map_map]
    have hchar : ∀ c ∈ text.toList,
        ((fun b => Char.ofNat b.toNat) ∘ fun c => UInt8.ofNat c.toNat) c = id c := by
      intro c hc
      simp [htoNat c hc]
    rw [List.map_congr_left hchar, List.map_id, String.ofList_toList]
  · rw [List.all_eq_true]
    intro b hb
    rw [decide_eq_true_eq]
    obtain ⟨c, hc, rfl⟩ := List.mem_map.1 hb
    rw [htoNat c hc]
    exact h.1 c hc

theorem length_ofText (text : String) : (Bytes.ofText text).length = text.utf8ByteSize := rfl

namespace Reader

def text : Reader String := do
  let length ← u2
  let content ← bytes length.toNat
  match textOf? content with
  | some text => return text
  | none => failure

def constant : Reader Constant := do
  match ← u1 with
  | 1 => return .utf8 (← text)
  | 3 => return .integer (← u4).toInt32
  | 4 => return .float (← u4)
  | 5 => return .long (← u8).toInt64
  | 6 => return .double (← u8)
  | 7 => return .classInfo (← u2)
  | 8 => return .string (← u2)
  | 9 => return .member .field (← u2) (← u2)
  | 10 => return .member .method (← u2) (← u2)
  | 11 => return .member .interfaceMethod (← u2) (← u2)
  | 12 => return .nameAndType (← u2) (← u2)
  | 16 => return .methodType (← u2)
  | _ => failure

/-- Reads the constants that take a number of indices. -/
def slots : Nat → Reader (List (Option Constant))
  | 0 => return []
  | n + 1 => do
    let c ← constant
    if c.width ≤ n + 1 then
      let more ← slots (n + 1 - c.width)
      return c.cells ++ more
    else failure
termination_by n => n
decreasing_by
  have hpos := c.width_pos
  omega

/-- Reads a constant pool. There is no constant at index zero. -/
def pool : Reader (List (Option Constant)) := do
  let count ← u2
  let more ← slots (count.toNat - 1)
  return none :: more

theorem text_append {t : String} (h : Storable t) (rest : List UInt8) :
    text (Bytes.ofUInt16 (UInt16.ofNat t.utf8ByteSize) ++ Bytes.ofText t ++ rest) =
      some (t, rest) := by
  have hlength : (UInt16.ofNat t.utf8ByteSize).toNat = (Bytes.ofText t).length := by
    rw [length_ofText, UInt16.toNat_ofNat']
    exact Nat.mod_eq_of_lt (Nat.lt_succ_of_le h.2)
  simp [text, hlength, textOf?_ofText h]

theorem constant_append {c : Constant} {bs : List UInt8} (hbs : c.encode = .ok bs)
    (htext : ∀ text, c = .utf8 text → Storable text) (rest : List UInt8) :
    constant (bs ++ rest) = some (c, rest) := by
  rcases hpayload : c.payload with e | payload <;> rw [Constant.encode_eq, hpayload] at hbs <;>
    cases hbs
  cases c with
  | utf8 t =>
    have ht := htext t rfl
    have hread := text_append ht rest
    have hsize : t.utf8ByteSize ≤ Constant.maxTextBytes := ht.2
    rw [Constant.payload, if_pos hsize] at hpayload
    cases hpayload
    rw [List.append_assoc] at hread
    simp [constant, Constant.tag, hread]
  | member kind owner signature =>
    cases hpayload
    cases kind <;> simp [constant, Constant.tag, MemberKind.tag]
  | _ =>
    cases hpayload
    simp [constant, Constant.tag]

/-- Encoded constants are read back into the cells of the table. -/
theorem slots_append {cs : List Constant} {bss : List (List UInt8)}
    (hbss : List.Forall₂ (fun c bs => c.encode = .ok bs) cs bss)
    (htext : ∀ text, .utf8 text ∈ cs → Storable text) (rest : List UInt8) :
    slots (cs.map Constant.width).sum (bss.flatten ++ rest) =
      some (cs.flatMap Constant.cells, rest) := by
  induction hbss with
  | nil => simp [slots]
  | @cons c bs cs bss hbs _ ih =>
    have hread := constant_append hbs (fun text hc => htext text (by simp [hc]))
    have hmore := ih fun text hc => htext text (List.mem_cons_of_mem _ hc)
    obtain ⟨n, hn⟩ : ∃ n, c.width + (cs.map Constant.width).sum = n + 1 :=
      Nat.exists_eq_add_one.2 (by have := c.width_pos; omega)
    have hle : c.width ≤ n + 1 := by omega
    have hsub : n + 1 - c.width = (cs.map Constant.width).sum := by omega
    rw [List.map_cons, List.sum_cons, hn, slots]
    simp [hread, hle, hsub, hmore]

/-- An encoded pool is read back. -/
theorem pool_append {p : Pool} {bs : List UInt8} (h : p.Valid) (hbs : p.encode = .ok bs)
    (htext : ∀ text, .utf8 text ∈ p.constants → Storable text) (rest : List UInt8) :
    pool (bs ++ rest) = some (p.slots.toList, rest) := by
  obtain ⟨count, hcount, hbs⟩ := except_bind_eq_ok.1 hbs
  obtain ⟨bss, hbss, hbs⟩ := except_bind_eq_ok.1 hbs
  cases hbs
  cases h.count_eq.symm.trans hcount
  have hconstants : List.Forall₂ (fun c bs => c.encode = .ok bs) p.constants bss := by
    rw [← Constant.map_snd_numbered 1 p.constants, ← h.entries_eq, List.forall₂_map_left_iff]
    exact forall₂_of_mapM_eq_ok hbss
  have hcells := slots_append hconstants htext rest
  have hsize : p.size = (p.constants.map Constant.width).sum := by
    rw [Pool.size, h.slots_size, Nat.add_sub_cancel_left]
  have htoNat : (p.size + 1) % 65536 - 1 = (p.constants.map Constant.width).sum := by
    have hmax := h.size_le_max
    omega
  rw [h.slots_eq]
  simp [pool, htoNat, hcells]

end Reader

/-! ### Classes -/

structure Attribute where
  name : UInt16
  content : List UInt8

/-- A field or a method. -/
structure Member where
  flags : UInt16
  name : UInt16
  descriptor : UInt16
  attributes : List Attribute

/-- The content of a class file, with its constants by index. -/
structure Image where
  minor : UInt16
  major : UInt16
  slots : List (Option Constant)
  flags : UInt16
  thisClass : UInt16
  superClass : UInt16
  interfaces : List UInt16
  fields : List Member
  methods : List Member
  attributes : List Attribute

/-- The content of the attribute `Code`. -/
structure Code where
  maxStack : UInt16
  maxLocals : UInt16
  code : List UInt8
  handlers : List (List UInt8)
  attributes : List Attribute

namespace Reader

/-- Reads a table, which is preceded by its length. -/
def table {α : Type} (r : Reader α) : Reader (List α) := do
  let count ← u2
  times count.toNat r

@[simp] theorem table_zero {α : Type} (r : Reader α) (rest : List UInt8) :
    table r (Bytes.ofUInt16 0 ++ rest) = some ([], rest) := by
  simp [table, times]

@[simp] theorem table_zero_end {α : Type} (r : Reader α) :
    table r (Bytes.ofUInt16 0) = some ([], []) :=
  table_zero r []

/-- Reads bytes to their end. -/
def all? {α : Type} (r : Reader α) (bytes : List UInt8) : Option α :=
  match r bytes with
  | some (x, []) => some x
  | _ => none

end Reader

open Reader (u2 u4 bytes table)

def Attribute.read : Reader Attribute := do
  let name ← u2
  let length ← u4
  return ⟨name, ← bytes length.toNat⟩

def Member.read : Reader Member :=
  return ⟨← u2, ← u2, ← u2, ← table Attribute.read⟩

def Image.read : Reader Image := do
  let magic ← u4
  if magic = 0xCAFEBABE then
    return ⟨← u2, ← u2, ← Reader.pool, ← u2, ← u2, ← u2, ← table u2, ← table Member.read,
      ← table Member.read, ← table Attribute.read⟩
  else failure

def Code.read : Reader Code := do
  let maxStack ← u2
  let maxLocals ← u2
  let length ← u4
  return ⟨maxStack, maxLocals, ← bytes length.toNat, ← table (bytes 8), ← table Attribute.read⟩

namespace Image

def get (image : Image) : Lookup := fun i => image.slots[i.toNat]?.join

theorem get_mk (minor major : UInt16) (p : Pool) (flags this super : UInt16)
    (interfaces : List UInt16) (fields methods : List Member) (attributes : List Attribute) :
    get ⟨minor, major, p.slots.toList, flags, this, super, interfaces, fields, methods,
      attributes⟩ = p.get? := by
  funext i
  simp [get, Pool.get?]

/-- The method with a name and a descriptor. -/
def method? (image : Image) (name descriptor : String) : Option Member :=
  image.methods.find? fun m =>
    image.get.text? m.name = some name ∧ image.get.text? m.descriptor = some descriptor

/-- The code of a method. -/
def code? (image : Image) (m : Member) : Option Code := do
  let a ← m.attributes.find? fun a => image.get.text? a.name = some "Code"
  Code.read.all? a.content

end Image

/-! ### Encoded classes -/

/-- The content of the attribute. -/
def CodeAttribute.content (a : CodeAttribute) : List UInt8 :=
  Bytes.ofUInt16 a.maxStack ++ Bytes.ofUInt16 a.maxLocals ++
    Bytes.ofUInt32 (UInt32.ofNat a.code.length) ++ a.code ++ Bytes.ofUInt16 0 ++ Bytes.ofUInt16 0

def Method.member (m : Method) : Member :=
  ⟨m.flags, m.name, m.descriptor, [⟨m.codeName, m.code.content⟩]⟩

theorem Code.read_content {a : CodeAttribute} (h : a.code.length < 2 ^ 32) :
    read.all? a.content = some ⟨a.maxStack, a.maxLocals, a.code, [], []⟩ := by
  have hlength : a.code.length % 4294967296 = a.code.length := Nat.mod_eq_of_lt h
  simp [Reader.all?, read, CodeAttribute.content, hlength]

theorem CodeAttribute.payload_eq_ok {a : CodeAttribute} {bs : List UInt8} :
    a.payload = .ok bs ↔ a.code.length < 2 ^ 32 ∧ a.content = bs := by
  rw [payload]
  split <;> simp_all [content]

theorem Member.read_append {m : Method} {bs : List UInt8} (h : m.encode = .ok bs)
    (rest : List UInt8) : read (bs ++ rest) = some (m.member, rest) := by
  obtain ⟨payload, hpayload, h⟩ := except_bind_eq_ok.1 h
  obtain ⟨-, rfl⟩ := CodeAttribute.payload_eq_ok.1 hpayload
  split at h
  · rename_i hlength
    have hlength : m.code.content.length % 4294967296 = m.code.content.length :=
      Nat.mod_eq_of_lt hlength
    cases h
    simp [read, table, Reader.times, Attribute.read, hlength, Method.member]
  · cases h

theorem Member.read_table {c : Class} {count : UInt16} {bss : List (List UInt8)}
    (hcount : c.methodCount = .ok count) (hbss : c.methods.toList.mapM Method.encode = .ok bss)
    (rest : List UInt8) :
    table read (Bytes.ofUInt16 count ++ (bss.flatten ++ rest)) =
      some (c.methods.toList.map Method.member, rest) := by
  have hread : List.Forall₂ (fun m bs => ∀ rest, read (bs ++ rest) = some (m, rest))
      (c.methods.toList.map Method.member) bss := by
    rw [List.forall₂_map_left_iff]
    exact (forall₂_of_mapM_eq_ok hbss).imp fun m bs => Member.read_append
  have htoNat : count.toNat = (c.methods.toList.map Method.member).length := by
    rw [Class.methodCount] at hcount
    split at hcount
    · rename_i hsize
      cases hcount
      simp
      omega
    · cases hcount
  simpa [table, htoNat] using Reader.times_flatten hread rest

/-- The image of an encoded class. -/
theorem Image.read_encode {c : Class} {p : Pool} {bs : List UInt8} (hp : p.Valid)
    (htext : ∀ text, .utf8 text ∈ p.constants → Storable text) (h : c.encode p = .ok bs) :
    read.all? bs = some ⟨Class.minorVersion, Class.majorVersion, p.slots.toList, c.flags,
      c.thisClass, c.superClass, [], [], c.methods.toList.map Method.member, []⟩ := by
  obtain ⟨constants, hconstants, h⟩ := except_bind_eq_ok.1 h
  obtain ⟨count, hcount, h⟩ := except_bind_eq_ok.1 h
  obtain ⟨bss, hbss, h⟩ := except_bind_eq_ok.1 h
  cases h
  have hmagic : Class.magic = 0xCAFEBABE := rfl
  simp only [Reader.all?, List.append_assoc]
  rw [read, Reader.bind_of_eq (Reader.u4_append Class.magic _), if_pos hmagic,
    Reader.bind_of_eq (Reader.u2_append Class.minorVersion _),
    Reader.bind_of_eq (Reader.u2_append Class.majorVersion _),
    Reader.bind_of_eq (Reader.pool_append hp hconstants htext _),
    Reader.bind_of_eq (Reader.u2_append c.flags _),
    Reader.bind_of_eq (Reader.u2_append c.thisClass _),
    Reader.bind_of_eq (Reader.u2_append c.superClass _),
    Reader.bind_of_eq (Reader.table_zero u2 _),
    Reader.bind_of_eq (Reader.table_zero Member.read _),
    Reader.bind_of_eq (Member.read_table hcount hbss _),
    Reader.bind_of_eq (Reader.table_zero_end Attribute.read), Reader.pure_apply]

/-! ### Success -/

theorem Constant.exists_encode {c : Constant} (htext : ∀ text, c = .utf8 text → Storable text) :
    ∃ bs, c.encode = .ok bs := by
  cases c with
  | utf8 text =>
    have hsize : text.utf8ByteSize ≤ maxTextBytes := (htext text rfl).2
    rw [encode_eq, payload, if_pos hsize]
    exact ⟨_, rfl⟩
  | _ => exact ⟨_, rfl⟩

theorem Pool.Sound.exists_encode {p : Pool} (h : p.Sound) : ∃ bs, p.encode = .ok bs := by
  have hconstants : ∀ e ∈ p.entries, ∃ bs, e.2.encode = .ok bs := by
    rintro ⟨n, c⟩ he
    have hc : c ∈ p.constants := by
      rw [h.valid.entries_eq] at he
      rw [← Constant.map_snd_numbered 1 p.constants]
      exact List.mem_map_of_mem he
    exact Constant.exists_encode fun text hc' => h.storable (hc' ▸ hc)
  obtain ⟨bss, hbss⟩ := exists_mapM_eq_ok hconstants
  exact ⟨_, except_bind_eq_ok.2 ⟨_, h.valid.count_eq, except_bind_eq_ok.2 ⟨bss, hbss, rfl⟩⟩⟩

theorem Method.exists_encode {m : Method} (h : m.code.code.length ≤ 65535) :
    ∃ bs, m.encode = .ok bs := by
  have hcode : m.code.payload = .ok m.code.content :=
    CodeAttribute.payload_eq_ok.2 ⟨by omega, rfl⟩
  have hlength : m.code.content.length < 2 ^ 32 := by
    simp only [CodeAttribute.content, Bytes.ofUInt32, Bytes.ofUInt16, List.length_append,
      List.length_cons, List.length_nil]
    omega
  rw [encode, hcode]
  exact ⟨_, if_pos hlength⟩

theorem Class.exists_encode {c : Class} {p : Pool} (hp : p.Sound) (hsize : c.methods.size ≤ 65535)
    (hmethods : ∀ m ∈ c.methods.toList, m.code.code.length ≤ 65535) :
    ∃ bs, c.encode p = .ok bs := by
  obtain ⟨constants, hconstants⟩ := hp.exists_encode
  obtain ⟨bss, hbss⟩ := exists_mapM_eq_ok fun m hm => Method.exists_encode (hmethods m hm)
  exact ⟨_, except_bind_eq_ok.2 ⟨constants, hconstants, except_bind_eq_ok.2
    ⟨_, if_pos hsize, except_bind_eq_ok.2 ⟨bss, hbss, rfl⟩⟩⟩⟩

end JvmLisp.Jvm
