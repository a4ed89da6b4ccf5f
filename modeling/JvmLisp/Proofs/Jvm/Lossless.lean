import JvmLisp.Proofs.Jvm.Decoding
import Mathlib.Data.List.Forall2

/-! # Encoding loses nothing

A class with a pool that requests can lead to is always encoded, as long as its methods and their
code can be counted in two bytes each. From the bytes a reader that knows the format finds the pool
and the class again, field by field, so the bytes determine both.
-/

namespace JvmLisp.Jvm

open Reader (u2 u4)

/-- How a class file begins. -/
structure Header where
  magic : UInt32
  minor : UInt16
  major : UInt16
  /-- One more than the number of indices in the constant pool. -/
  count : UInt16

def Header.read : Reader Header :=
  return ⟨← u4, ← u2, ← u2, ← u2⟩

/-- A member of a class file is a method: it has one attribute, which is code to its last byte. -/
structure Member.Represents (r : Member) (m : Method) : Prop where
  flags : r.flags = m.flags
  name : r.name = m.name
  descriptor : r.descriptor = m.descriptor
  code : ∃ content, r.attributes = [⟨m.codeName, content⟩] ∧
    content.length = 12 + m.code.code.length ∧
    Code.read content = some (⟨m.code.maxStack, m.code.maxLocals, m.code.code, [], []⟩, [])

theorem Member.Represents.unique {r : Member} {m m' : Method} (h : r.Represents m)
    (h' : r.Represents m') : m = m' := by
  obtain ⟨content, hattributes, -, hcode⟩ := h.code
  obtain ⟨content', hattributes', -, hcode'⟩ := h'.code
  rw [hattributes] at hattributes'
  obtain ⟨hname, rfl⟩ : m.codeName = m'.codeName ∧ content = content' := by
    simpa using hattributes'
  rw [hcode] at hcode'
  have hflags := h.flags.symm.trans h'.flags
  have hmethod := h.name.symm.trans h'.name
  have hdescriptor := h.descriptor.symm.trans h'.descriptor
  rcases m with ⟨_, _, _, _, ⟨_, _, _⟩⟩
  rcases m' with ⟨_, _, _, _, ⟨_, _, _⟩⟩
  simp_all

theorem CodeAttribute.length_content (a : CodeAttribute) :
    a.content.length = 12 + a.code.length := by
  simp only [content, Bytes.ofUInt32, Bytes.ofUInt16, List.length_append, List.length_cons,
    List.length_nil]
  omega

theorem Reader.all?_eq_some {α : Type} {r : Reader α} {bytes : List UInt8} {x : α} :
    r.all? bytes = some x ↔ r bytes = some (x, []) := by
  unfold all?
  split <;> simp_all

/-- What is read back for a method represents it. -/
theorem Method.represents_member {m : Method} (h : m.code.code.length < 2 ^ 32) :
    m.member.Represents m where
  flags := rfl
  name := rfl
  descriptor := rfl
  code := ⟨m.code.content, rfl, m.code.length_content,
    Reader.all?_eq_some.1 (Code.read_content h)⟩

theorem Method.length_lt_of_encode {m : Method} {bs : List UInt8} (h : m.encode = .ok bs) :
    m.code.code.length < 2 ^ 32 := by
  obtain ⟨payload, hpayload, -⟩ := except_bind_eq_ok.1 h
  exact (CodeAttribute.payload_eq_ok.1 hpayload).1

theorem Class.represents_methods {c : Class} {p : Pool} {bs : List UInt8}
    (h : c.encode p = .ok bs) :
    List.Forall₂ Member.Represents (c.methods.toList.map Method.member) c.methods.toList := by
  obtain ⟨constants, -, h⟩ := except_bind_eq_ok.1 h
  obtain ⟨count, -, h⟩ := except_bind_eq_ok.1 h
  obtain ⟨bss, hbss, -⟩ := except_bind_eq_ok.1 h
  have hencoded := (forall₂_of_mapM_eq_ok hbss).imp fun m bs hbs =>
    And.intro (Method.length_lt_of_encode hbs) hbs
  have hlength := ((List.forall₂_and_left _ _).1 hencoded).1
  rw [List.forall₂_map_left_iff, List.forall₂_same]
  exact fun m hm => Method.represents_member (hlength m hm)

theorem Header.read_append (magic : UInt32) (minor major count : UInt16) (rest : List UInt8) :
    read (Bytes.ofUInt32 magic ++ (Bytes.ofUInt16 minor ++ (Bytes.ofUInt16 major ++
      (Bytes.ofUInt16 count ++ rest)))) = some (⟨magic, minor, major, count⟩, rest) := by
  simp [read]

theorem Header.read_encode {c : Class} {p : Pool} {bs : List UInt8} (hp : p.Valid)
    (h : c.encode p = .ok bs) :
    ∃ rest, read bs = some (⟨Class.magic, Class.minorVersion, Class.majorVersion,
      UInt16.ofNat (p.size + 1)⟩, rest) := by
  obtain ⟨constants, hconstants, h⟩ := except_bind_eq_ok.1 h
  obtain ⟨methodCount, -, h⟩ := except_bind_eq_ok.1 h
  obtain ⟨bss, -, h⟩ := except_bind_eq_ok.1 h
  obtain ⟨count, hcount, hconstants⟩ := except_bind_eq_ok.1 hconstants
  obtain ⟨entries, -, hconstants⟩ := except_bind_eq_ok.1 hconstants
  cases h
  cases hconstants
  cases hp.count_eq.symm.trans hcount
  simp only [List.append_assoc]
  exact ⟨_, read_append _ _ _ _ _⟩

/-- Equal bytes come from equal constants and equal classes. -/
theorem Class.encode_inj {c c' : Class} {p p' : Pool} {bs : List UInt8} (hp : p.Sound)
    (hp' : p'.Sound) (h : c.encode p = .ok bs) (h' : c'.encode p' = .ok bs) :
    p.entries = p'.entries ∧ c = c' := by
  have himage := Image.read_encode hp.valid (fun _ => hp.storable) h
  rw [Image.read_encode hp'.valid (fun _ => hp'.storable) h', Option.some.injEq,
    Image.mk.injEq] at himage
  obtain ⟨-, -, hslots, hflags, hthis, hsuper, -, -, hmembers, -⟩ := himage
  have hunique : Relator.RightUnique Member.Represents := fun _ _ _ => Member.Represents.unique
  have hmethods' := Class.represents_methods h'
  rw [hmembers] at hmethods'
  have hmethods := List.right_unique_forall₂' hunique (Class.represents_methods h) hmethods'
  constructor
  · rw [Pool.entries, Pool.entriesFrom, Pool.entries, Pool.entriesFrom, Array.toList_inj.1 hslots]
  · rcases c with ⟨flags, this, super, methods⟩
    rcases c' with ⟨flags', this', super', methods'⟩
    rw [Class.mk.injEq]
    exact ⟨hflags.symm, hthis.symm, hsuper.symm, Array.toList_inj.1 hmethods⟩

/-- A class is always encoded with the pool that requests lead to, if its methods and their code can
be counted in two bytes. All of both is found in the bytes, to the last byte: the header, each
constant under its index, and the class with its methods in order. So no other constants and no
other class have the same bytes. -/
theorem Class.encode_lossless (requests : List Item) {c : Class} (hsize : c.methods.size ≤ 65535)
    (hcode : ∀ m ∈ c.methods.toList, m.code.code.length ≤ 65535) :
    let pool := Pool.internAll requests {}
    ∃ bytes count rest image, c.encode pool = .ok bytes ∧
      Header.read bytes = some (⟨0xCAFEBABE, 1, 52, count⟩, rest) ∧ count.toNat = pool.size + 1 ∧
      Image.read.all? bytes = some image ∧ image.minor = 1 ∧ image.major = 52 ∧
      image.slots.length = pool.size + 1 ∧ (∀ i, image.get i = pool.get? i) ∧
      image.flags = c.flags ∧ image.thisClass = c.thisClass ∧ image.superClass = c.superClass ∧
      image.interfaces = [] ∧ image.fields = [] ∧
      List.Forall₂ Member.Represents image.methods c.methods.toList ∧ image.attributes = [] ∧
      ∀ requests' c', Class.encode c' (Pool.internAll requests' {}) = .ok bytes →
        (Pool.internAll requests' {}).entries = pool.entries ∧ c' = c := by
  intro pool
  have hpool : pool.Sound := Pool.sound_empty.internAll requests
  have hslots : pool.slots.size = pool.size + 1 := by
    have hpos := hpool.valid.slots_size
    simp only [Pool.size]
    omega
  have hcount : (UInt16.ofNat (pool.size + 1)).toNat = pool.size + 1 := by
    have hmax := hpool.valid.size_le_max
    exact UInt16.toNat_ofNat_of_lt' (by simp only [UInt16.size]; omega)
  obtain ⟨bytes, hbytes⟩ := Class.exists_encode hpool hsize hcode
  obtain ⟨rest, hheader⟩ := Header.read_encode hpool.valid hbytes
  have himage := Image.read_encode hpool.valid (fun _ => hpool.storable) hbytes
  refine ⟨bytes, _, rest, _, hbytes, hheader, hcount, himage, rfl, rfl,
    by simpa using hslots, fun i => ?_, rfl, rfl, rfl, rfl, rfl,
    Class.represents_methods hbytes, rfl, ?_⟩
  · simp [Image.get, Pool.get?]
  · intro requests' c' h'
    exact Class.encode_inj (Pool.sound_empty.internAll requests') hpool h' hbytes

/-- Two methods, and a pool in which wide constants stand before others. -/
theorem Class.encode_lossless_two_methods :
    let requests := [.long (-1), .classInfo "A", .double 0, .classInfo "java/lang/Object",
      .utf8 "main", .utf8 "()V", .utf8 "Code"]
    let c : Class := ⟨1, 4, 8, #[⟨9, 9, 10, 11, ⟨2, 1, [0x14, 0, 1, 0xB1]⟩⟩,
      ⟨8, 9, 10, 11, ⟨0, 0, [0xB1]⟩⟩]⟩
    c.methods.size ≤ 65535 ∧ (∀ m ∈ c.methods.toList, m.code.code.length ≤ 65535) ∧
      ∃ bytes image, c.encode (Pool.internAll requests {}) = .ok bytes ∧
        Image.read.all? bytes = some image ∧ image.thisClass = 4 ∧
        List.Forall₂ Member.Represents image.methods c.methods.toList := by
  intro requests c
  have hsize : c.methods.size ≤ 65535 := by decide
  have hcode : ∀ m ∈ c.methods.toList, m.code.code.length ≤ 65535 := by decide
  obtain ⟨bytes, _, _, image, hbytes, -, -, himage, -, -, -, -, -, hthis, -, -, -, hmethods, -⟩ :=
    Class.encode_lossless requests hsize hcode
  exact ⟨hsize, hcode, bytes, image, hbytes, himage, hthis, hmethods⟩

end JvmLisp.Jvm
