import JvmLisp.Jvm.Constant
import Std.Data.HashMap

/-! # The constant pool

A growing table of constants in which no constant occurs twice. An item names a constant by its
texts and values; interning it adds the constants that it needs, those it refers to first, so that
every reference points to a lower index. A step that fails keeps what it added before.
-/

namespace JvmLisp.Jvm

structure Pool where
  /-- The constants by index. Index zero and the second index of a wide constant hold none. -/
  slots : Array (Option Constant) := #[none]
  /-- The index of each constant in the table. -/
  index : Std.HashMap Constant UInt16 := ∅

/-- A constant by its meaning: texts and values in place of indices. -/
inductive Item where
  | utf8 (text : String)
  | integer (value : Int32)
  | float (bits : UInt32)
  | long (value : Int64)
  | double (bits : UInt64)
  | classInfo (name : String)
  | string (text : String)
  | member (kind : MemberKind) (owner name descriptor : String)
  | nameAndType (name descriptor : String)
  | methodType (descriptor : String)
deriving DecidableEq

/-- Computations that add constants to a pool. -/
abbrev Interning := ExceptT Error (StateM Pool)

namespace Pool

/-- The number of indices in use. -/
def size (pool : Pool) : Nat :=
  pool.slots.size - 1

def get? (pool : Pool) (index : UInt16) : Option Constant :=
  pool.slots[index.toNat]?.join

/-- The constants from an index on, each with its own index. -/
def entriesFrom (pool : Pool) (start : Nat) : List (Nat × Constant) :=
  ((pool.slots.extract start).toList.zipIdx start).filterMap fun (slot, i) => slot.map (i, ·)

/-- The constants in the order in which they were added, each with its index. -/
def entries (pool : Pool) : List (Nat × Constant) :=
  pool.entriesFrom 0

/-- The header of an encoded pool, one more than the number of indices in use, has two bytes. -/
def maxCount : Nat := 65535

def count (pool : Pool) : Except Error UInt16 :=
  if pool.slots.size ≤ maxCount then .ok (UInt16.ofNat pool.slots.size)
  else .error { cause := .limit .poolSize }

def encode (pool : Pool) : Except Error (List UInt8) := do
  let count ← pool.count
  let constants ← pool.entries.mapM fun (_, c) => c.encode
  return Bytes.ofUInt16 count ++ constants.flatten

def find? (c : Constant) : Interning (Option UInt16) :=
  fun pool => (.ok pool.index[c]?, pool)

/-- Appends a constant, unless the header could no longer count it. -/
def push (c : Constant) : Interning UInt16 :=
  fun ⟨slots, index⟩ =>
    if slots.size + c.width ≤ maxCount then
      let i := UInt16.ofNat slots.size
      let slots := slots.push (some c)
      (.ok i, ⟨if c.width = 2 then slots.push none else slots, index.insert c i⟩)
    else (.error { cause := .limit .poolSize }, ⟨slots, index⟩)

/-- The index of a constant, which is appended if it is new. -/
def add (c : Constant) : Interning UInt16 := do
  match ← find? c with
  | some i => return i
  | none => push c

/-- A text must be ASCII without NUL, and its length must fit two bytes. -/
def checkText (text : String) : Except Error Unit :=
  match text.toList.find? fun c => c.toNat = 0 || c.toNat > 127 with
  | some c =>
    .error { cause := .unencodable (if c.toNat = 0 then .nul text else .notAscii c text) }
  | none =>
    if text.utf8ByteSize ≤ Constant.maxTextBytes then .ok ()
    else .error { cause := .limit (.textLength text.utf8ByteSize) }

def internText (text : String) : Interning UInt16 := do
  match ← find? (.utf8 text) with
  | some i => return i
  | none =>
    liftExcept (checkText text)
    push (.utf8 text)

def internClass (name : String) : Interning UInt16 := do
  let name ← internText name
  add (.classInfo name)

def internNameAndType (name descriptor : String) : Interning UInt16 := do
  let name ← internText name
  let descriptor ← internText descriptor
  add (.nameAndType name descriptor)

def intern : Item → Interning UInt16
  | .utf8 text => internText text
  | .integer value => add (.integer value)
  | .float bits => add (.float bits)
  | .long value => add (.long value)
  | .double bits => add (.double bits)
  | .classInfo name => internClass name
  | .string text => do
    let text ← internText text
    add (.string text)
  | .member kind owner name descriptor => do
    let owner ← internClass owner
    let signature ← internNameAndType name descriptor
    add (.member kind owner signature)
  | .nameAndType name descriptor => internNameAndType name descriptor
  | .methodType descriptor => do
    let descriptor ← internText descriptor
    add (.methodType descriptor)

end Pool
end JvmLisp.Jvm
