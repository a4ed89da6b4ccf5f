import JvmLisp.Jvm.Pool

/-! # A pool with caches

A pool that finds an item by what it was asked for. Each kind of item has a cache of its own, from
texts and values to indices, which is searched before anything is added. The constants are kept in
the order in which they were added, and a slot tells the place of its constant among them.
-/

namespace JvmLisp.Jvm

/-- The indices that items were given, for each kind of item. -/
structure Caches where
  texts : Std.HashMap String UInt16 := ∅
  strings : Std.HashMap String UInt16 := ∅
  classes : Std.HashMap String UInt16 := ∅
  namesAndTypes : Std.HashMap (String × String) UInt16 := ∅
  fields : Std.HashMap (String × String × String) UInt16 := ∅
  methods : Std.HashMap (String × String × String) UInt16 := ∅
  interfaceMethods : Std.HashMap (String × String × String) UInt16 := ∅
  methodTypes : Std.HashMap String UInt16 := ∅
  integers : Std.HashMap Int32 UInt16 := ∅
  floats : Std.HashMap UInt32 UInt16 := ∅
  longs : Std.HashMap Int64 UInt16 := ∅
  doubles : Std.HashMap UInt64 UInt16 := ∅

namespace Caches

def find? (caches : Caches) : Item → Option UInt16
  | .utf8 text => caches.texts[text]?
  | .string text => caches.strings[text]?
  | .classInfo name => caches.classes[name]?
  | .nameAndType name descriptor => caches.namesAndTypes[(name, descriptor)]?
  | .member .field owner name descriptor => caches.fields[(owner, name, descriptor)]?
  | .member .method owner name descriptor => caches.methods[(owner, name, descriptor)]?
  | .member .interfaceMethod owner name descriptor =>
    caches.interfaceMethods[(owner, name, descriptor)]?
  | .methodType descriptor => caches.methodTypes[descriptor]?
  | .integer value => caches.integers[value]?
  | .float bits => caches.floats[bits]?
  | .long value => caches.longs[value]?
  | .double bits => caches.doubles[bits]?

def insert (caches : Caches) (i : UInt16) : Item → Caches
  | .utf8 text => { caches with texts := caches.texts.insert text i }
  | .string text => { caches with strings := caches.strings.insert text i }
  | .classInfo name => { caches with classes := caches.classes.insert name i }
  | .nameAndType name descriptor =>
    { caches with namesAndTypes := caches.namesAndTypes.insert (name, descriptor) i }
  | .member .field owner name descriptor =>
    { caches with fields := caches.fields.insert (owner, name, descriptor) i }
  | .member .method owner name descriptor =>
    { caches with methods := caches.methods.insert (owner, name, descriptor) i }
  | .member .interfaceMethod owner name descriptor =>
    { caches with interfaceMethods := caches.interfaceMethods.insert (owner, name, descriptor) i }
  | .methodType descriptor => { caches with methodTypes := caches.methodTypes.insert descriptor i }
  | .integer value => { caches with integers := caches.integers.insert value i }
  | .float bits => { caches with floats := caches.floats.insert bits i }
  | .long value => { caches with longs := caches.longs.insert value i }
  | .double bits => { caches with doubles := caches.doubles.insert bits i }

end Caches

structure CachedPool where
  /-- The constants in the order in which they were added. -/
  constants : Array Constant := #[]
  /-- The place of the constant at each index. Index zero and the second index of a wide constant
  have none. -/
  slots : Array (Option Nat) := #[none]
  caches : Caches := {}

/-- Computations that add constants to a pool with caches. -/
abbrev Caching := ExceptT Error (StateM CachedPool)

namespace CachedPool

def get? (pool : CachedPool) (index : UInt16) : Option Constant :=
  pool.slots[index.toNat]?.join.bind (pool.constants[·]?)

/-- The number of indices in use. -/
def size (pool : CachedPool) : Nat :=
  pool.slots.size - 1

def count (pool : CachedPool) : Except Error UInt16 :=
  if pool.slots.size ≤ Pool.maxCount then .ok (UInt16.ofNat pool.slots.size)
  else .error { cause := .limit .poolSize }

def encode (pool : CachedPool) : Except Error (List UInt8) := do
  let count ← pool.count
  let constants ← pool.constants.toList.mapM Constant.encode
  return Bytes.ofUInt16 count ++ constants.flatten

/-- Appends a constant, unless the header could no longer count it. -/
def push (c : Constant) : Caching UInt16 :=
  fun ⟨constants, slots, caches⟩ =>
    if slots.size + c.width ≤ Pool.maxCount then
      let i := UInt16.ofNat slots.size
      let slots := slots.push (some constants.size)
      (.ok i, ⟨constants.push c, if c.width = 2 then slots.push none else slots, caches⟩)
    else (.error { cause := .limit .poolSize }, ⟨constants, slots, caches⟩)

/-- Appends the constant of an item and keeps its index. -/
def store (x : Item) (c : Constant) : Caching UInt16 := do
  let i ← push c
  modify fun pool => { pool with caches := pool.caches.insert i x }
  return i

/-- The index that an item was given. If it was given none, its constant is made and stored. -/
def cached (x : Item) (make : Caching Constant) : Caching UInt16 := do
  match (← get).caches.find? x with
  | some i => return i
  | none => store x (← make)

def internText (text : String) : Caching UInt16 :=
  cached (.utf8 text) do
    liftExcept (Pool.checkText text)
    return .utf8 text

def internClass (name : String) : Caching UInt16 :=
  cached (.classInfo name) do return .classInfo (← internText name)

def internNameAndType (name descriptor : String) : Caching UInt16 :=
  cached (.nameAndType name descriptor) do
    return .nameAndType (← internText name) (← internText descriptor)

def intern : Item → Caching UInt16
  | .utf8 text => internText text
  | .integer value => cached (.integer value) (return .integer value)
  | .float bits => cached (.float bits) (return .float bits)
  | .long value => cached (.long value) (return .long value)
  | .double bits => cached (.double bits) (return .double bits)
  | .classInfo name => internClass name
  | .string text => cached (.string text) do return .string (← internText text)
  | .member kind owner name descriptor =>
    cached (.member kind owner name descriptor) do
      return .member kind (← internClass owner) (← internNameAndType name descriptor)
  | .nameAndType name descriptor => internNameAndType name descriptor
  | .methodType descriptor =>
    cached (.methodType descriptor) do return .methodType (← internText descriptor)

end CachedPool
end JvmLisp.Jvm
