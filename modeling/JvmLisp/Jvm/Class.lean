import JvmLisp.Jvm.Body
import JvmLisp.Jvm.Descriptor
import JvmLisp.Jvm.Pool

/-! # Class files

A class without interfaces, fields and attributes, and its methods, each with the one attribute that
holds its code. A class is encoded together with the constant pool that its indices refer to.
-/

namespace JvmLisp.Jvm

namespace Flags

def isPublic : UInt16 := 0x0001

def isStatic : UInt16 := 0x0008

def isSynthetic : UInt16 := 0x1000

end Flags

structure CodeAttribute where
  maxStack : UInt16
  maxLocals : UInt16
  code : List UInt8
deriving DecidableEq

namespace CodeAttribute

/-- The depth of the stack and the length of the code must each fit two bytes. -/
def ofBody (body : Body) (maxLocals : UInt16) : Except Error CodeAttribute :=
  let code := body.encode
  if body.peak > 65535 then .error { cause := .limit (.stackDepth body.peak) }
  else if code.length > 65535 then .error { cause := .limit (.codeLength code.length) }
  else .ok ⟨UInt16.ofNat body.peak, maxLocals, code⟩

/-- The attribute after its name and length. It has no exception table and no attributes. -/
def payload (a : CodeAttribute) : Except Error (List UInt8) :=
  if a.code.length < UInt32.size then
    .ok (Bytes.ofUInt16 a.maxStack ++ Bytes.ofUInt16 a.maxLocals ++
      Bytes.ofUInt32 (UInt32.ofNat a.code.length) ++ a.code ++ Bytes.ofUInt16 0 ++ Bytes.ofUInt16 0)
  else .error { cause := .limit (.codeLength a.code.length) }

end CodeAttribute

/-- A method. Its names are indices into the constant pool. -/
structure Method where
  flags : UInt16
  name : UInt16
  descriptor : UInt16
  /-- The text `Code`, which names the attribute. -/
  codeName : UInt16
  code : CodeAttribute
deriving DecidableEq

namespace Method

def declare (flags : UInt16) (name : String) (type : MethodType) (code : CodeAttribute) :
    Interning Method := do
  let name ← Pool.internText name
  let descriptor ← Pool.internText type.text
  let codeName ← Pool.internText "Code"
  return ⟨flags, name, descriptor, codeName, code⟩

def encode (m : Method) : Except Error (List UInt8) := do
  let payload ← m.code.payload
  if payload.length < UInt32.size then
    return Bytes.ofUInt16 m.flags ++ Bytes.ofUInt16 m.name ++ Bytes.ofUInt16 m.descriptor ++
      Bytes.ofUInt16 1 ++ Bytes.ofUInt16 m.codeName ++
      Bytes.ofUInt32 (UInt32.ofNat payload.length) ++ payload
  else throw { cause := .limit (.codeLength payload.length) }

end Method

/-- A class. Its own name and that of its superclass are indices of class constants. -/
structure Class where
  flags : UInt16
  thisClass : UInt16
  superClass : UInt16
  methods : Array Method := #[]
deriving DecidableEq

namespace Class

def magic : UInt32 := 0xCAFEBABE

def minorVersion : UInt16 := 1

def majorVersion : UInt16 := 52

/-- A public class without methods. -/
def declare (name superName : String) : Interning Class := do
  let thisClass ← Pool.internClass name
  let superClass ← Pool.internClass superName
  return ⟨Flags.isPublic, thisClass, superClass, #[]⟩

def addMethod (c : Class) (m : Method) : Class :=
  { c with methods := c.methods.push m }

/-- The number of methods, in two bytes. -/
def methodCount (c : Class) : Except Error UInt16 :=
  if c.methods.size ≤ 65535 then .ok (UInt16.ofNat c.methods.size)
  else .error { cause := .defect .tooManyMethods }

def encode (c : Class) (pool : Pool) : Except Error (List UInt8) := do
  let constants ← pool.encode
  let count ← c.methodCount
  let methods ← c.methods.toList.mapM Method.encode
  return Bytes.ofUInt32 magic ++ Bytes.ofUInt16 minorVersion ++ Bytes.ofUInt16 majorVersion ++
    constants ++ Bytes.ofUInt16 c.flags ++ Bytes.ofUInt16 c.thisClass ++
    Bytes.ofUInt16 c.superClass ++ Bytes.ofUInt16 0 ++ Bytes.ofUInt16 0 ++
    Bytes.ofUInt16 count ++ methods.flatten ++ Bytes.ofUInt16 0

end Class
end JvmLisp.Jvm
