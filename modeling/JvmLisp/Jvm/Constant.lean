import JvmLisp.Error
import JvmLisp.Number.Decimal

/-! # Constants

The entries of a constant pool. An entry refers to others by their indices. Floating-point numbers
are kept as bit patterns, so that zeros of either sign and all NaNs are told apart.
-/

namespace JvmLisp.Jvm

/-- Computations that put out bytes. What has been put out stays if they fail. -/
abbrev Writing := ExceptT Error (StateM (List UInt8))

def Writing.put (bytes : List UInt8) : Writing Unit :=
  fun out => (.ok (), out ++ bytes)

/-- What a member reference refers to. -/
inductive MemberKind where
  | field
  | method
  | interfaceMethod
deriving DecidableEq, Hashable

namespace MemberKind

def tag : MemberKind → UInt8
  | field => 9
  | method => 10
  | interfaceMethod => 11

def name : MemberKind → String
  | field => "Fieldref"
  | method => "Methodref"
  | interfaceMethod => "InterfaceMethodref"

end MemberKind

inductive Constant where
  | utf8 (text : String)
  | integer (value : Int32)
  | float (bits : UInt32)
  | long (value : Int64)
  | double (bits : UInt64)
  | classInfo (name : UInt16)
  | string (text : UInt16)
  | member (kind : MemberKind) (owner signature : UInt16)
  | nameAndType (name descriptor : UInt16)
  | methodType (descriptor : UInt16)
deriving DecidableEq, Hashable

namespace Constant

def tag : Constant → UInt8
  | utf8 _ => 1
  | integer _ => 3
  | float _ => 4
  | long _ => 5
  | double _ => 6
  | classInfo _ => 7
  | string _ => 8
  | member kind _ _ => kind.tag
  | nameAndType .. => 12
  | methodType _ => 16

/-- The number of indices that an entry takes. -/
def width : Constant → Nat
  | long _ | double _ => 2
  | _ => 1

/-- The longest text that a two-byte length can describe. -/
def maxTextBytes : Nat := 65535

/-- What follows the tag. A text is preceded by its length. -/
def payload : Constant → Except Error (List UInt8)
  | utf8 text =>
    if text.utf8ByteSize ≤ maxTextBytes then
      .ok (Bytes.ofUInt16 (UInt16.ofNat text.utf8ByteSize) ++ Bytes.ofText text)
    else .error { cause := .limit (.textLength text.utf8ByteSize) }
  | integer value => .ok (Bytes.ofUInt32 value.toUInt32)
  | float bits => .ok (Bytes.ofUInt32 bits)
  | long value => .ok (Bytes.ofUInt64 value.toUInt64)
  | double bits => .ok (Bytes.ofUInt64 bits)
  | classInfo index | string index | methodType index => .ok (Bytes.ofUInt16 index)
  | member _ first second | nameAndType first second =>
    .ok (Bytes.ofUInt16 first ++ Bytes.ofUInt16 second)

/-- Puts out an entry: the tag and then the payload, unless that is refused. -/
def write (c : Constant) : Writing Unit := do
  Writing.put [c.tag]
  Writing.put (← liftExcept c.payload)

def encode (c : Constant) : Except Error (List UInt8) :=
  match c.write [] with
  | (.ok _, bytes) => .ok bytes
  | (.error e, _) => .error e

/-- The bytes put out by the time that writing ends, also if it fails. -/
def written (c : Constant) : List UInt8 :=
  (c.write []).2

theorem write_of_ok {c : Constant} {payload : List UInt8} (h : c.payload = .ok payload)
    (out : List UInt8) : c.write out = (.ok (), out ++ c.tag :: payload) := by
  rw [List.append_cons]
  simp only [write, h]
  rfl

theorem write_of_error {c : Constant} {e : Error} (h : c.payload = .error e) (out : List UInt8) :
    c.write out = (.error e, out ++ [c.tag]) := by
  simp only [write, h]
  rfl

theorem encode_eq (c : Constant) : c.encode = c.payload.map (c.tag :: ·) := by
  rcases h : c.payload with e | payload
  · rw [encode, write_of_error h]
    rfl
  · rw [encode, write_of_ok h]
    rfl

def text : Constant → String
  | utf8 text => "Utf8 " ++ Text.quote text
  | integer value => "Integer " ++ toString value.toInt
  | float bits => "Float " ++ (Number.Format.single.decode bits.toNat).text
  | long value => "Long " ++ toString value.toInt
  | double bits => "Double " ++ (Number.Format.double.decode bits.toNat).text
  | classInfo name => "Class #" ++ toString name.toNat
  | string text => "String #" ++ toString text.toNat
  | member kind owner signature =>
    kind.name ++ " #" ++ toString owner.toNat ++ ".#" ++ toString signature.toNat
  | nameAndType name descriptor =>
    "NameAndType #" ++ toString name.toNat ++ ":#" ++ toString descriptor.toNat
  | methodType descriptor => "MethodType #" ++ toString descriptor.toNat

/-- Equality of values: floating-point numbers are compared as numbers. -/
def sameValue : Constant → Constant → Bool
  | float a, float b =>
    (Number.Format.single.decode a.toNat).same (Number.Format.single.decode b.toNat)
  | double a, double b =>
    (Number.Format.double.decode a.toNat).same (Number.Format.double.decode b.toNat)
  | a, b => a == b

end Constant
end JvmLisp.Jvm
