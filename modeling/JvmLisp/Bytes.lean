/-! # Big-endian words

Every number of the class-file format is written with its most significant byte first.
-/

namespace JvmLisp.Bytes

def ofUInt16 (n : UInt16) : List UInt8 :=
  [(n >>> 8).toUInt8, n.toUInt8]

def ofUInt32 (n : UInt32) : List UInt8 :=
  ofUInt16 (n >>> 16).toUInt16 ++ ofUInt16 n.toUInt16

def ofUInt64 (n : UInt64) : List UInt8 :=
  ofUInt32 (n >>> 32).toUInt32 ++ ofUInt32 n.toUInt32

/-- The UTF-8 encoding of a text. -/
def ofText (text : String) : List UInt8 :=
  text.toUTF8.data.toList

/-- The text that the bytes encode, if they are valid UTF-8. -/
def toText? (bytes : List UInt8) : Option String :=
  String.fromUTF8? ⟨bytes.toArray⟩

end JvmLisp.Bytes
