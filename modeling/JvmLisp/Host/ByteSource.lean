import JvmLisp.Bytes
import JvmLisp.Host.Fault

/-! # Streams of bytes

A stream is read to its end before anything is made of its bytes, so a fault of the stream comes
before any fault in its text.
-/

namespace JvmLisp.Host

/-- A stream of bytes that ends, or fails once its bytes have been read. -/
structure ByteSource where
  bytes : List UInt8 := []
  fault : Option Fault := none

def ByteSource.read (s : ByteSource) : Except Fault (List UInt8) :=
  match s.fault with
  | some fault => .error fault
  | none => .ok s.bytes

/-- Source text must be valid UTF-8. -/
def decode (bytes : List UInt8) : Except Fault String :=
  match Bytes.toText? bytes with
  | some text => .ok text
  | none => .error .notText

end JvmLisp.Host
