import JvmLisp.Text.Printable

/-! # Quoted text

Text between two quotation marks, on one line and with printable characters only: everything else is
written as an escape. The mark itself is escaped; the other kind of mark is not.
-/

namespace JvmLisp.Text

/-- A code point in hexadecimal between braces. -/
def escapeCode (c : Char) : List Char :=
  ['\\', 'u', '\x7b'] ++ Nat.toDigits 16 c.toNat ++ ['\x7d']

def escape (mark c : Char) : List Char :=
  if c = '\x00' then ['\\', '0']
  else if c = '\t' then ['\\', 't']
  else if c = '\n' then ['\\', 'n']
  else if c = '\r' then ['\\', 'r']
  else if c = '\\' ∨ c = mark then ['\\', c]
  else if isPrintable c then [c]
  else escapeCode c

def quoteWith (mark : Char) (text : List Char) : String :=
  String.ofList (mark :: (text.flatMap (escape mark) ++ [mark]))

def quote (text : String) : String :=
  quoteWith '"' text.toList

def quoteChar (c : Char) : String :=
  quoteWith '\x27' [c]

end JvmLisp.Text
