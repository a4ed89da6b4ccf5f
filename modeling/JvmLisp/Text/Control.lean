/-! # Control sequences

Text for a terminal may hold control characters and the sequences that an escape character starts.
What is left without them is the text itself with its spaces, tabs and line ends.

A sequence is read up to its end, however it is formed. White space within an escape or control
sequence is not part of it: it is shown, and so is the text behind it. The next control character,
unless it starts a sequence or cancels one, takes the sequence up again where it was left.
-/

namespace JvmLisp.Text

/-- How far a sequence has been read. -/
inductive Sequence where
  /-- The escape character. -/
  | escape
  /-- An escape sequence of more than two characters. -/
  | selection
  /-- A control sequence, which sets colours and the like. -/
  | control
  /-- A command to the system, such as a title, which a bell can end. -/
  | command
  /-- The head of a device string, before its parameters, among them and behind them. -/
  | deviceHead
  | deviceParameters
  | deviceIntermediates
  /-- A string that has no effect. -/
  | string
deriving DecidableEq

namespace Sequence

/-- The byte that ends a string. In UTF-8 it is a part of other characters. -/
def terminator : UInt8 := 0x9C

/-- What a character behind the escape character starts, if it does not complete the sequence. -/
def opening (c : Char) : Option Sequence :=
  if c = '[' then some control
  else if c = ']' then some command
  else if c = 'P' then some deviceHead
  else if c = 'X' ∨ c = '^' ∨ c = '_' then some string
  else if '0' ≤ c ∧ c ≤ '~' then none
  else if ' ' ≤ c ∧ c ≤ '/' then some selection
  else some escape

/-- The sequence with one more character, or nothing if that completes it. -/
def next : Sequence → Char → Option Sequence
  | escape, c => opening c
  | selection, c => if '0' ≤ c ∧ c ≤ '~' then none else some selection
  | control, c => if '@' ≤ c ∧ c ≤ '~' then none else some control
  | command, c => if c = '\x07' then none else some command
  | deviceHead, c =>
    if '@' ≤ c ∧ c ≤ '~' then some string
    else if '0' ≤ c ∧ c ≤ '?' then some deviceParameters
    else if ' ' ≤ c ∧ c ≤ '/' then some deviceIntermediates
    else some deviceHead
  | deviceParameters, c =>
    if '<' ≤ c ∧ c ≤ '~' then some string
    else if ' ' ≤ c ∧ c ≤ '/' then some deviceIntermediates
    else some deviceParameters
  | deviceIntermediates, c => if '0' ≤ c ∧ c ≤ '~' then some string else some deviceIntermediates
  | string, c => if (String.utf8EncodeChar c).contains terminator then none else some string

/-- White space is shown within the sequence. -/
def showsSpace : Sequence → Bool
  | escape | selection | control => true
  | _ => false

end Sequence

/-- Control characters that are part of a text. -/
def isSpacing (c : Char) : Bool :=
  c == '\t' || c == '\n' || c == '\x0c' || c == '\r'

def isShown (c : Char) : Bool :=
  isSpacing c || ' ' ≤ c && c != '\x7f'

inductive Mode where
  | text
  | inside (sequence : Sequence)
  /-- In text behind white space within a sequence. -/
  | within (sequence : Sequence)
deriving DecidableEq

namespace Mode

/-- The mode behind a character, and whether the character is shown. -/
def step (mode : Mode) (c : Char) : Mode × Bool :=
  if c = '\x1b' then (inside .escape, false)
  else if c = '\x18' ∨ c = '\x1a' then (text, false)
  else
    match mode with
    | text => (text, isShown c)
    | inside s =>
      if s.showsSpace && isSpacing c then (within s, true)
      else (((s.next c).map inside).getD text, false)
    | within s =>
      if !isShown c then (inside s, false)
      else if c ≤ '\x7f' then (within s, true)
      else (text, true)

end Mode

/-- Adds to the characters shown so far, the last one first, those that are shown of a text. -/
def showFrom (mode : Mode) (shown : List Char) : List Char → List Char
  | [] => shown.reverse
  | c :: rest =>
    let (next, visible) := mode.step c
    showFrom next (if visible then c :: shown else shown) rest

/-- The text without control characters and sequences. -/
def withoutControls (text : List Char) : List Char :=
  showFrom .text [] text

end JvmLisp.Text
