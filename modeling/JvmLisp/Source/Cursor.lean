import JvmLisp.Source.Location

/-! # Reading position

A cursor splits a source text into the characters consumed so far and those still ahead. It looks at
most one character ahead, and what it can quote of the text ends with that character. Places and
lines are found from what has been consumed. A `Tracker` counts and keeps them on its way.
-/

namespace JvmLisp.Source

structure Cursor where
  /-- The consumed characters, the last one first. -/
  before : List Char
  rest : List Char
deriving DecidableEq

/-- The line with the given number, counted from zero, without its line feed. -/
def lineAt : Nat → List Char → List Char
  | 0, text => text.takeWhile (· != '\n')
  | _ + 1, [] => []
  | n + 1, text => lineAt n ((text.dropWhile (· != '\n')).drop 1)

namespace Cursor

def ofText (text : List Char) : Cursor :=
  ⟨[], text⟩

def peek (c : Cursor) : Option Char :=
  c.rest.head?

/-- Consumes the current character. At the end of the text nothing changes. -/
def advance : Cursor → Cursor
  | ⟨before, c :: rest⟩ => ⟨c :: before, rest⟩
  | ⟨before, []⟩ => ⟨before, []⟩

/-- Consumes the current character and gives it, if there is one. -/
def next : Cursor → Option Char × Cursor
  | ⟨before, c :: rest⟩ => (some c, ⟨c :: before, rest⟩)
  | ⟨before, []⟩ => (none, ⟨before, []⟩)

/-- Consumes up to `n` characters. -/
def skip : Nat → Cursor → Cursor
  | n + 1, ⟨before, c :: rest⟩ => skip n ⟨c :: before, rest⟩
  | _, cursor => cursor

/-- Consumes the longest run of characters with a property. -/
def span (p : Char → Bool) (c : Cursor) : List Char × Cursor :=
  let run := c.rest.takeWhile p
  (run, ⟨run.reverseAux c.before, c.rest.dropWhile p⟩)

/-- The place of the current character. -/
def position (c : Cursor) : Position :=
  ⟨1 + c.before.count '\n', 1 + (c.before.takeWhile (· != '\n')).length⟩

/-- The characters read so far, the current one included. -/
def seen (c : Cursor) : List Char :=
  c.before.reverseAux (c.rest.take 1)

/-- A line as far as it has been read, without carriage returns. A line that has not been reached
is empty. -/
def lineText (c : Cursor) : Nat → String
  | 0 => ""
  | n + 1 => String.ofList ((lineAt n c.seen).filter (· != '\r'))

def locate (c : Cursor) (p : Position) : Location :=
  ⟨p, c.lineText p.line⟩

def here (c : Cursor) : Location :=
  c.locate c.position

end Cursor
end JvmLisp.Source
