import JvmLisp.Source.Location

/-! # Counted places

A tracker reads a text once, one character ahead, and keeps account of the place that it has come to
and of the lines that it has read. Lines and columns are counted in 32 bits, which wrap around.
-/

namespace JvmLisp.Source

/-- A place as it is counted. -/
structure Mark where
  line : UInt32
  column : UInt32
deriving DecidableEq

def Mark.position (m : Mark) : Position :=
  ⟨m.line.toNat, m.column.toNat⟩

@[ext] structure Tracker where
  /-- What has not been taken from the text. -/
  ahead : List Char
  /-- The character taken last, which has not been consumed. -/
  current : Option Char := none
  line : UInt32 := 1
  column : UInt32 := 1
  /-- The current line, up to and including the current character. -/
  lineText : String := ""
  /-- The lines that have ended, without their line feeds. -/
  lines : Array String := #[]

namespace Tracker

/-- Adds the current character to its line. Line feeds and carriage returns are left out. -/
def record (t : Tracker) : Tracker :=
  match t.current with
  | none | some '\n' | some '\r' => t
  | some c => { t with lineText := t.lineText.push c }

/-- Takes a character from the text. -/
def pull (t : Tracker) : Tracker :=
  record { t with current := t.ahead.head?, ahead := t.ahead.tail }

def ofText (text : List Char) : Tracker :=
  pull { ahead := text }

/-- Consumes the current character and gives it. At the end of the text nothing changes. -/
def next (t : Tracker) : Option Char × Tracker :=
  match t.current with
  | none => (none, t)
  | some c =>
    let counted :=
      if c = '\n' then
        { t with line := t.line + 1, column := 1, lineText := "", lines := t.lines.push t.lineText }
      else { t with column := t.column + 1 }
    (some c, counted.pull)

def advance (t : Tracker) : Tracker :=
  t.next.2

/-- The place of the current character. -/
def mark (t : Tracker) : Mark :=
  ⟨t.line, t.column⟩

/-- A mark with its line: the current one as far as it has been read, one that has ended, or else
nothing. There is no line zero, since no line has the index that it wraps to. -/
def location (t : Tracker) (m : Mark) : Location :=
  ⟨m.position, if m.line = t.line then t.lineText
    else (t.lines[(m.line.toUInt64 - 1).toNat]?).getD ""⟩

end Tracker
end JvmLisp.Source
