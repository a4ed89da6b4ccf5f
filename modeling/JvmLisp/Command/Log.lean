import JvmLisp.Journal
import JvmLisp.Text.Control

/-! # Log lines

Events up to a level are shown on the standard error as lines with their level and origin. A name in
a message cannot change the terminal, for control sequences are left out.
-/

namespace JvmLisp

/-- Levels are named in any case. -/
def Level.ofName? (name : String) : Option Level :=
  [Level.error, .warn, .info, .debug, .trace].find? fun level => level.name == name.toUpper

namespace Command

/-- The level up to which events are shown, if any are: the one that the user names, whatever the
other options say. A name that is no level shows nothing. -/
def threshold (named : Option String) (verbose : Bool) : Option Level :=
  match named with
  | some name => Level.ofName? name
  | none => some (if verbose then .debug else .warn)

def isShown (threshold : Option Level) (event : Event) : Bool :=
  threshold.any fun level => event.level.rank ≤ level.rank

/-- Further lines of a message are indented. -/
def indent (c : Char) : List Char :=
  if c = '\n' then ['\n', ' ', ' ', ' ', ' '] else [c]

def logLine (event : Event) : String :=
  let level := event.level.name
  let head := "[" ++ level.pushn ' ' (5 - level.length) ++ " " ++ event.origin ++ "] "
  String.ofList
    (Text.withoutControls (head.toList ++ event.message.toList.flatMap indent ++ ['\n']))

end Command
end JvmLisp
