/-
  Log records — what a run says on its way, each with a level and the part of the program that
  speaks, its *target*.

  A record is written as `[LEVEL target] message`; further lines of a message are indented.  Where
  colours are off, nothing in a message reaches the terminal as a command.
-/
import ReleaseMatrix.Text.Plain
import ReleaseMatrix.Text.Style

namespace ReleaseMatrix.Log

open Text (sequence padRight)

/-! ## Levels -/

/-- How important a record is. -/
inductive Level where
  | error
  | warn
  | info
  | debug
  | trace
deriving DecidableEq, Repr

namespace Level

/-- The name of a level. -/
def name : Level → String
  | error => "ERROR"
  | warn => "WARN"
  | info => "INFO"
  | debug => "DEBUG"
  | trace => "TRACE"

/-- The levels, most important first. -/
def all : List Level := [error, warn, info, debug, trace]

/-- How far down a level stands. -/
def rank : Level → Nat
  | error => 0
  | warn => 1
  | info => 2
  | debug => 3
  | trace => 4

/-- The style codes of a level's name. -/
def codes : Level → String
  | error => "1;31"
  | warn => "33"
  | info => "32"
  | debug => "34"
  | trace => "36"

end Level

/-! ## Records -/

/-- What was said, how important it is and by which part. -/
structure Record where
  level : Level
  target : String
  message : String
deriving DecidableEq, Repr

namespace Record

/-- A message with its further lines indented. -/
def indented (message : String) : String :=
  String.ofList (message.toList.flatMap fun c =>
    if c = '\n' then ['\n', ' ', ' ', ' ', ' '] else [c])

/-- A text in a style that ends right behind it. -/
def inStyle (codes text : String) : String := sequence codes ++ text ++ sequence "0"

/-- The record as it is written, with colours or without. -/
def line (color : Bool) (r : Record) : String :=
  let level := padRight 5 r.level.name
  if color then
    inStyle "90" "[" ++ inStyle r.level.codes level ++ " " ++ r.target ++ inStyle "90" "]" ++ " "
      ++ indented r.message ++ "\n"
  else Text.plainText ("[" ++ level ++ " " ++ r.target ++ "] " ++ indented r.message ++ "\n")

end Record
end ReleaseMatrix.Log
