/-
  SystemPage.Script.Source — a whole script.

  A line feed ends a line, and a carriage return directly before it belongs to the end of the line.
  What stands behind the last line feed is a line as it is, with any carriage return.

  The lines of a script are performed one after the other, up to the first that fails.  Its fault is
  told with the path of the script, the number of the line, counted from 1, and the line itself.
-/
import SystemPage.Script.Command
import SystemPage.Script.Words

namespace SystemPage
namespace Script

/-! ## §1. Lines. -/

/-- What a line feed ends, without the carriage return directly before it. -/
def withoutReturn (piece : List Char) : List Char :=
  if piece.getLast? = some (Char.ofNat 13) then piece.dropLast else piece

/-- The lines among the pieces of a text between its line feeds.  The last piece is not ended by
one: it is a line only if there is text in it, and keeps its carriage return. -/
def linesOf : List (List Char) → List (List Char)
  | [] => []
  | [last] => if last = [] then [] else [last]
  | piece :: next :: rest => withoutReturn piece :: linesOf (next :: rest)

/-- The lines of a text. -/
def lines (source : List Char) : List (List Char) := linesOf (Text.fields (Char.ofNat 10) source)

/-- Performs one line. -/
def performLine (line : String) : Edit Session Unit := do
  let found ← Edit.look fun _ => words line
  performWords found

/-! ## §2. Scripts. -/

/-- A line as it is told: without the white space at its end. -/
def shown (line : String) : String := String.ofList (Text.trimEnd line.toList)

/-- An edit whose fault is told with the place of a line. -/
def locating (path : String) (number : Nat) (line : String) (edit : Edit Session Unit) :
    Edit Session Unit := fun s =>
  match edit s with
  | .ok a after => .ok a after
  | .error fault after => .error (.located fault path number (shown line)) after

/-- Performs lines, the first of which has the given number. -/
def performLines (path : String) : Nat → List (List Char) → Edit Session Unit
  | _, [] => pure ()
  | number, line :: rest => do
    locating path number (String.ofList line) (performLine (String.ofList line))
    performLines path (number + 1) rest

/-- Performs a script. -/
def perform (path : String) (source : String) : Edit Session Unit :=
  performLines path 1 (lines source.toList)

end Script
end SystemPage
