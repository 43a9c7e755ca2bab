/-
  SystemPage.Script.Words — a script line as words.

  Words are runs of graphic ASCII characters, parted by blanks.  Any other white space ends the
  line, and whatever stands behind it is a comment.  No other character may stand before the end
  of the line.

  A boot loader reads the same lines into buffers of fixed size, so a line holds at most ten words
  and at most 181 bytes, each word counted with the byte that ends it.  The line is judged from
  left to right: a word is counted where it is complete, a character where it stands.
-/
import SystemPage.Fault
import SystemPage.Text.Blank

namespace SystemPage
namespace Script

open Text

/-! ## §1. Limits. -/

/-- The greatest number of words in a line. -/
def wordLimit : Nat := 10

/-- The greatest number of bytes that the words of a line take. -/
def byteLimit : Nat := 181

/-- What the words of a line take so far. -/
structure Tally where
  words : Nat
  -- the number of bytes, with one to end each word
  bytes : Nat
  deriving DecidableEq, Repr

/-- Counts one more word, if it is allowed. -/
def Tally.add (t : Tally) (word : List Char) : Except Fault Tally :=
  if wordLimit ≤ t.words then .error (.tooManyWords wordLimit)
  else if byteLimit < t.bytes + word.length + 1 then .error (.lineTooLong byteLimit)
  else .ok ⟨t.words + 1, t.bytes + word.length + 1⟩

/-! ## §2. Reading a line. -/

/-- The words complete where a line ends inside a word, whose characters are given last one
first. -/
def lastWord (t : Tally) (word : List Char) : Except Fault (List (List Char)) :=
  if word = [] then .ok []
  else do
    let _ ← t.add word
    return [word.reverse]

/-- The words of the rest of a line, where `word` holds the characters of the word directly before
it, the last one first. -/
def wordsFrom (t : Tally) (word : List Char) : List Char → Except Fault (List (List Char))
  | [] => lastWord t word
  | c :: cs =>
    if isBlank c then
      if word = [] then wordsFrom t [] cs
      else do
        let counted ← t.add word
        return word.reverse :: (← wordsFrom counted [] cs)
    else if endsLine c then lastWord t word
    else if isGraphic c then wordsFrom t (c :: word) cs
    else .error (.character c)

/-- The words of a line. -/
def words (line : String) : Except Fault (List String) :=
  (wordsFrom ⟨0, 0⟩ [] line.toList).map (·.map String.ofList)

end Script
end SystemPage
