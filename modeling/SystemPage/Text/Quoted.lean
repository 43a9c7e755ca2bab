/-
  SystemPage.Text.Quoted — characters, words and lists as messages quote them.

  A quoted character stands between single quotation marks, a quoted word between double ones.  The
  quotation mark and the backslash are written with a backslash in front; so are the four characters
  that have a letter for it (`\0`, `\t`, `\r`, `\n`).  Every other character that cannot be shown as
  itself is written by its number.  A list stands in brackets, its items parted by a comma and a
  blank.
-/
import SystemPage.Text.Column
import SystemPage.Text.Unprintable

namespace SystemPage.Text

/-! ## §1. Characters. -/

/-- The backslash. -/
def backslash : Char := Char.ofNat 0x5C

/-- A character as it stands between quotation marks of the kind `mark`. -/
def escape (mark : Char) (c : Char) : List Char :=
  if c = mark ∨ c = backslash then [backslash, c]
  else if c.toNat = 0 then [backslash, '0']
  else if c.toNat = 9 then [backslash, 't']
  else if c.toNat = 10 then [backslash, 'n']
  else if c.toNat = 13 then [backslash, 'r']
  else if isUnprintable c then
    [backslash, 'u', Char.ofNat 0x7B] ++ Nat.toDigits 16 c.toNat ++ [Char.ofNat 0x7D]
  else [c]

def singleMark : Char := Char.ofNat 0x27

def doubleMark : Char := Char.ofNat 0x22

def quoteChar (c : Char) : String :=
  String.ofList (singleMark :: escape singleMark c ++ [singleMark])

/-! ## §2. Words and lists. -/

def quoteWord (word : String) : String :=
  String.ofList (doubleMark :: word.toList.flatMap (escape doubleMark) ++ [doubleMark])

def bracketed (items : List String) : String := "[" ++ ", ".intercalate items ++ "]"

def quoteWords (words : List String) : String := bracketed (words.map quoteWord)

def listBytes (ids : List UInt8) : String :=
  bracketed (ids.map fun id => toString id.toNat)

end SystemPage.Text
