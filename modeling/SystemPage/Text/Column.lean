/-
  SystemPage.Text.Column — numbers and names set in columns.

  Hexadecimal numbers carry the mark `0x` and lowercase digits, either as many as the number needs
  or at least a given count of digits, filled up with zeros.  A cell of a table is filled up with
  blanks to its width, counted in characters; a text wider than its cell is left as it is.
-/

namespace SystemPage.Text

/-! ## §1. Filling a cell. -/

def flushRight (width : Nat) (fill : Char) (s : String) : String :=
  String.ofList (List.replicate (width - s.length) fill ++ s.toList)

def flushLeft (width : Nat) (fill : Char) (s : String) : String :=
  String.ofList (s.toList ++ List.replicate (width - s.length) fill)

/-! ## §2. Hexadecimal numbers. -/

def hexDigits (n : Nat) : String := String.ofList (Nat.toDigits 16 n)

/-- A number with its mark and no more digits than it needs. -/
def hex (n : Nat) : String := "0x" ++ hexDigits n

/-- A number with its mark and at least two digits, as a small field is shown. -/
def hexByte (n : Nat) : String := "0x" ++ flushRight 2 '0' (hexDigits n)

/-- A number with its mark and at least eight digits, as an address is shown. -/
def hexWord (n : Nat) : String := "0x" ++ flushRight 8 '0' (hexDigits n)

end SystemPage.Text
