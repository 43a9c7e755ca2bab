/-
  SystemPage.Text.Blank — white space.

  Two sets of characters matter to a script line.  The blanks, space and tab, stand between the
  words of a line; every other character with the Unicode property White_Space ends the line.
-/

namespace SystemPage.Text

/-! ## §1. The property White_Space. -/

/-- The characters with the Unicode property White_Space. -/
def isWhite (c : Char) : Bool :=
  let n := c.toNat
  (9 ≤ n && n ≤ 13) || n == 0x20 || n == 0x85 || n == 0xA0 || n == 0x1680
    || (0x2000 ≤ n && n ≤ 0x200A) || n == 0x2028 || n == 0x2029 || n == 0x202F
    || n == 0x205F || n == 0x3000

/-! ## §2. The two roles in a line. -/

def isBlank (c : Char) : Bool := c == ' ' || c == '\t'

/-- A character that ends a line: white space other than a blank. -/
def endsLine (c : Char) : Bool := isWhite c && !isBlank c

/-- A character with a mark of its own among the ASCII characters, which words are made of. -/
def isGraphic (c : Char) : Bool := 0x21 ≤ c.toNat && c.toNat ≤ 0x7E

def trimEnd (cs : List Char) : List Char := (cs.reverse.dropWhile isWhite).reverse

end SystemPage.Text
