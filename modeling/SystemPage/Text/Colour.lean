/-
  SystemPage.Text.Colour — coloured text on a terminal.

  A colour is switched on by the sequence ESC `[` n `m` and everything is switched off again by
  `plain`. A text that already begins with such a sequence has the colour merged into it: the
  colour number is put in front of the numbers that are there, and the text is then trusted to
  switch itself off.
-/

namespace SystemPage.Text

/-- The colours that messages use. -/
inductive Colour where
  -- for the word that announces an error
  | red
  -- for names and quoted lines
  | yellow
  deriving DecidableEq, Repr

namespace Colour

/-- The number that switches a colour on. -/
def code : Colour → String
  | .red => "31"
  | .yellow => "33"

/-- The two characters that begin a control sequence. -/
def lead : List Char := [Char.ofNat 0x1B, '[']

/-- The control sequence that switches all colours off. -/
def plain : String := String.ofList lead ++ "0;39;49m"

/-- The text in a colour. -/
def paint (colour : Colour) (s : String) : String :=
  if lead.isPrefixOf s.toList then
    String.ofList lead ++ colour.code ++ ";" ++ String.ofList (s.toList.drop lead.length)
  else
    String.ofList lead ++ colour.code ++ "m" ++ s ++ plain

end Colour
end SystemPage.Text
