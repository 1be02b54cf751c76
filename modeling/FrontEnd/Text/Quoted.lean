import FrontEnd.Text.DefaultIgnorable
import FrontEnd.Text.GraphemeExtend
import FrontEnd.Text.Printable

namespace FrontEnd.Text

/-- The letters with the property `Grapheme_Extend`: the halfwidth sound marks, which take a cell of
their own and so stay apart from the character before them. -/
def extendingLetters : Ranges := [(0xff9e, 0xff9f)]

/-- Whether a character joins the one before it when both are shown. -/
def joins (c : Char) : Bool := isGraphemeExtend c && !extendingLetters.contains c

def isDistinct (c : Char) : Bool := isPrintable c && !isDefaultIgnorable c && !joins c

def hexDigits (c : Char) : String := String.ofList (Nat.toDigits 16 c.toNat)

def escape (c : Char) : String :=
  if c = '\x00' then "\\0"
  else if c = '\t' then "\\t"
  else if c = '\r' then "\\r"
  else if c = '\n' then "\\n"
  else if c = '"' then "\\\""
  else if c = '\\' then "\\\\"
  else if isDistinct c then c.toString
  else "\\u\x7b" ++ hexDigits c ++ "\x7d"

def quoted (s : String) : String := "\"" ++ String.join (s.toList.map escape) ++ "\""

end FrontEnd.Text
