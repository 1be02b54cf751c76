import FrontEnd.Diagnostic.Basic
import FrontEnd.Text.Line
import FrontEnd.Text.WhiteSpace

namespace FrontEnd

open Text

namespace Report

def isIndent (c : Char) : Bool := c = ' ' || c = '\t'

def shownLine (line : List Char) : List Char := trimEnd (line.dropWhile isIndent)

/-- The caret stands in a field of this width, at its right end. -/
def caretWidth (p : Place) : Nat := p.column - (p.line.takeWhile isIndent).length + 1

def maxWidth : Nat := 65535

def gutter (digits : Nat) : String := String.ofList (List.replicate (digits + 1) ' ') ++ "|"

def caret (width : Nat) : String := String.ofList (List.replicate (width - 1) '-') ++ "^"

def excerpt (p : Place) : String :=
  let number := toString p.number
  gutter number.length ++ "\n"
    ++ number ++ " | " ++ String.ofList (shownLine p.line) ++ "\n"
    ++ gutter number.length ++ " " ++ caret (caretWidth p)

end Report

namespace SyntaxError

def headline (e : SyntaxError) : String :=
  match e.cause.tip with
  | none => "Error: " ++ e.cause.name
  | some tip => "Error: " ++ e.cause.name ++ " (" ++ tip ++ ")"

/-- The report of an error against a source, none if the caret needs too wide a field. An error
beyond the end of the source is reported without an excerpt. -/
def report? (e : SyntaxError) (source : String) : Option String :=
  let heading := e.headline ++ "\n-> " ++ e.position.file ++ "\n"
  match locate source.toList e.position.offset.toNat with
  | none => some heading
  | some p =>
    if Report.caretWidth p ≤ Report.maxWidth then some (heading ++ Report.excerpt p) else none

end SyntaxError

end FrontEnd
