import FrontEnd.Text.Bytes
import FrontEnd.Token.Kind

namespace FrontEnd

/-- Blanks separate lexemes: space, tab, carriage return and line feed. -/
def isBlank (c : Char) : Bool := c.isWhitespace

def isWordStart (c : Char) : Bool := c.isAlpha || c = '_'

def isWordChar (c : Char) : Bool := c.isAlphanum || c = '_'

structure Lexeme where
  kind : TokenKind
  text : List Char
  rest : List Char
  deriving DecidableEq

namespace Lexeme

/-- The lexeme that starts with a character that is no blank. -/
def read (c : Char) (cs : List Char) : Lexeme :=
  if isWordStart c then
    let text := c :: cs.takeWhile isWordChar
    ⟨.ofWord (String.ofList text), text, cs.dropWhile isWordChar⟩
  else if c.isDigit then
    ⟨.int, c :: cs.takeWhile Char.isDigit, cs.dropWhile Char.isDigit⟩
  else
    match c, cs with
    | '=', '=' :: rest => ⟨.equals, ['=', '='], rest⟩
    | '!', '=' :: rest => ⟨.notEquals, ['!', '='], rest⟩
    | c, rest => ⟨.ofPunctuation c, [c], rest⟩

theorem text_append_rest (c : Char) (cs : List Char) :
    (read c cs).text ++ (read c cs).rest = c :: cs := by
  unfold read
  split
  · simp
  · split
    · simp
    · split <;> simp_all

theorem text_ne_nil (c : Char) (cs : List Char) : (read c cs).text ≠ [] := by
  unfold read
  split
  · simp
  · split
    · simp
    · split <;> simp

theorem length_rest_le (c : Char) (cs : List Char) : (read c cs).rest.length ≤ cs.length := by
  have h := congrArg List.length (text_append_rest c cs)
  have hne := List.length_pos_iff.2 (text_ne_nil c cs)
  simp only [List.length_append, List.length_cons] at h
  omega

end Lexeme

end FrontEnd
