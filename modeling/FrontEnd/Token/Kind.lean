namespace FrontEnd

inductive TokenKind where
  | eof
  | illegal
  | identifier
  | int
  | openCurly
  | closeCurly
  | openParen
  | closeParen
  | assignment
  | equals
  | not
  | notEquals
  | less
  | greater
  | comma
  | semicolon
  | plus
  | dash
  | slash
  | star
  | letWord
  | fnWord
  | trueWord
  | falseWord
  | ifWord
  | elseWord
  | returnWord
  deriving DecidableEq

namespace TokenKind

def name : TokenKind → String
  | eof => "EOF"
  | illegal => "Illegal"
  | identifier => "Identifier"
  | int => "Int"
  | openCurly => "OpenCurly"
  | closeCurly => "CloseCurly"
  | openParen => "OpenParen"
  | closeParen => "CloseParen"
  | assignment => "Assignment"
  | equals => "Equals"
  | not => "Not"
  | notEquals => "NotEquals"
  | less => "Less"
  | greater => "Greater"
  | comma => "Comma"
  | semicolon => "Semicolon"
  | plus => "Plus"
  | dash => "Dash"
  | slash => "Slash"
  | star => "Star"
  | letWord => "Let"
  | fnWord => "Fn"
  | trueWord => "True"
  | falseWord => "False"
  | ifWord => "If"
  | elseWord => "Else"
  | returnWord => "Return"

def all : List TokenKind :=
  [assignment, closeCurly, closeParen, comma, dash, eof, elseWord, equals, falseWord, fnWord,
    greater, identifier, ifWord, illegal, int, less, letWord, not, notEquals, openCurly, openParen,
    plus, returnWord, semicolon, slash, star, trueWord]

theorem mem_all (k : TokenKind) : k ∈ all := by cases k <;> decide

def reservedWords : List (String × TokenKind) :=
  [("let", letWord), ("fn", fnWord), ("true", trueWord), ("false", falseWord), ("if", ifWord),
    ("else", elseWord), ("return", returnWord)]

def ofReserved? (word : String) : Option TokenKind := reservedWords.lookup word

def ofWord (word : String) : TokenKind := (ofReserved? word).getD identifier

def punctuation : List (Char × TokenKind) :=
  [('=', assignment), ('!', not), ('+', plus), ('-', dash), ('*', star), ('/', slash), ('<', less),
    ('>', greater), ('(', openParen), (')', closeParen), ('\x7b', openCurly), ('\x7d', closeCurly),
    (',', comma), (';', semicolon)]

/-- The kind of a character that starts neither a word nor a number. -/
def ofPunctuation (c : Char) : TokenKind := (punctuation.lookup c).getD illegal

end TokenKind

end FrontEnd
