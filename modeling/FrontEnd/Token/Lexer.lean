import FrontEnd.Token.Basic
import FrontEnd.Token.Lexeme

namespace FrontEnd

open Text

/-- The tokens of a text that begins at byte `offset` of its source. -/
def scan (file : String) (offset : Nat) : List Char → List Token
  | [] => []
  | c :: cs =>
    if isBlank c then scan file (offset + c.utf8Size) cs
    else
      let x := Lexeme.read c cs
      let size := byteSize x.text
      ⟨x.kind, String.ofList x.text, .cover file offset size⟩ :: scan file (offset + size) x.rest
termination_by cs => cs.length
decreasing_by
  · simp
  · have := Lexeme.length_rest_le c cs
    simp only [List.length_cons]
    omega

def defaultFile : String := "shell"

/-- A cursor on a source. The position counts bytes and may lie anywhere, also beyond the end. -/
structure Lexer where
  source : String
  file : String
  position : Nat
  deriving DecidableEq

namespace Lexer

def ofSource (source : String) (file : Option String) : Lexer :=
  ⟨source, file.getD defaultFile, 0⟩

/-- Moves the cursor by hand. The position is a word of 64 bits. -/
def skip (l : Lexer) (n : Nat) : Lexer := { l with position := (l.position + n) % UInt64.size }

/-- The span of so many bytes from the cursor on. Its end is a sum of words of 64 bits without a
check for overflow, which makes no difference modulo `2 ^ 32`. -/
def spanOf (l : Lexer) (length : Nat) : Span := .cover l.file l.position length

def atEnd (l : Lexer) : Bool := byteSize l.source.toList ≤ l.position

/-- The text from the cursor on, if the cursor is on a boundary of the source. -/
def remainder? (l : Lexer) : Option (List Char) := dropBytes? l.position l.source.toList

/-- The text that is still to be read: none of it once the cursor is at the end or beyond. -/
def unread? (l : Lexer) : Option (List Char) := if l.atEnd then some [] else l.remainder?

/-- Reads one token and moves the cursor behind it. At the end of the source this is the end
token, again and again. -/
def next? (l : Lexer) : Option (Token × Lexer) :=
  l.unread?.map fun cs =>
    let start := l.position + byteSize (cs.takeWhile isBlank)
    match cs.dropWhile isBlank with
    | [] => (.eof (.cover l.file start 0), { l with position := start })
    | c :: cs =>
      let x := Lexeme.read c cs
      let size := byteSize x.text
      (⟨x.kind, String.ofList x.text, .cover l.file start size⟩,
        { l with position := start + size })

/-- The tokens from the cursor on, the end token left out, and the cursor behind them. -/
def drain? (l : Lexer) : Option (List Token × Lexer) :=
  l.unread?.map fun cs =>
    (scan l.file l.position cs, { l with position := l.position + byteSize cs })

theorem unread?_ofSource (source : String) (file : Option String) :
    (ofSource source file).unread? = some source.toList := by
  unfold unread? atEnd remainder?
  by_cases h : source.toList = []
  · simp [ofSource, h]
  · have hpos : byteSize source.toList ≠ 0 := mt byteSize_eq_zero_iff.1 h
    simp [ofSource, hpos]

theorem unread?_of_remainder? {l : Lexer} {cs : List Char} (h : l.remainder? = some cs) :
    l.unread? = some cs := by
  unfold unread?
  split
  · next hend =>
    obtain ⟨front, hsource, hsize⟩ := dropBytes?_eq_some_iff.1 h
    simp only [atEnd, decide_eq_true_eq, hsource, byteSize_append] at hend
    rw [byteSize_eq_zero_iff.1 (show byteSize cs = 0 by omega)]
  · exact h

end Lexer

def tokenize (source : String) (file : Option String) : List Token :=
  let file := file.getD defaultFile
  scan file 0 source.toList ++ [.eof (.cover file (byteSize source.toList) 0)]

end FrontEnd
