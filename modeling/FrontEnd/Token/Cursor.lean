import FrontEnd.Token.Lexer

namespace FrontEnd

open Text

inductive Shape where
  | run (first more : Char → Bool)
  | exactly (text : List Char)

namespace Shape

def match? : Shape → List Char → Option (List Char)
  | run _ _, [] => none
  | run first more, c :: cs => if first c then some (c :: cs.takeWhile more) else none
  | exactly text, cs => if text.isPrefixOf cs then some text else none

end Shape

inductive Product where
  | nothing
  | word
  | number
  | fixed (kind : TokenKind) (text : List Char)

structure Pattern where
  shape : Shape
  product : Product

namespace Pattern

def fixed (text : List Char) (kind : TokenKind) : Pattern := ⟨.exactly text, .fixed kind text⟩

def isMatch (cs : List Char) (p : Pattern) : Bool := (p.shape.match? cs).isSome

/-- The patterns in the order in which they are tried. -/
def table : List Pattern :=
  ⟨.run isBlank isBlank, .nothing⟩ :: ⟨.run isWordStart isWordChar, .word⟩ ::
    ⟨.run Char.isDigit Char.isDigit, .number⟩ :: fixed ['=', '='] .equals ::
      fixed ['!', '='] .notEquals :: TokenKind.punctuation.map fun p => fixed [p.1] p.2

end Pattern

namespace Lexer

def character? (l : Lexer) : Option (Option Char) := l.remainder?.map List.head?

def pass (l : Lexer) (text : List Char) : Lexer := { l with position := l.position + byteSize text }

def cut (l : Lexer) (kind : TokenKind) (text : List Char) : Token × Lexer :=
  (⟨kind, String.ofList text, l.spanOf (byteSize text)⟩, l.pass text)

/-- The text that a shape matches at the cursor, none of it if there is no match. -/
def matched? (l : Lexer) (shape : Shape) : Option (List Char) :=
  l.remainder?.map fun cs => (shape.match? cs).getD []

def make? (l : Lexer) (p : Pattern) : Option (Option Token × Lexer) :=
  match p.product with
  | .nothing => (l.matched? p.shape).map fun text => (none, l.pass text)
  | .word => (l.matched? p.shape).map fun text =>
      (l.cut (.ofWord (String.ofList text)) text).map some id
  | .number => (l.matched? p.shape).map fun text => (l.cut .int text).map some id
  | .fixed kind text => some ((l.cut kind text).map some id)

/-- An illegal token of the character at the cursor, or of the NUL character if there is none. -/
def illegal? (l : Lexer) : Option (Token × Lexer) :=
  l.character?.map fun c => l.cut .illegal [c.getD '\x00']

/-- One round of reading: a token, or none if blanks were passed. -/
def round? (l : Lexer) : Option (Option Token × Lexer) :=
  if l.atEnd then some (some (.eof (l.spanOf 0)), l)
  else
    l.remainder?.bind fun cs =>
      match Pattern.table.find? (·.isMatch cs) with
      | some p => l.make? p
      | none => l.illegal?.map (·.map some id)

/-- Rounds up to the first token. No outcome means that reading fails. -/
inductive Reads : Lexer → Option (Token × Lexer) → Prop where
  | fault {l : Lexer} (round : l.round? = none) : Reads l none
  | token {l l' : Lexer} {t : Token} (round : l.round? = some (some t, l')) : Reads l (some (t, l'))
  | again {l l' : Lexer} {o : Option (Token × Lexer)} (round : l.round? = some (none, l'))
      (rest : Reads l' o) : Reads l o

/-- A token as an element of the sequence of tokens, which ends before the end token. -/
def element (t : Token) : Option Token := if t.kind = .eof then none else some t

def ReadsElement (l : Lexer) (o : Option (Option Token × Lexer)) : Prop :=
  ∃ r, l.Reads r ∧ o = r.map (·.map element id)

inductive Collects : Lexer → Option (List Token × Lexer) → Prop where
  | fault {l : Lexer} (next : l.ReadsElement none) : Collects l none
  | stop {l l' : Lexer} (next : l.ReadsElement (some (none, l'))) : Collects l (some ([], l'))
  | more {l l' : Lexer} {t : Token} {o : Option (List Token × Lexer)}
      (next : l.ReadsElement (some (some t, l'))) (rest : Collects l' o) :
      Collects l (o.map (·.map (t :: ·) id))

inductive Operation : Type → Type where
  | next : Operation Token
  | element : Operation (Option Token)
  | collect : Operation (List Token)
  | character : Operation (Option Char)
  | remainder : Operation (List Char)
  | atEnd : Operation Bool
  | spanOf (length : Nat) : Operation Span
  | skip (n : Nat) : Operation Unit

def Performs (l : Lexer) {α : Type} : Operation α → Option (α × Lexer) → Prop
  | .next, o => l.Reads o
  | .element, o => l.ReadsElement o
  | .collect, o => l.Collects o
  | .character, o => o = l.character?.map (·, l)
  | .remainder, o => o = l.remainder?.map (·, l)
  | .atEnd, o => o = some (l.atEnd, l)
  | .spanOf length, o => o = some (l.spanOf length, l)
  | .skip n, o => o = some ((), l.skip n)

end Lexer

end FrontEnd
