import FrontEnd.Token.Kind

namespace FrontEnd

/-- A byte offset into a named source, kept modulo `2 ^ 32`. -/
structure Position where
  offset : UInt32
  file : String
  deriving DecidableEq

/-- A stretch of a named source, `stop` not included. -/
structure Span where
  start : UInt32
  stop : UInt32
  file : String
  deriving DecidableEq

namespace Span

def cover (file : String) (offset length : Nat) : Span :=
  ⟨offset.toUInt32, (offset + length).toUInt32, file⟩

def position (s : Span) : Position := ⟨s.start, s.file⟩

end Span

structure Token where
  kind : TokenKind
  text : String
  span : Span
  deriving DecidableEq

namespace Token

def eof (span : Span) : Token := ⟨.eof, "", span⟩

@[simp] theorem kind_eof (span : Span) : (eof span).kind = .eof := rfl

def position (t : Token) : Position := t.span.position

/-- The kind, followed by the text where the kind does not tell it. -/
def describe (t : Token) : String :=
  match t.kind with
  | .identifier | .int | .illegal => t.kind.name ++ " (" ++ t.text ++ ")"
  | kind => kind.name

end Token

end FrontEnd
