import FrontEnd.Parse.Program

namespace FrontEnd

/-- A parser in the hands of its owner: the rules can be changed, levels of nesting opened and
closed, and any parser run on what is left to read, in any order. -/
structure Session where
  rules : Rules
  depth : Nat
  state : State

namespace Session

/-- A session on the tokens from the cursor of a lexer on. -/
def ofLexer? (l : Lexer) : Option Session :=
  l.drain?.map fun (tokens, l) => ⟨.standard, 0, ⟨tokens, l.spanOf 0, []⟩⟩

theorem ofLexer?_ofSource (source : String) (file : Option String) :
    ofLexer? (.ofSource source file) = some ⟨.standard, 0, .ofSource source file⟩ := by
  unfold ofLexer? Lexer.drain?
  rw [Lexer.unread?_ofSource]
  simp [Lexer.spanOf, Lexer.ofSource, State.ofSource]

theorem ofLexer?_of_remainder? {l : Lexer} {cs : List Char} (h : l.remainder? = some cs) :
    ofLexer? l = some ⟨.standard, 0,
      ⟨scan l.file l.position cs, .cover l.file (l.position + Text.byteSize cs) 0, []⟩⟩ := by
  unfold ofLexer? Lexer.drain?
  rw [Lexer.unread?_of_remainder? h]
  rfl

def current (s : Session) : Token := s.state.current

def peek (s : Session) : Token := s.state.peek

def diagnostics (s : Session) : List SyntaxError := s.state.diagnostics

def advance (s : Session) : Session := { s with state := s.state.advance }

def record (s : Session) (e : SyntaxError) : Session := { s with state := s.state.record e }

def recover (s : Session) (e : SyntaxError) : Session := { s with state := s.state.recover e }

def setOperand (s : Session) (kind : TokenKind) (rule : OperandRule) : Session :=
  { s with rules := s.rules.setOperand kind rule }

def setOperator (s : Session) (kind : TokenKind) (power : Power) (rule : OperatorRule) : Session :=
  { s with rules := s.rules.setOperator kind power rule }

inductive Registration where
  | operand (kind : TokenKind) (rule : OperandRule)
  | operator (kind : TokenKind) (power : Power) (rule : OperatorRule)

def register (s : Session) : Registration → Session
  | .operand kind rule => s.setOperand kind rule
  | .operator kind power rule => s.setOperator kind power rule

def enter (s : Session) : Except SyntaxError Session :=
  if s.depth < maxNesting then .ok { s with depth := s.depth + 1 }
  else .error ⟨.tooDeep maxNesting, s.current.position⟩

def leave (s : Session) (levels : Nat) : Session := { s with depth := s.depth - levels }

def expression (s : Session) : Power → Parse Expr :=
  Parse.expression s.rules (maxNesting - s.depth)

def run {α : Type} (s : Session) (p : Parse α) : Except SyntaxError α × Session :=
  let (r, t) := p.run s.state
  (r, { s with state := t })

def program (s : Session) : Program × Session :=
  let (statements, t) := Parse.statements (Parse.statement s.expression) s.state
  (⟨statements⟩, { s with state := t })

end Session

end FrontEnd
