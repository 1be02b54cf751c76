import FrontEnd.Rule.Power
import FrontEnd.Token.Kind

namespace FrontEnd

inductive OperandRule where
  | primary
  | prefixed
  | grouped
  | conditional
  | function
  deriving DecidableEq

inductive OperatorRule where
  | binary
  | call
  deriving DecidableEq

/-- For each kind of token how an operand that starts with it is read, and how an expression before
it is extended. Rules are data, so that a kind can be given another one. -/
structure Rules where
  operand : TokenKind → Option OperandRule
  operator : TokenKind → Option (Power × OperatorRule)

namespace Rules

def standard : Rules where
  operand
    | .int | .identifier | .trueWord | .falseWord => some .primary
    | .dash | .not => some .prefixed
    | .openParen => some .grouped
    | .ifWord => some .conditional
    | .fnWord => some .function
    | _ => none
  operator
    | .equals | .notEquals => some (.equality, .binary)
    | .less | .greater => some (.relational, .binary)
    | .plus | .dash => some (.additive, .binary)
    | .star | .slash => some (.multiplicative, .binary)
    | .openParen => some (.call, .call)
    | _ => none

/-- The binding power of a kind, the lowest if it extends nothing. -/
def power (r : Rules) (kind : TokenKind) : Power := ((r.operator kind).map Prod.fst).getD .lowest

def setOperand (r : Rules) (kind : TokenKind) (rule : OperandRule) : Rules :=
  { r with operand := fun k => if k = kind then some rule else r.operand k }

def setOperator (r : Rules) (kind : TokenKind) (power : Power) (rule : OperatorRule) : Rules :=
  { r with operator := fun k => if k = kind then some (power, rule) else r.operator k }

def operandKinds (r : Rules) : List TokenKind :=
  TokenKind.all.filter fun k => (r.operand k).isSome

def operatorKinds (r : Rules) : List TokenKind :=
  TokenKind.all.filter fun k => (r.operator k).isSome

end Rules

end FrontEnd
