import FrontEnd.Text.Quoted
import FrontEnd.Token.Basic

namespace FrontEnd

inductive Cause where
  /-- A character that belongs to no token stands where an expression should start. -/
  | unrecognised (text : String)
  | unexpected (expected found : TokenKind)
  | noOperand (kind : TokenKind)
  | badInteger (text : String)
  | tooDeep (limit : Nat)
  deriving DecidableEq

namespace Cause

def name : Cause → String
  | unrecognised _ => "UnrecognisedToken"
  | unexpected _ _ => "UnexpectedToken"
  | noOperand _ => "MissingPrefixRule"
  | badInteger _ => "NumberParseError"
  | tooDeep _ => "NestingTooDeep"

def message : Cause → String
  | unrecognised text => "unrecognised token: " ++ Text.quoted text
  | unexpected expected found =>
    "expected next token to be " ++ expected.name ++ ", got " ++ found.name ++ " instead"
  | noOperand kind => "no prefix parse function for " ++ kind.name ++ " found"
  | badInteger text => "could not parse " ++ Text.quoted text ++ " as integer"
  | tooDeep limit => "expression nested deeper than " ++ toString limit ++ " levels"

/-- What to tell the author of the program, if there is more to tell than the name. -/
def tip : Cause → Option String
  | unrecognised _ => none
  | unexpected expected found => some (message (unexpected expected found))
  | noOperand kind => some ("`" ++ kind.name ++ "` cannot start an expression")
  | badInteger text =>
    some ("Invalid integer: `" ++ text ++ "`, is it above the integer limit?")
  | tooDeep limit =>
    some ("Expressions may nest at most " ++ toString limit
      ++ " levels, try splitting this one with `let`")

end Cause

structure SyntaxError where
  cause : Cause
  position : Position
  deriving DecidableEq

end FrontEnd
