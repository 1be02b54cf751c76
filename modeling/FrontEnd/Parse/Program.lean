import FrontEnd.Parse.Expression
import FrontEnd.Token.Lexer

namespace FrontEnd

open Text

def State.ofSource (source : String) (file : Option String) : State :=
  let file := file.getD defaultFile
  ⟨scan file 0 source.toList, .cover file (byteSize source.toList) 0, []⟩

/-- The program of a source and its syntax errors in the order they were found. With errors the
program lacks the statements they stand in. -/
def parse (source : String) (file : Option String) : Program × List SyntaxError :=
  let expr := Parse.expression .standard maxNesting
  let (statements, s) := Parse.statements (Parse.statement expr) (.ofSource source file)
  (⟨statements⟩, s.diagnostics)

end FrontEnd
