import FrontEnd.Text.Line

namespace FrontEnd.Text

/-- The place in the first of these lines that has the offset, otherwise the number of the line
behind them. The first line has the number `number` and begins at `start`. -/
def searchLines (offset : Nat) : (number start : Nat) → List (List Char) → Except Nat Place
  | number, _, [] => .error number
  | number, start, l :: ls =>
    let stop := start + byteSize l
    if start ≤ offset ∧ offset < stop then .ok ⟨number, l, offset - start⟩
    else searchLines offset (number + 1) stop ls

/-- The place behind these lines, when the line behind them has the number `number`. -/
def lastPlace (number : Nat) (ls : List (List Char)) : Place :=
  match ls.getLast? with
  | none => ⟨number, [], 0⟩
  | some l => if l.getLast? = some '\n' then ⟨number, [], 0⟩ else ⟨number - 1, l, byteSize l⟩

def search (cs : List Char) (offset : Nat) : Option Place :=
  if byteSize cs < offset then none
  else
    match searchLines offset 1 0 (lines cs) with
    | .ok p => some p
    | .error number => some (lastPlace number (lines cs))

end FrontEnd.Text
