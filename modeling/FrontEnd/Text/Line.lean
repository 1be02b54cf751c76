import FrontEnd.Text.Bytes

namespace FrontEnd.Text

def lines : List Char → List (List Char)
  | [] => []
  | c :: cs =>
    if c = '\n' then [c] :: lines cs
    else
      match lines cs with
      | [] => [[c]]
      | l :: ls => (c :: l) :: ls

theorem flatten_lines (cs : List Char) : (lines cs).flatten = cs := by
  induction cs with
  | nil => rfl
  | cons c cs ih =>
    unfold lines
    split
    · simp [ih]
    · split <;> simp_all

/-- A place in a text: the line with its number, counted from one, and an offset in bytes from
the start of the line. -/
structure Place where
  number : Nat
  line : List Char
  offset : Nat
  deriving DecidableEq

/-- The place at a byte offset of the lines that follow line `number - 1`. A last line that no
line feed ends also holds the offset behind it. -/
def locateIn (number offset : Nat) : List (List Char) → Option Place
  | [] => if offset = 0 then some ⟨number, [], 0⟩ else none
  | l :: ls =>
    if offset < byteSize l ∨ (offset = byteSize l ∧ l.getLast? ≠ some '\n') then
      some ⟨number, l, offset⟩
    else locateIn (number + 1) (offset - byteSize l) ls

def locate (cs : List Char) (offset : Nat) : Option Place := locateIn 1 offset (lines cs)

/-- The number of characters before the place in its line. An offset inside a character counts
in bytes. -/
def Place.column (p : Place) : Nat :=
  match dropBytes? p.offset p.line with
  | some rest => p.line.length - rest.length
  | none => p.offset

end FrontEnd.Text
