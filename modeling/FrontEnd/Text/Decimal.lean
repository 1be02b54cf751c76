namespace FrontEnd.Text

def decimal (cs : List Char) : Nat := cs.foldl (fun n c => 10 * n + (c.toNat - '0'.toNat)) 0

def maxInteger : Nat := 0x7fffffffffffffff

/-- The integer that a text of decimal digits writes, if there is one so great. -/
def integer? (cs : List Char) : Option Int64 :=
  if decimal cs ≤ maxInteger then some (Int64.ofNat (decimal cs)) else none

end FrontEnd.Text
