namespace FrontEnd

inductive Power where
  /-- Binds nothing: the ceiling below every operator. -/
  | lowest
  | equality
  | relational
  | additive
  | multiplicative
  | unary
  | call
  deriving DecidableEq

namespace Power

def rank : Power → Nat
  | lowest => 0
  | equality => 1
  | relational => 2
  | additive => 3
  | multiplicative => 4
  | unary => 5
  | call => 6

instance : LT Power := ⟨fun p q => p.rank < q.rank⟩

instance : LE Power := ⟨fun p q => p.rank ≤ q.rank⟩

instance (p q : Power) : Decidable (p < q) := inferInstanceAs (Decidable (p.rank < q.rank))

instance (p q : Power) : Decidable (p ≤ q) := inferInstanceAs (Decidable (p.rank ≤ q.rank))

end Power

end FrontEnd
