import FrontEnd.Diagnostic.Basic

namespace FrontEnd

/-- What is left to read, current token first, where the input ends, and the errors so far. -/
structure State where
  rest : List Token
  ending : Span
  diagnostics : List SyntaxError
  deriving DecidableEq

namespace State

def current (s : State) : Token := s.rest.headD (.eof s.ending)

def peek (s : State) : Token := s.rest.tail.headD (.eof s.ending)

def advance (s : State) : State := { s with rest := s.rest.tail }

def record (s : State) (e : SyntaxError) : State := { s with diagnostics := s.diagnostics ++ [e] }

/-- Records the error of a statement that was given up, and steps over the semicolon of that
statement if it is next. -/
def recover (s : State) (e : SyntaxError) : State :=
  if s.peek.kind = .semicolon then (s.record e).advance else s.record e

/-- The second state comes after the first: tokens were read and errors recorded, nothing else. -/
structure Advances (s t : State) : Prop where
  rest : t.rest <:+ s.rest
  ending : t.ending = s.ending
  diagnostics : s.diagnostics <+: t.diagnostics

namespace Advances

theorem refl (s : State) : s.Advances s :=
  ⟨List.suffix_refl _, rfl, List.prefix_refl _⟩

theorem trans {s t u : State} (h : s.Advances t) (k : t.Advances u) : s.Advances u :=
  ⟨k.rest.trans h.rest, k.ending.trans h.ending, h.diagnostics.trans k.diagnostics⟩

theorem length_le {s t : State} (h : s.Advances t) : t.rest.length ≤ s.rest.length :=
  h.rest.length_le

end Advances

theorem advances_advance (s : State) : s.Advances s.advance :=
  ⟨List.tail_suffix _, rfl, List.prefix_refl _⟩

theorem advances_record (s : State) (e : SyntaxError) : s.Advances (s.record e) :=
  ⟨List.suffix_refl _, rfl, List.prefix_append _ _⟩

theorem advances_recover (s : State) (e : SyntaxError) : s.Advances (s.recover e) := by
  unfold recover
  split
  · exact (advances_record s e).trans (advances_advance _)
  · exact advances_record s e

theorem Advances.length_advance_lt {s t : State} (h : s.Advances t) (hs : s.rest ≠ []) :
    t.advance.rest.length < s.rest.length := by
  have hpos := List.length_pos_iff.2 hs
  have hle := h.length_le
  simp only [advance, List.length_tail]
  omega

theorem rest_ne_nil_of_current {s : State} (h : s.current.kind ≠ .eof) : s.rest ≠ [] := by
  intro hs
  simp [current, hs] at h

theorem rest_ne_nil_of_peek {s : State} (h : s.peek.kind ≠ .eof) : s.rest ≠ [] := by
  intro hs
  simp [peek, hs] at h

end State

/-- A parser answers with a value or fails with an error, in the state it reached. It never gives a
token back nor forgets an error. -/
structure Parse (α : Type) where
  run : State → Except SyntaxError α × State
  forward : ∀ s : State, s.Advances (run s).2

namespace Parse

variable {α β : Type}

protected def pure (a : α) : Parse α := ⟨fun s => (.ok a, s), State.Advances.refl⟩

protected def bind (p : Parse α) (f : α → Parse β) : Parse β where
  run s :=
    match p.run s with
    | (.ok a, t) => (f a).run t
    | (.error e, t) => (.error e, t)
  forward s := by
    have h := p.forward s
    cases hp : p.run s with
    | mk r t =>
      rw [hp] at h
      cases r with
      | ok a => exact h.trans ((f a).forward t)
      | error e => exact h

instance : Monad Parse where
  pure := Parse.pure
  bind := Parse.bind

@[simp] theorem run_pure (a : α) (s : State) : (pure a : Parse α).run s = (.ok a, s) := rfl

theorem run_bind (p : Parse α) (f : α → Parse β) (s : State) :
    (p >>= f).run s =
      match p.run s with
      | (.ok a, t) => (f a).run t
      | (.error e, t) => (.error e, t) := rfl

theorem run_bind_ok {p : Parse α} {s t : State} {a : α} (h : p.run s = (.ok a, t))
    (f : α → Parse β) : (p >>= f).run s = (f a).run t := by
  rw [run_bind, h]

theorem run_bind_error {p : Parse α} {s t : State} {e : SyntaxError}
    (h : p.run s = (.error e, t)) (f : α → Parse β) : (p >>= f).run s = (.error e, t) := by
  rw [run_bind, h]

theorem advances_of_run {p : Parse α} {s t : State} {r : Except SyntaxError α}
    (h : p.run s = (r, t)) : s.Advances t := by
  have := p.forward s
  rwa [h] at this

def current : Parse Token := ⟨fun s => (.ok s.current, s), State.Advances.refl⟩

def peek : Parse Token := ⟨fun s => (.ok s.peek, s), State.Advances.refl⟩

def advance : Parse Unit := ⟨fun s => (.ok (), s.advance), State.advances_advance⟩

def fail (cause : Cause) (position : Position) : Parse α :=
  ⟨fun s => (.error ⟨cause, position⟩, s), State.Advances.refl⟩

@[simp] theorem run_current (s : State) : current.run s = (.ok s.current, s) := rfl

@[simp] theorem run_peek (s : State) : peek.run s = (.ok s.peek, s) := rfl

@[simp] theorem run_advance (s : State) : advance.run s = (.ok (), s.advance) := rfl

@[simp] theorem run_fail (cause : Cause) (position : Position) (s : State) :
    (fail cause position : Parse α).run s = (.error ⟨cause, position⟩, s) := rfl

def expectPeek (kind : TokenKind) : Parse Token := do
  let token ← peek
  if token.kind = kind then
    advance
    return token
  else fail (.unexpected kind token.kind) token.position

theorem run_expectPeek (kind : TokenKind) (s : State) :
    (expectPeek kind).run s =
      if s.peek.kind = kind then (.ok s.peek, s.advance)
      else (.error ⟨.unexpected kind s.peek.kind, s.peek.position⟩, s) := by
  unfold expectPeek
  rw [run_bind, run_peek]
  by_cases h : s.peek.kind = kind
  · simp only [if_pos h]
    rfl
  · simp only [if_neg h]
    rfl

def skipSemicolon : Parse Unit := do
  let token ← peek
  if token.kind = .semicolon then advance

theorem run_skipSemicolon (s : State) :
    skipSemicolon.run s = (.ok (), if s.peek.kind = .semicolon then s.advance else s) := by
  unfold skipSemicolon
  rw [run_bind, run_peek]
  by_cases h : s.peek.kind = .semicolon
  · simp only [if_pos h]
    rfl
  · simp only [if_neg h]
    rfl

def runItems (item : Parse α) (s : State) : Except SyntaxError (List α) × State :=
  match _h : item.run s with
  | (.error e, t) => (.error e, t)
  | (.ok a, t) =>
    if _hc : t.peek.kind = .comma then
      match runItems item t.advance with
      | (.error e, u) => (.error e, u)
      | (.ok as, u) => (.ok (a :: as), u)
    else (.ok [a], t)
termination_by s.rest.length
decreasing_by
  have hle := (advances_of_run _h).length_le
  have hlt := (State.Advances.refl t).length_advance_lt
    (State.rest_ne_nil_of_peek (by simp [_hc]))
  omega

theorem advances_runItems (item : Parse α) (s : State) : s.Advances (runItems item s).2 := by
  fun_induction runItems item s with
  | case1 s e t h => exact advances_of_run h
  | case2 s a t h hc e u hu ih =>
    rw [hu] at ih
    exact ((advances_of_run h).trans (State.advances_advance t)).trans ih
  | case3 s a t h hc as u hu ih =>
    rw [hu] at ih
    exact ((advances_of_run h).trans (State.advances_advance t)).trans ih
  | case4 s a t h hc => exact advances_of_run h

/-- Items with commas between them up to a closing parenthesis, perhaps none. The cursor stands
before the first item, and on the parenthesis afterwards. -/
def parenthesised (item : Parse α) : Parse (List α) := do
  let token ← peek
  if token.kind = .closeParen then
    advance
    return []
  else
    let items ← ⟨runItems item, advances_runItems item⟩
    let _ ← expectPeek .closeParen
    return items

end Parse

end FrontEnd
