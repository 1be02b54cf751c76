import FrontEnd.Proofs.Lossless
import FrontEnd.Proofs.Nesting
import Mathlib.Data.List.GetD
import Mathlib.Logic.Relation

namespace FrontEnd

open Text Procedure

namespace Lexer

/-- The tokens that reading gives one after the other. -/
def token? (l : Lexer) : Nat → Option Token
  | 0 => l.next?.map Prod.fst
  | i + 1 => l.next?.bind fun p => p.2.token? i

theorem token?_zero {l l' : Lexer} {t : Token} (h : l.next? = some (t, l')) :
    l.token? 0 = some t := by
  rw [token?, h, Option.map_some]

theorem token?_succ {l l' : Lexer} {t : Token} (h : l.next? = some (t, l')) (i : Nat) :
    l.token? (i + 1) = l'.token? i := by
  rw [token?, h, Option.bind_some]

theorem token?_of_atEnd {l : Lexer} (h : l.atEnd = true) (i : Nat) :
    l.token? i = some (.eof (l.spanOf 0)) := by
  induction i with
  | zero => exact token?_zero (next?_of_atEnd h)
  | succ i ih => rw [token?_succ (next?_of_atEnd h), ih]

theorem token?_of_remainder? {l : Lexer} {cs : List Char} (h : l.remainder? = some cs) (i : Nat) :
    l.token? i = some ((scan l.file l.position cs).getD i
      (.eof (.cover l.file (l.position + byteSize cs) 0))) := by
  induction i generalizing l cs with
  | zero =>
    cases hrest : cs.dropWhile isBlank with
    | nil =>
      obtain ⟨hscan, hnext⟩ := next?_of_blanks h hrest
      rw [token?_zero hnext, hscan, List.getD_nil]
    | cons c ds =>
      obtain ⟨t, n, rest, hnext, -, -, -, -, hscan⟩ := next?_of_cons h hrest
      rw [token?_zero hnext, hscan, List.getD_cons_zero]
  | succ i ih =>
    cases hrest : cs.dropWhile isBlank with
    | nil =>
      obtain ⟨hscan, hnext⟩ := next?_of_blanks h hrest
      rw [token?_succ hnext, token?_of_atEnd (atEnd_of_remainder? h), hscan, List.getD_nil]
      rfl
    | cons c ds =>
      obtain ⟨t, n, rest, hnext, -, hl', -, hsize, hscan⟩ := next?_of_cons h hrest
      rw [token?_succ hnext, ih hl', hscan, hsize, List.getD_cons_succ]

end Lexer

theorem Session.ofLexer?_token? {l : Lexer} {cs : List Char} (h : l.remainder? = some cs) :
    ∃ (input : List Token) (stop : Span),
      ofLexer? l = some ⟨.standard, 0, ⟨input, stop, []⟩⟩ ∧ (∀ t ∈ input, t.kind ≠ .eof) ∧
        ∀ i, l.token? i = some (input.getD i (.eof stop)) :=
  ⟨_, _, ofLexer?_of_remainder? h, fun _ => kind_ne_eof_of_mem_scan, Lexer.token?_of_remainder? h⟩

theorem kind_getD_eof_iff {input : List Token} {stop : Span}
    (h : ∀ t ∈ input, t.kind ≠ .eof) (i : Nat) :
    (input.getD i (.eof stop)).kind = .eof ↔ input.length ≤ i := by
  constructor
  · intro hi
    by_contra hlt
    rw [List.getD_eq_getElem _ _ (Nat.lt_of_not_le hlt)] at hi
    exact h _ (List.getElem_mem _) hi
  · intro hi
    rw [List.getD_eq_default _ _ hi, Token.kind_eof]

/-- The tokens that are left are the last ones of the input. -/
def State.TailOf (input : List Token) (stop : Span) (s : State) : Prop :=
  s.rest <:+ input ∧ s.ending = stop

namespace State

variable {input : List Token} {stop : Span} {s t : State}

theorem TailOf.advances (h : s.TailOf input stop) (k : s.Advances t) : t.TailOf input stop :=
  ⟨k.rest.trans h.1, k.ending.trans h.2⟩

def index (input : List Token) (s : State) : Nat := input.length - s.rest.length

theorem Advances.index_le (h : s.Advances t) : s.index input ≤ t.index input :=
  Nat.sub_le_sub_left h.length_le _

theorem TailOf.getD_rest (h : s.TailOf input stop) (i : Nat) :
    s.rest.getD i (.eof stop) = input.getD (s.index input + i) (.eof stop) := by
  obtain ⟨⟨front, rfl⟩, -⟩ := h
  rw [index, List.length_append, Nat.add_sub_cancel,
    List.getD_append_right _ _ _ _ (Nat.le_add_right _ _), Nat.add_sub_cancel_left]

theorem TailOf.current (h : s.TailOf input stop) :
    s.current = input.getD (s.index input) (.eof stop) := by
  rw [← Nat.add_zero (s.index input), ← h.getD_rest, ← h.2]
  cases hr : s.rest <;> simp [State.current, hr]

theorem TailOf.peek (h : s.TailOf input stop) :
    s.peek = input.getD (s.index input + 1) (.eof stop) := by
  rw [← h.getD_rest, ← h.2]
  match hr : s.rest with
  | [] | [_] | _ :: _ :: _ => simp [State.peek, hr]

end State

/-- One operation of the owner, failed or not. -/
def Session.Step (s t : Session) : Prop :=
  ∃ (op : Operation) (r : Except SyntaxError Unit), Returns op.procedure s r t

theorem Session.tailOf_of_steps {input : List Token} {stop : Span} {s t : Session}
    (hs : s.state.TailOf input stop) (h : Relation.ReflTransGen Step s t) :
    t.state.TailOf input stop := by
  induction h with
  | refl => exact hs
  | tail _ hstep ih =>
    obtain ⟨op, r, hop⟩ := hstep
    exact ih.advances (Operation.evolves hop).advances

/-- A session begins on the first two of the tokens that the lexer gives from a boundary of the
source on, the last of which is the end token again and again. However it is used then, it stands on
two tokens side by side. Whatever is done next ends, and does not move back, forgets no error, and
changes no rule if it is no registration. -/
theorem window_adjacent {l : Lexer} {cs : List Char} (h : l.remainder? = some cs) :
    ∃ (token : Nat → Token) (start : Session) (index : Session → Nat),
      (∀ i, l.token? i = some (token i)) ∧
      (∃ n, (∀ i, (token i).kind = .eof ↔ n ≤ i) ∧ ∀ i, n ≤ i → token i = token n) ∧
      Session.ofLexer? l = some start ∧ index start = 0 ∧
      ∀ s, Relation.ReflTransGen Session.Step start s →
        s.current = token (index s) ∧ s.peek = token (index s + 1) ∧
        ∀ op : Operation, (∃ r t, Returns op.procedure s r t) ∧
          ∀ r t, Returns op.procedure s r t →
            index s ≤ index t ∧ s.diagnostics <+: t.diagnostics ∧
              ((∀ registration, op ≠ .register registration) → t.rules = s.rules) := by
  obtain ⟨input, stop, hstart, hkinds, htoken⟩ := Session.ofLexer?_token? h
  refine ⟨fun i => input.getD i (.eof stop), _, fun s => s.state.index input, htoken, ?_, hstart,
    by simp [State.index], fun s hs => ?_⟩
  · refine ⟨input.length, kind_getD_eof_iff hkinds, fun i hi => ?_⟩
    exact (List.getD_eq_default _ _ hi).trans (List.getD_eq_default _ _ (Nat.le_refl _)).symm
  · have htail : s.state.TailOf input stop :=
      Session.tailOf_of_steps ⟨List.suffix_refl _, rfl⟩ hs
    refine ⟨htail.current, htail.peek, fun op => ⟨?_, fun r t ht => ?_⟩⟩
    · obtain ⟨r, t, ht, -⟩ := op.returns_procedure s
      exact ⟨r, t, ht⟩
    · have hevolves := Operation.evolves ht
      exact ⟨hevolves.advances.index_le, hevolves.advances.diagnostics, hevolves.rules⟩

theorem window_adjacent_inside :
    let l : Lexer := ⟨"\u00e9-a \x7b", "shell", 2⟩
    l.remainder? = some ['-', 'a', ' ', '\x7b'] ∧
      ∃ (token : Nat → Token) (start : Session) (index : Session → Nat),
        (∀ i, l.token? i = some (token i)) ∧ Session.ofLexer? l = some start ∧
        let s : Session := { start.register (.operator .eof .call .binary) with depth := 1 }
        s.current = token (index s) ∧ s.peek = token (index s + 1) ∧
          ∃ r t, Returns (Operation.read .block).procedure s r t ∧ index s ≤ index t ∧
            s.diagnostics <+: t.diagnostics ∧ t.rules = s.rules := by
  intro l
  have h : l.remainder? = some ['-', 'a', ' ', '\x7b'] := by decide
  refine ⟨h, ?_⟩
  obtain ⟨token, start, index, htoken, -, hstart, -, hall⟩ := window_adjacent h
  refine ⟨token, start, index, htoken, hstart, ?_⟩
  intro s
  have hregister : Session.Step start (start.register (.operator .eof .call .binary)) :=
    ⟨.register (.operator .eof .call .binary), _, returns_const_iff.2 rfl⟩
  have henter : Session.Step (start.register (.operator .eof .call .binary)) s := by
    cases (Session.ofLexer?_of_remainder? h).symm.trans hstart
    exact ⟨.enter, _, returns_const_iff.2 (run_enter_of_lt (by decide))⟩
  obtain ⟨hcurrent, hpeek, hops⟩ := hall s (.tail (.single hregister) henter)
  obtain ⟨⟨r, t, ht⟩, hafter⟩ := hops (.read .block)
  obtain ⟨hindex, hdiagnostics, hrules⟩ := hafter r t ht
  exact ⟨hcurrent, hpeek, r, t, ht, hindex, hdiagnostics, hrules (by simp)⟩

end FrontEnd
