import FrontEnd.Parse.Program
import FrontEnd.Proofs.Canonical
import FrontEnd.Proofs.Scanning
import FrontEnd.Proofs.Simulation

namespace FrontEnd

open Text

def Position.shift (n : Nat) (p : Position) : Position := { p with offset := p.offset + n.toUInt32 }

def Span.shift (n : Nat) (s : Span) : Span :=
  { s with start := s.start + n.toUInt32, stop := s.stop + n.toUInt32 }

def Token.shift (n : Nat) (t : Token) : Token := { t with span := t.span.shift n }

def SyntaxError.shift (n : Nat) (e : SyntaxError) : SyntaxError :=
  { e with position := e.position.shift n }

def Stmt.shift (n : Nat) (a : Stmt) : Stmt := a.relabel (Token.shift n) fun t _ => t.shift n

theorem cover_add (file : String) (n offset length : Nat) :
    Span.cover file (n + offset) length = (Span.cover file offset length).shift n := by
  have hstart : n + offset = offset + n := Nat.add_comm n offset
  have hstop : n + offset + length = offset + length + n := by omega
  rw [Span.cover, hstop, hstart]
  simp only [Span.cover, Span.shift, Nat.toUInt32, UInt32.ofNat_add]

theorem scan_add (file : String) (n offset : Nat) (cs : List Char) :
    scan file (n + offset) cs = (scan file offset cs).map (Token.shift n) := by
  fun_induction scan file offset cs with
  | case1 offset => simp [scan]
  | case2 offset c cs hb ih => rw [scan, if_pos hb, Nat.add_assoc, ih]
  | case3 offset c cs hb x size ih =>
    have hnext : n + offset + byteSize (Lexeme.read c cs).text = n + (offset + size) :=
      Nat.add_assoc _ _ _
    rw [scan, if_neg hb, List.map_cons, ← ih]
    simp only [cover_add, hnext]
    rfl

section

variable {f : Token → Token}

theorem Ident.Related.eq_relabel {i j : Ident} (h : i.Related (fun t u => u = f t) j) :
    j = i.relabel f := by
  obtain ⟨token, value⟩ := j
  obtain ⟨ht, hv⟩ := h
  simp only at ht hv
  rw [ht, ← hv]
  rfl

theorem map_relabel_of_forall₂ {is js : List Ident}
    (h : List.Forall₂ (Ident.Related fun t u => u = f t) is js) :
    js = is.map (Ident.relabel f) := by
  induction h with
  | nil => rfl
  | cons h _ ih => rw [List.map_cons, ← h.eq_relabel, ← ih]

mutual

theorem Expr.Related.eq_relabel {a b : Expr} :
    a.Related (fun t u => u = f t) b → b = a.relabel f fun t _ => f t
  | .ident h => by rw [Expr.relabel, ← h.eq_relabel]
  | .int h => by rw [Expr.relabel, h]
  | .bool h => by rw [Expr.relabel, h]
  | .unary h ha => by rw [Expr.relabel, h, ← ha.eq_relabel]
  | .binary h ha hb => by rw [Expr.relabel, h, ← ha.eq_relabel, ← hb.eq_relabel]
  | .cond h ha hx => by rw [Expr.relabel, h, ← ha.eq_relabel, ← hx.eq_relabel]
  | .condElse h ha hx hy => by
    rw [Expr.relabel, h, ← ha.eq_relabel, ← hx.eq_relabel, ← hy.eq_relabel]
  | .fn h hi hx => by rw [Expr.relabel, h, ← map_relabel_of_forall₂ hi, ← hx.eq_relabel]
  | .call h ha has => by rw [Expr.relabel, h, ← ha.eq_relabel, ← has.eq_relabelList]

theorem Expr.RelatedList.eq_relabelList {as bs : List Expr} :
    Expr.RelatedList (fun t u => u = f t) as bs → bs = Expr.relabelList f (fun t _ => f t) as
  | .nil => rfl
  | .cons h hs => by rw [Expr.relabelList, ← h.eq_relabel, ← hs.eq_relabelList]

theorem Stmt.Related.eq_relabel {a b : Stmt} :
    a.Related (fun t u => u = f t) b → b = a.relabel f fun t _ => f t
  | .letBinding h hi ha => by rw [Stmt.relabel, h, ← hi.eq_relabel, ← ha.eq_relabel]
  | .ret h ha => by rw [Stmt.relabel, h, ← ha.eq_relabel]
  | .expr h ha => by rw [Stmt.relabel, h, ← ha.eq_relabel]
  | .block hx => by rw [Stmt.relabel, ← hx.eq_relabel]

theorem Stmt.RelatedList.eq_relabelList {as bs : List Stmt} :
    Stmt.RelatedList (fun t u => u = f t) as bs → bs = Stmt.relabelList f (fun t _ => f t) as
  | .nil => rfl
  | .cons h hs => by rw [Stmt.relabelList, ← h.eq_relabel, ← hs.eq_relabelList]

theorem Block.Related.eq_relabel {x y : Block} :
    x.Related (fun t u => u = f t) y → y = x.relabel f fun t _ => f t
  | .mk h hs => by rw [Block.relabel, h, ← hs.eq_relabelList]

end

end

theorem likeness_shift (n : Nat) :
    Parse.Likeness .standard .standard fun t u => u = Token.shift n t := by
  refine .of_kind_text .standard ?_
  rintro t _ rfl
  exact ⟨rfl, rfl⟩

theorem Stmt.map_shift_of_forall₂ {n : Nat} {ss ss' : List Stmt}
    (h : List.Forall₂ (Stmt.Related fun t u => u = Token.shift n t) ss ss') :
    ss' = ss.map (Stmt.shift n) := by
  induction h with
  | nil => rfl
  | cons h _ ih => rw [List.map_cons, Stmt.shift, ← h.eq_relabel, ← ih]

theorem SyntaxError.map_shift_of_forall₂ {n : Nat} {es es' : List SyntaxError}
    (h : List.Forall₂ (SyntaxError.Related fun t u => u = Token.shift n t) es es') :
    es' = es.map (SyntaxError.shift n) := by
  induction h with
  | nil => rfl
  | @cons e e' _ _ h _ ih =>
    obtain ⟨hcause, t, _, rfl, ht, hu⟩ := h
    have he : e' = e.shift n := by
      cases e
      cases e'
      simp only at hcause ht hu
      simp only [SyntaxError.shift, hcause, ht, hu]
      rfl
    rw [List.map_cons, ← he, ← ih]

/-- The tokens of a text that stands further along in its source are read like the text alone. -/
theorem statements_shift (source : String) (file : Option String) (n : Nat)
    (es : List SyntaxError) {s : State}
    (hrest : s.rest = (State.ofSource source file).rest.map (Token.shift n))
    (hending : s.ending = (State.ofSource source file).ending.shift n)
    (hes : s.diagnostics = es) :
    let stmt := Parse.statement (Parse.expression .standard maxNesting)
    (Parse.statements stmt s).1 = (parse source file).1.statements.map (Stmt.shift n) ∧
      (Parse.statements stmt s).2.diagnostics =
        es ++ (parse source file).2.map (SyntaxError.shift n) := by
  intro stmt
  have halike : State.Alike (fun t u => u = Token.shift n t) [] es (.ofSource source file) s := by
    refine ⟨?_, ?_, [], [], rfl, by rw [hes, List.append_nil], .nil⟩
    · rw [hrest, List.forall₂_map_right_iff, List.forall₂_same]
      exact fun _ _ => rfl
    · rw [hending]
      rfl
  have L := likeness_shift n
  have C := Parse.Simulates.congruence [] es L
  obtain ⟨hss, hds⟩ := Parse.Simulates.statements L (C.statement (C.expression maxNesting)) halike
  refine ⟨Stmt.map_shift_of_forall₂ hss, ?_⟩
  obtain ⟨fs, fs', hfs, hfs', hrel⟩ := hds.diagnostics
  have hparse : (parse source file).2 = fs := hfs
  rw [hparse, ← SyntaxError.map_shift_of_forall₂ hrel]
  exact hfs'

end FrontEnd
