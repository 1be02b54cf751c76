import FrontEnd.Proofs.Canonical
import FrontEnd.Proofs.WellFormed

namespace FrontEnd

def fixedToken (kind : TokenKind) : Token := ⟨kind, kind.fixedText.getD "", ⟨0, 0, ""⟩⟩

/-- Runs into no character on either side. -/
def isDetached (c : Char) : Bool := !isWordChar c && c ≠ '=' && c ≠ '!'

def separates (text : String) : Bool :=
  text.toList.head?.any isDetached && text.toList.getLast?.any isDetached

theorem runsInto_detached_left {a : Char} (h : isDetached a = true) (b : Char) :
    runsInto a b = false := by
  simp only [isDetached, Bool.and_eq_true, Bool.not_eq_true', decide_eq_true_eq] at h
  simp [runsInto, h]

theorem runsInto_detached_right {b : Char} (h : isDetached b = true) (a : Char) :
    runsInto a b = false := by
  simp only [isDetached, Bool.and_eq_true, Bool.not_eq_true', decide_eq_true_eq] at h
  simp [runsInto, h]

theorem separates_iff {text : String} : separates text = true ↔
    (∃ a, text.toList.head? = some a ∧ isDetached a = true) ∧
      ∃ b, text.toList.getLast? = some b ∧ isDetached b = true := by
  simp [separates, Option.any_eq_true]

theorem spelled_separator_append {sep : String} (h : separates sep = true) (text : String) :
    spelled (sep ++ text) = spelled sep ++ spelled text := by
  obtain ⟨-, b, hb, hd⟩ := separates_iff.1 h
  refine spelled_append fun x hx y _ => ?_
  rw [Option.mem_def, hb] at hx
  cases hx
  exact runsInto_detached_left hd y

theorem spelled_append_separator {sep : String} (h : separates sep = true) (a b : String) :
    spelled (a ++ (sep ++ b)) = spelled a ++ (spelled sep ++ spelled b) := by
  obtain ⟨⟨c, hc, hd⟩, -⟩ := separates_iff.1 h
  rw [← spelled_separator_append h]
  refine spelled_append fun x _ y hy => ?_
  rw [String.toList_append, List.head?_append, hc] at hy
  cases hy
  exact runsInto_detached_right hd x

theorem spelled_append_separator_end {sep : String} (h : separates sep = true) (a : String) :
    spelled (a ++ sep) = spelled a ++ spelled sep := by
  simpa [spelled, scan] using spelled_append_separator h a ""

theorem spelled_fixed :
    spelled "(" = [fixedToken .openParen] ∧ spelled ")" = [fixedToken .closeParen] ∧
      spelled " (" = [fixedToken .openParen] ∧ spelled ") " = [fixedToken .closeParen] ∧
      spelled " " = [] ∧ spelled ", " = [fixedToken .comma] ∧
      spelled " else " = [fixedToken .elseWord] ∧
      spelled " = " = [fixedToken .assignment] ∧ spelled ";" = [fixedToken .semicolon] ∧
      spelled "; " = [fixedToken .semicolon] ∧ spelled "\x7b " = [fixedToken .openCurly] ∧
      spelled "\x7d" = [fixedToken .closeCurly] := by
  decide +kernel

theorem fits_iff {t : Token} {kinds : List TokenKind} :
    t.fits kinds = true ↔ t.isProper = true ∧ t.kind ∈ kinds := by
  simp [Token.fits]

theorem spelled_of_fits {t : Token} {kinds : List TokenKind} (h : t.fits kinds = true) :
    spelled t.text = [t.bare] :=
  spelled_of_isProper (fits_iff.1 h).1

def BeginsApart (text : String) : Prop := ∀ c ∈ text.toList.head?, c ≠ '='

theorem beginsApart_of_fits {t : Token} {kinds : List TokenKind} (h : t.fits kinds = true)
    (hk : .assignment ∉ kinds ∧ .equals ∉ kinds) : BeginsApart t.text := by
  obtain ⟨hp, hmem⟩ := fits_iff.1 h
  obtain ⟨c, cs, htext, -, hr⟩ := read_of_isProper hp
  rintro d hd rfl
  rw [htext, List.head?_cons, Option.mem_def, Option.some.injEq] at hd
  subst hd
  have hkind : (Lexeme.read '=' cs).kind = t.kind := by rw [hr]
  by_cases hcs : cs.head? = some '='
  · obtain ⟨cs, rfl⟩ := List.head?_eq_some_iff.1 hcs
    rw [Lexeme.read_pair (.inl rfl)] at hkind
    rw [← hkind] at hmem
    exact hk.2 hmem
  · rw [Lexeme.read_symbol (by decide) (by decide) cs fun b hb he => hcs (he.2 ▸ hb)] at hkind
    rw [← hkind] at hmem
    exact hk.1 hmem

theorem beginsApart_of_separates {sep : String} (h : separates sep = true) (text : String) :
    BeginsApart (sep ++ text) := by
  obtain ⟨⟨a, ha, hd⟩, -⟩ := separates_iff.1 h
  intro c hc
  rw [String.toList_append, List.head?_append, ha] at hc
  cases hc
  rintro rfl
  cases hd

theorem BeginsApart.append {a b : String} (ha : BeginsApart a) (hb : BeginsApart b) :
    BeginsApart (a ++ b) := by
  intro c hc
  rw [String.toList_append, List.head?_append, Option.mem_def, Option.or_eq_some_iff] at hc
  obtain hc | ⟨-, hc⟩ := hc
  · exact ha c hc
  · exact hb c hc

theorem beginsApart_render : ∀ e : Expr, e.wellFormed = true → BeginsApart e.render
  | .ident name, h => by
    simp only [Expr.wellFormed, Ident.wellFormed, Bool.and_eq_true, decide_eq_true_eq] at h
    rw [Expr.render, h.2]
    exact beginsApart_of_fits h.1 (by decide)
  | .int t v, h => by
    simp only [Expr.wellFormed, Bool.and_eq_true] at h
    exact beginsApart_of_fits h.1.1 (by decide)
  | .bool t v, _ => by
    cases v <;> simp [BeginsApart, Expr.render]
  | .unary t o r, _ => by
    simp only [Expr.render, String.append_assoc]
    exact beginsApart_of_separates (by decide) _
  | .binary t l o r, _ => by
    simp only [Expr.render, String.append_assoc]
    exact beginsApart_of_separates (by decide) _
  | .cond t c x none, h => by
    simp only [Expr.wellFormed, Bool.and_eq_true] at h
    simp only [Expr.render, String.append_assoc]
    exact (beginsApart_of_fits h.1.1 (by decide)).append (beginsApart_of_separates (by decide) _)
  | .cond t c x (some y), h => by
    simp only [Expr.wellFormed, Bool.and_eq_true] at h
    simp only [Expr.render, String.append_assoc]
    exact (beginsApart_of_fits h.1.1.1 (by decide)).append (beginsApart_of_separates (by decide) _)
  | .fn t is b, h => by
    simp only [Expr.wellFormed, Bool.and_eq_true] at h
    simp only [Expr.render, String.append_assoc]
    exact (beginsApart_of_fits h.1.1 (by decide)).append (beginsApart_of_separates (by decide) _)
  | .call t f es, h => by
    simp only [Expr.wellFormed, Bool.and_eq_true] at h
    simp only [Expr.render, String.append_assoc]
    exact (beginsApart_render f h.1.2).append (beginsApart_of_separates (by decide) _)

theorem text_of_sign {t : Token} (h : t.fits [.dash, .not] = true) :
    t.text = "-" ∨ t.text = "!" := by
  simp only [fits_iff, List.mem_cons, List.not_mem_nil, or_false] at h
  obtain ⟨hp, hk | hk⟩ := h <;> simp [Token.isProper, hk, TokenKind.fixedText] at hp
  · exact .inl hp.symm
  · exact .inr hp.symm

/-- A sign that negates is the one token beside which another may stand that it might run into. -/
theorem apart_sign {t : Token} (h : t.fits [.dash, .not] = true) {text : String}
    (hb : BeginsApart text) : Apart t.text text := by
  intro x hx y hy
  have hy := hb y hy
  have hx : x = '-' ∨ x = '!' := by
    obtain ht | ht := text_of_sign h <;> rw [ht] at hx
    · exact .inl (by simpa using hx.symm)
    · exact .inr (by simpa using hx.symm)
  have hword : isWordChar x = false := by obtain rfl | rfl := hx <;> decide
  simp [runsInto, hword, hy]

theorem spelled_unary {t : Token} {r : Expr} (ht : t.fits [.dash, .not] = true)
    (hr : r.wellFormed = true) : spelled (Expr.unary t t.text r).render =
      fixedToken .openParen :: (t.bare :: spelled r.render) ++ [fixedToken .closeParen] := by
  have hbegins : BeginsApart (r.render ++ ")") :=
    (beginsApart_render r hr).append (by simp [BeginsApart])
  have hsign := spelled_append (apart_sign ht hbegins)
  simp (disch := decide) only [Expr.render, String.append_assoc, spelled_separator_append, hsign,
    spelled_append_separator_end, spelled_of_fits ht, spelled_fixed, List.cons_append,
    List.nil_append]

theorem spelled_binary {t : Token} (l r : Expr) (ht : t.fits infixes = true) :
    spelled (Expr.binary t l t.text r).render =
      fixedToken .openParen :: (spelled l.render ++ t.bare :: spelled r.render) ++
        [fixedToken .closeParen] := by
  simp (disch := decide) only [Expr.render, String.append_assoc, spelled_separator_append,
    spelled_append_separator, spelled_append_separator_end, spelled_of_fits ht, spelled_fixed,
    List.cons_append, List.nil_append, List.append_assoc]

theorem spelled_cond {t : Token} (c : Expr) (b : Block) (ht : t.fits [.ifWord] = true) :
    spelled (Expr.cond t c b none).render =
      t.bare :: fixedToken .openParen :: spelled c.render ++
        fixedToken .closeParen :: spelled b.render := by
  simp (disch := decide) only [Expr.render, String.append_assoc, spelled_append_separator,
    spelled_of_fits ht, spelled_fixed, List.cons_append, List.nil_append]

theorem spelled_cond_else {t : Token} (c : Expr) (b d : Block) (ht : t.fits [.ifWord] = true) :
    spelled (Expr.cond t c b (some d)).render =
      t.bare :: fixedToken .openParen :: spelled c.render ++
        fixedToken .closeParen :: spelled b.render ++ fixedToken .elseWord :: spelled d.render := by
  simp (disch := decide) only [Expr.render, String.append_assoc, spelled_append_separator,
    spelled_of_fits ht, spelled_fixed, List.cons_append, List.nil_append, List.append_assoc]

theorem spelled_fn {t : Token} (is : List Ident) (b : Block) (ht : t.fits [.fnWord] = true) :
    spelled (Expr.fn t is b).render =
      t.bare :: fixedToken .openParen :: spelled (commaSeparated (is.map Ident.value)) ++
        fixedToken .closeParen :: spelled b.render := by
  simp (disch := decide) only [Expr.render, String.append_assoc, spelled_append_separator,
    spelled_of_fits ht, spelled_fixed, List.cons_append, List.nil_append]

theorem spelled_call (t : Token) (f : Expr) (es : List Expr) :
    spelled (Expr.call t f es).render =
      spelled f.render ++ fixedToken .openParen :: spelled (commaSeparated (Expr.renderList es)) ++
        [fixedToken .closeParen] := by
  simp (disch := decide) only [Expr.render, String.append_assoc, spelled_append_separator,
    spelled_append_separator_end, spelled_fixed, List.cons_append, List.nil_append,
    List.append_assoc]

theorem spelled_commaSeparated_cons (x y : String) (rest : List String) :
    spelled (commaSeparated (x :: y :: rest)) =
      spelled x ++ fixedToken .comma :: spelled (commaSeparated (y :: rest)) := by
  simp (disch := decide) only [commaSeparated, String.intercalate_cons_cons, String.append_assoc,
    spelled_append_separator, spelled_fixed, List.cons_append, List.nil_append]

def Stmt.clause : Stmt → String
  | .letBinding token name value => token.text ++ " " ++ name.value ++ " = " ++ value.render
  | .ret token value => token.text ++ " " ++ value.render
  | .expr _ expression => expression.render
  | .block body => body.render

theorem spelled_letBinding {t : Token} {i : Ident} (e : Expr) (ht : t.fits [.letWord] = true)
    (hi : i.wellFormed = true) : spelled (Stmt.letBinding t i e).clause =
      t.bare :: i.token.bare :: fixedToken .assignment :: spelled e.render := by
  simp only [Ident.wellFormed, Bool.and_eq_true, decide_eq_true_eq] at hi
  simp (disch := decide) only [Stmt.clause, hi.2, String.append_assoc, spelled_append_separator,
    spelled_of_fits ht, spelled_of_fits hi.1, spelled_fixed, List.cons_append, List.nil_append]

theorem spelled_ret {t : Token} (e : Expr) (ht : t.fits [.returnWord] = true) :
    spelled (Stmt.ret t e).clause = t.bare :: spelled e.render := by
  simp (disch := decide) only [Stmt.clause, String.append_assoc, spelled_append_separator,
    spelled_of_fits ht, spelled_fixed, List.cons_append, List.nil_append]

theorem spelled_block (t : Token) (ss : List Stmt) : spelled (Block.mk t ss).render =
    fixedToken .openCurly :: spelled (Stmt.renderInner ss) ++ [fixedToken .closeCurly] := by
  simp (disch := decide) only [Block.render, String.append_assoc, spelled_separator_append,
    spelled_append_separator_end, spelled_fixed, List.cons_append, List.nil_append]

def Stmt.isEnded : Stmt → Bool
  | .letBinding _ _ _ | .ret _ _ => true
  | .expr _ _ | .block _ => false

theorem render_of_isEnded {s : Stmt} (h : s.isEnded = true) : s.render = s.clause ++ ";" := by
  cases s with
  | letBinding t i e => simp only [Stmt.render, Stmt.clause, String.append_assoc]
  | ret t e => simp only [Stmt.render, Stmt.clause, String.append_assoc]
  | expr t e => cases h
  | block b => cases h

theorem spelled_ended {s : Stmt} (h : s.isEnded = true) (text : String) :
    spelled (s.render ++ text) = spelled s.clause ++ fixedToken .semicolon :: spelled text := by
  simp (disch := decide) only [render_of_isEnded h, String.append_assoc, spelled_append_separator,
    spelled_fixed, List.cons_append, List.nil_append]

theorem renderInner_of_isEnded {s : Stmt} (h : s.isEnded = true) (ss : List Stmt) :
    Stmt.renderInner (s :: ss) = s.render ++ (" " ++ Stmt.renderInner ss) := by
  rw [← String.append_assoc]
  cases s with
  | letBinding t i e => rfl
  | ret t e => rfl
  | expr t e => cases h
  | block b => cases h

theorem spelled_renderInner_cons {s : Stmt} (h : s.wellFormed = true) (ss : List Stmt) :
    spelled (Stmt.renderInner (s :: ss)) =
      spelled s.clause ++ fixedToken .semicolon :: spelled (Stmt.renderInner ss) := by
  have hblank : spelled (" " ++ Stmt.renderInner ss) = spelled (Stmt.renderInner ss) := by
    rw [spelled_separator_append (by decide)]
    simp only [spelled_fixed, List.nil_append]
  cases s with
  | letBinding t i e => rw [renderInner_of_isEnded rfl, spelled_ended rfl, hblank]
  | ret t e => rw [renderInner_of_isEnded rfl, spelled_ended rfl, hblank]
  | expr t e =>
    simp (disch := decide) only [Stmt.renderInner, Stmt.clause, String.append_assoc,
      spelled_append_separator, spelled_fixed, List.cons_append, List.nil_append]
  | block b => cases h

end FrontEnd
