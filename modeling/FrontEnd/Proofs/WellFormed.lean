import FrontEnd.Proofs.Grammar
import FrontEnd.Proofs.Scanning
import FrontEnd.Tree.Basic

namespace FrontEnd

open Text

def Token.fits (t : Token) (kinds : List TokenKind) : Bool := t.isProper && t.kind ∈ kinds

def Ident.wellFormed (i : Ident) : Bool := i.token.fits [.identifier] && i.value = i.token.text

def infixes : List TokenKind :=
  [.equals, .notEquals, .less, .greater, .plus, .dash, .star, .slash]

mutual

/-- The tokens of a tree fit its nodes, and none of its statements is a block. -/
def Expr.wellFormed : Expr → Bool
  | .ident name => name.wellFormed
  | .int token value => token.fits [.int] && decimal token.text.toList ≤ maxInteger &&
      value = .ofNat (decimal token.text.toList)
  | .bool token value => token.fits [if value then .trueWord else .falseWord]
  | .unary token operator right =>
    token.fits [.dash, .not] && operator = token.text && right.wellFormed
  | .binary token left operator right =>
    token.fits infixes && operator = token.text && left.wellFormed && right.wellFormed
  | .cond token condition consequence none =>
    token.fits [.ifWord] && condition.wellFormed && consequence.wellFormed
  | .cond token condition consequence (some alternative) =>
    token.fits [.ifWord] && condition.wellFormed && consequence.wellFormed &&
      alternative.wellFormed
  | .fn token parameters body =>
    token.fits [.fnWord] && parameters.all Ident.wellFormed && body.wellFormed
  | .call token function arguments =>
    token.fits [.openParen] && function.wellFormed && Expr.wellFormedList arguments
termination_by structural e => e

def Expr.wellFormedList : List Expr → Bool
  | [] => true
  | e :: es => e.wellFormed && Expr.wellFormedList es
termination_by structural es => es

def Stmt.wellFormed : Stmt → Bool
  | .letBinding token name value => token.fits [.letWord] && name.wellFormed && value.wellFormed
  | .ret token value => token.fits [.returnWord] && value.wellFormed
  | .expr _ expression => expression.wellFormed
  | .block _ => false
termination_by structural s => s

def Block.wellFormed : Block → Bool
  | .mk token statements => token.fits [.openCurly] && Stmt.wellFormedList statements
termination_by structural b => b

def Stmt.wellFormedList : List Stmt → Bool
  | [] => true
  | s :: ss => s.wellFormed && Stmt.wellFormedList ss
termination_by structural ss => ss

end

def Program.wellFormed (p : Program) : Bool := Stmt.wellFormedList p.statements

theorem Stmt.wellFormedList_iff {ss : List Stmt} :
    Stmt.wellFormedList ss = true ↔ ∀ s ∈ ss, s.wellFormed = true := by
  induction ss with
  | nil => simp [Stmt.wellFormedList]
  | cons s ss ih => simp [Stmt.wellFormedList, ih]

namespace Grammar

/-- Kinds and texts fit each other as they do in the tokens of a source. -/
def Legal (ts : List Token) : Prop := ∀ t ∈ ts, t.kind ≠ .illegal → t.isProper = true

theorem legal_cons {t : Token} {ts : List Token} :
    Legal (t :: ts) ↔ (t.kind ≠ .illegal → t.isProper = true) ∧ Legal ts :=
  List.forall_mem_cons

theorem legal_append {ts us : List Token} : Legal (ts ++ us) ↔ Legal ts ∧ Legal us :=
  List.forall_mem_append

theorem legal_scan (file : String) (offset : Nat) (cs : List Char) :
    Legal (scan file offset cs) :=
  fun _ => isProper_of_mem_scan

theorem fits_of_legal {t : Token} {kinds : List TokenKind}
    (h : t.kind ≠ .illegal → t.isProper = true) (hk : t.kind ∈ kinds) (hi : .illegal ∉ kinds) :
    t.fits kinds = true := by
  have hp := h (ne_of_mem_of_not_mem hk hi)
  simp [Token.fits, hp, hk]

theorem mem_infixes {k : TokenKind} {p : Power} (h : k ∈ operators p) : k ∈ infixes := by
  cases p <;> simp only [operators, List.mem_cons, List.not_mem_nil, or_false] at h <;>
    obtain rfl | rfl := h <;> decide

theorem fits_of_kind {t : Token} {k : TokenKind} (h : t.kind ≠ .illegal → t.isProper = true)
    (hk : t.kind = k) (hi : k ≠ .illegal) : t.fits [k] = true :=
  fits_of_legal h (by simp [hk]) (by simpa using hi.symm)

theorem wellFormed_name {t : Token} (h : t.kind ≠ .illegal → t.isProper = true)
    (hk : t.kind = .identifier) : Ident.wellFormed ⟨t, t.text⟩ = true := by
  simp [Ident.wellFormed, fits_of_kind h hk (by decide)]

theorem Parameters.wellFormed {ts : List Token} {is : List Ident} (h : Parameters ts is)
    (hl : Legal ts) : is.all Ident.wellFormed = true := by
  cases h with
  | none => rfl
  | some hs =>
    induction hs with
    | one hn =>
      obtain ⟨t, hk, rfl, rfl⟩ := hn
      simp [wellFormed_name (hl t (by simp)) hk]
    | more hn _ _ ih =>
      obtain ⟨t, hk, rfl, rfl⟩ := hn
      rw [legal_append, legal_cons, legal_cons] at hl
      obtain ⟨⟨ht, -⟩, -, hrest⟩ := hl
      simp [wellFormed_name ht hk, ih hrest]

mutual

theorem Phrase.wellFormed {p : Power} {ts : List Token} {e : Expr} {n : Nat} :
    Phrase p ts e n → Legal ts → e.wellFormed = true
  | .tighter h, hl => h.wellFormed hl
  | .binary hp hop hr, hl => by
    simp only [legal_append, legal_cons] at hl
    obtain ⟨hleft, ht, hright⟩ := hl
    simp [Expr.wellFormed, fits_of_legal ht (mem_infixes hop) (by decide), hp.wellFormed hleft,
      hr.wellFormed hright]
  | .unary ho hp, hl => by
    simp only [legal_cons] at hl
    obtain ⟨ht, hright⟩ := hl
    have hop : Token.fits _ [.dash, .not] = true :=
      fits_of_legal ht (by simpa using ho) (by decide)
    simp [Expr.wellFormed, hop, hp.wellFormed hright]
  | .call hp ho ha _, hl => by
    simp only [legal_append, legal_cons] at hl
    obtain ⟨⟨hf, ht, hargs⟩, -⟩ := hl
    simp [Expr.wellFormed, fits_of_kind ht ho (by decide), hp.wellFormed hf, ha.wellFormed hargs]
  | .primary hp, hl => hp.wellFormed hl

theorem Primary.wellFormed {ts : List Token} {e : Expr} {n : Nat} :
    Primary ts e n → Legal ts → e.wellFormed = true
  | .name hk, hl => wellFormed_name (hl _ (by simp)) hk
  | .number hk hle, hl => by
    simp [Expr.wellFormed, fits_of_kind (hl _ (by simp)) hk (by decide), hle]
  | .yes hk, hl => fits_of_kind (hl _ (by simp)) hk (by decide)
  | .no hk, hl => fits_of_kind (hl _ (by simp)) hk (by decide)
  | .group _ hp _, hl => by
    simp only [legal_append, legal_cons] at hl
    exact hp.wellFormed hl.1.2
  | .cond ht _ hp _ hb, hl => by
    simp only [List.cons_append, legal_append, legal_cons] at hl
    obtain ⟨hw, -, hc, -, hus⟩ := hl
    simp [Expr.wellFormed, fits_of_kind hw ht (by decide), hp.wellFormed hc, hb.wellFormed hus]
  | .condElse ht _ hp _ hb _ hd, hl => by
    simp only [List.cons_append, legal_append, legal_cons] at hl
    obtain ⟨hw, -, ⟨hc, -, hus⟩, -, hvs⟩ := hl
    simp [Expr.wellFormed, fits_of_kind hw ht (by decide), hp.wellFormed hc, hb.wellFormed hus,
      hd.wellFormed hvs]
  | .fn ht _ hps _ hb, hl => by
    simp only [List.cons_append, legal_append, legal_cons] at hl
    obtain ⟨hw, -, hts, -, hus⟩ := hl
    rw [Expr.wellFormed, fits_of_kind hw ht (by decide), hps.wellFormed hts, hb.wellFormed hus]
    rfl

theorem Arguments.wellFormed {ts : List Token} {es : List Expr} {n : Nat} :
    Arguments ts es n → Legal ts → Expr.wellFormedList es = true
  | .none, _ => rfl
  | .some hi, hl => hi.wellFormed hl

theorem Items.wellFormed {ts : List Token} {es : List Expr} {n : Nat} :
    Items ts es n → Legal ts → Expr.wellFormedList es = true
  | .one hp, hl => by simp [Expr.wellFormedList, hp.wellFormed hl]
  | .more hp _ hi, hl => by
    simp only [legal_append, legal_cons] at hl
    simp [Expr.wellFormedList, hp.wellFormed hl.1, hi.wellFormed hl.2.2]

theorem Clause.wellFormed {ts : List Token} {a : Stmt} {n : Nat} :
    Clause ts a n → Legal ts → a.wellFormed = true
  | .letBinding ht hname _ hp, hl => by
    simp only [legal_cons] at hl
    obtain ⟨hw, hn, -, hts⟩ := hl
    simp [Stmt.wellFormed, fits_of_kind hw ht (by decide), wellFormed_name hn hname,
      hp.wellFormed hts]
  | .ret ht hp, hl => by
    rw [legal_cons] at hl
    simp [Stmt.wellFormed, fits_of_kind hl.1 ht (by decide), hp.wellFormed hl.2]
  | .expr hp, hl => hp.wellFormed hl

theorem Clauses.wellFormed {ts : List Token} {ss : List Stmt} {n : Nat} :
    Clauses ts ss n → Legal ts → Stmt.wellFormedList ss = true
  | .nil, _ => rfl
  | .ended hc _ hs, hl => by
    simp only [legal_append, legal_cons] at hl
    simp [Stmt.wellFormedList, hc.wellFormed hl.1, hs.wellFormed hl.2.2]
  | .bare hc _ hs, hl => by
    rw [legal_append] at hl
    simp [Stmt.wellFormedList, hc.wellFormed hl.1, hs.wellFormed hl.2]

theorem Body.wellFormed {ts : List Token} {b : Block} {n : Nat} :
    Body ts b n → Legal ts → b.wellFormed = true
  | .mk ho hs _, hl => by
    simp only [legal_append, legal_cons] at hl
    obtain ⟨⟨ht, hts⟩, -⟩ := hl
    simp [Block.wellFormed, fits_of_kind ht ho (by decide), hs.wellFormed hts]

end

end Grammar

end FrontEnd
