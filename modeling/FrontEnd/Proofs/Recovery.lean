import FrontEnd.Proofs.Acceptance
import FrontEnd.Proofs.Confined
import FrontEnd.Proofs.Shift

namespace FrontEnd

def State.behind (s : State) (es : List SyntaxError) (ts : List Token) : State :=
  { s with rest := ts, diagnostics := s.diagnostics ++ es }

namespace State

variable {s : State} {e : SyntaxError} {ts : List Token}

@[simp] theorem behind_nil : s.behind [] ts = s.on ts := by
  simp [behind, on]

theorem behind_behind {us : List Token} {e : SyntaxError} {es : List SyntaxError} :
    (s.behind [e] us).behind es ts = s.behind (e :: es) ts := by
  simp [behind]

theorem advance_recover_of_ne (h : (s.on ts).peek.kind ≠ .semicolon) :
    ((s.on ts).recover e).advance = s.behind [e] ts.tail := by
  rw [recover, if_neg h]
  rfl

theorem advance_recover_of_eq (h : (s.on ts).peek.kind = .semicolon) :
    ((s.on ts).recover e).advance = s.behind [e] ts.tail.tail := by
  rw [recover, if_pos h]
  rfl

end State

namespace Parse

open Grammar

variable {stmt : Parse Stmt} {semi : Token} {ts us : List Token}

/-- Statements and errors of these tokens are the same whatever follows them, unless that is a
semicolon, and reading goes on right behind them. -/
def Settles (stmt : Parse Stmt) (ts : List Token) : Prop :=
  ∃ ss es, ∀ (s : State) bs, (s.on bs).current.kind ≠ .semicolon →
    statements stmt (s.on (ts ++ bs)) =
      (ss ++ (statements stmt (s.behind es bs)).1, (statements stmt (s.behind es bs)).2)

theorem settles_nil : Settles stmt [] :=
  ⟨[], [], fun s bs _ => by rw [State.behind_nil]; rfl⟩

theorem Settles.of_ok {a : Stmt} (hus : Settles stmt us)
    (heof : ∀ (s : State) bs, (s.on (ts ++ bs)).current.kind ≠ .eof)
    (h : ∀ (s : State) bs, (s.on bs).current.kind ≠ .semicolon →
      ∃ u, stmt.run (s.on (ts ++ bs)) = (.ok a, u) ∧ u.advance = s.on (us ++ bs)) :
    Settles stmt ts := by
  obtain ⟨ss, es, hus⟩ := hus
  refine ⟨a :: ss, es, fun s bs hbs => ?_⟩
  obtain ⟨u, hu, hnext⟩ := h s bs hbs
  rw [statements_ok (heof s bs) hu, hnext, hus s bs hbs]
  rfl

theorem Settles.of_error {e : SyntaxError} (hus : Settles stmt us)
    (heof : ∀ (s : State) bs, (s.on (ts ++ bs)).current.kind ≠ .eof)
    (h : ∀ (s : State) bs, (s.on bs).current.kind ≠ .semicolon →
      ∃ u, stmt.run (s.on (ts ++ bs)) = (.error e, u) ∧
        (u.recover e).advance = s.behind [e] (us ++ bs)) :
    Settles stmt ts := by
  obtain ⟨ss, es, hus⟩ := hus
  refine ⟨ss, e :: es, fun s bs hbs => ?_⟩
  obtain ⟨u, hu, hnext⟩ := h s bs hbs
  have hrest := hus (s.behind [e] []) bs hbs
  rw [State.behind_behind] at hrest
  rw [statements_error (heof s bs) hu, hnext]
  exact hrest

/-- After an error before the semicolon or on it reading goes on behind it, or before it with fewer
tokens left. -/
theorem exists_advance_recover (hsemi : semi.kind = .semicolon) (left : List Token)
    (e : SyntaxError) :
    ∃ us, (us = [] ∨ ∃ rest, us = rest ++ [semi] ∧ rest <:+ left ∧ rest.length < left.length) ∧
      ∀ (s : State) bs, (s.on bs).current.kind ≠ .semicolon →
        ((s.on (left ++ [semi] ++ bs)).recover e).advance = s.behind [e] (us ++ bs) := by
  match left with
  | [] => exact ⟨[], .inl rfl, fun s bs hbs => State.advance_recover_of_ne hbs⟩
  | [x] => exact ⟨[], .inl rfl, fun s bs _ => State.advance_recover_of_eq hsemi⟩
  | x :: y :: rest =>
    by_cases hy : y.kind = .semicolon
    · refine ⟨rest ++ [semi], .inr ⟨rest, rfl, ⟨[x, y], rfl⟩, ?_⟩, fun s bs _ => ?_⟩
      · simp only [List.length_cons]
        omega
      · exact State.advance_recover_of_eq hy
    · refine ⟨y :: rest ++ [semi], .inr ⟨y :: rest, rfl, ⟨[x], rfl⟩, ?_⟩, fun s bs _ => ?_⟩
      · simp only [List.length_cons]
        omega
      · exact State.advance_recover_of_ne hy

theorem settles_of_flat (hsemi : semi.kind = .semicolon) (levels : Nat) (hts : Flat ts)
    (heof : ∀ t ∈ ts, t.kind ≠ .eof) :
    Settles (statement (expression .standard levels)) (ts ++ [semi]) := by
  induction hl : ts.length using Nat.strongRecOn generalizing ts with
  | ind l ih =>
    have again {us} (hus : us <:+ ts) (hlt : us.length < l) :
        Settles (statement (expression .standard levels)) (us ++ [semi]) :=
      ih us.length hlt (hts.mono hus) (fun t ht => heof t (hus.subset ht)) rfl
    have hcur : ∀ (s : State) bs, (s.on (ts ++ [semi] ++ bs)).current.kind ≠ .eof := by
      intro s bs
      cases ts with
      | nil => simp [hsemi]
      | cons t ts => simpa using heof t
    obtain ⟨r, left, hleft, hrun, -⟩ := confined_statement hsemi levels hts
    have hrun (s : State) bs : (statement (expression .standard levels)).run
        (s.on (ts ++ [semi] ++ bs)) = (r, s.on (left ++ [semi] ++ bs)) := by
      simpa using hrun s bs
    have hle := hleft.length_le
    cases r with
    | ok a =>
      cases left with
      | nil => exact settles_nil.of_ok hcur fun s bs _ => ⟨_, hrun s bs, rfl⟩
      | cons x rest =>
        rw [List.length_cons] at hle
        have hrest := (List.suffix_cons x rest).trans hleft
        exact (again hrest (by omega)).of_ok hcur fun s bs _ => ⟨_, hrun s bs, rfl⟩
    | error e =>
      obtain ⟨us, hus, hnext⟩ := exists_advance_recover hsemi left e
      have hset : Settles (statement (expression .standard levels)) us := by
        obtain rfl | ⟨rest, rfl, hrest, hlt⟩ := hus
        · exact settles_nil
        · exact again (hrest.trans hleft) (by omega)
      exact hset.of_error hcur fun s bs hbs => ⟨_, hrun s bs, hnext s bs hbs⟩

theorem settles_clause {levels : Nat} {expr : Power → Parse Expr} (h : Complete expr levels)
    {a : Stmt} {n : Nat} (hc : Clause ts a n) (hn : n ≤ levels) {t : Token}
    (ht : ∀ (s : State) after, MayFollow s .lowest (t :: after))
    (hus : Settles (statement expr) (if t.kind = .semicolon then us else t :: us)) :
    Settles (statement expr) (ts ++ t :: us) := by
  refine hus.of_ok (a := a) (fun s bs => ?_) fun s bs _ => ?_
  · obtain ⟨first, rest, rfl, hk⟩ := hc.starts
    intro he
    rw [List.append_assoc, List.cons_append, State.current_on_cons] at he
    rw [he] at hk
    simp [starters] at hk
  · obtain ⟨last, hy⟩ := clause_complete h s hc hn (ht s (us ++ bs))
    rw [List.append_assoc]
    refine ⟨_, hy.1, ?_⟩
    unfold State.pastSemicolon
    by_cases hk : t.kind = .semicolon
    · rw [if_pos (by simpa using hk), if_pos hk]
      rfl
    · rw [if_neg (by simpa using hk), if_neg hk]
      rfl

theorem settles_of_clauses (hsemi : semi.kind = .semicolon) {levels : Nat}
    (h : Complete (expression .standard levels) levels) {ss : List Stmt} {n : Nat}
    (hc : Clauses ts ss n) (hn : n ≤ levels) :
    Settles (statement (expression .standard levels)) (ts ++ [semi]) := by
  induction ss generalizing ts n with
  | nil =>
    cases hc
    exact settles_of_flat hsemi levels (by simp [Flat]) (by simp)
  | cons a ss ih =>
    have ends {t : Token} (ht : t.kind = .semicolon) (s : State) (after : List Token) :
        MayFollow s .lowest (t :: after) := mayFollow_of_kind ht ⟨rfl, by decide⟩ s after
    cases hc with
    | @ended us _ m t vs _ l hc ht hcs =>
      rw [List.append_assoc]
      refine settles_clause h hc (by omega) (ends ht) ?_
      rw [if_pos ht]
      exact ih hcs (by omega)
    | @bare us _ m vs _ l hc hcon hcs =>
      cases vs with
      | nil =>
        rw [List.append_nil]
        refine settles_clause h hc (by omega) (ends hsemi) ?_
        rw [if_pos hsemi]
        exact settles_nil
      | cons v vs =>
        have hv (s : State) : MayFollow s .lowest (v :: vs ++ []) ∧
            (s.on (v :: vs ++ [])).current.kind ≠ .semicolon :=
          mayFollow_clauses hcs hcon rfl (.inr rfl)
        rw [List.append_assoc]
        refine settles_clause h hc (by omega) (fun s _ => (hv s).1) ?_
        have hne : v.kind ≠ .semicolon := (hv (.ofSource "" none)).2
        rw [if_neg hne]
        exact ih hcs (by omega)

end Parse

open Parse

theorem mem_of_mem_text {file : String} {offset : Nat} {cs : List Char} {t : Token} {c : Char}
    (ht : t ∈ scan file offset cs) (hc : c ∈ t.text.toList) : c ∈ cs := by
  fun_induction scan file offset cs with
  | case1 offset => simp at ht
  | case2 offset d cs hb ih => exact List.mem_cons_of_mem _ (ih ht)
  | case3 offset d cs hb x size ih =>
    have htext : x.text ++ x.rest = d :: cs := Lexeme.text_append_rest d cs
    rw [← htext, List.mem_append]
    obtain rfl | ht := List.mem_cons.1 ht
    · exact .inl (by simpa using hc)
    · exact .inr (ih ht)

theorem flat_scan {cs : List Char} (h : '\x7b' ∉ cs) (file : String) (offset : Nat) :
    Flat (scan file offset cs) := by
  intro t ht hk
  have hp := isProper_of_mem_scan ht (by simp [hk])
  have htext : t.text = "\x7b" := by
    simpa [Token.isProper, hk, TokenKind.fixedText, eq_comm] using hp
  exact h (mem_of_mem_text ht (by simp [htext]))

def semicolonAt (file : String) (n : Nat) : Token := ⟨.semicolon, ";", .cover file n 1⟩

theorem settles_source {a : String} {file : Option String}
    (h : '\x7b' ∉ a.toList ∨ (parse a file).2 = []) (semi : Token)
    (hsemi : semi.kind = .semicolon) :
    Settles (statement (expression .standard maxNesting))
      ((State.ofSource a file).rest ++ [semi]) := by
  obtain h | h := h
  · exact settles_of_flat hsemi maxNesting (flat_scan h _ _) fun t => kind_ne_eof_of_mem_scan
  · obtain ⟨n, hn, hc⟩ := clauses_of_parse h
    rw [tokenize, List.dropLast_concat] at hc
    exact settles_of_clauses hsemi (Grammar.expression_complete maxNesting) hc hn

theorem runsInto_semicolon (c : Char) : runsInto c ';' = false ∧ runsInto ';' c = false := by
  have hw : isWordChar ';' = false := by decide
  simp [runsInto, hw]

theorem ofSource_append_semicolon (a b : String) (file : Option String) :
    let n := Text.byteSize a.toList
    let s := State.ofSource (a ++ ";" ++ b) file
    s.rest = (State.ofSource a file).rest ++ [semicolonAt (file.getD defaultFile) n] ++
        (State.ofSource b file).rest.map (Token.shift (n + 1)) ∧
      s.ending = (State.ofSource b file).ending.shift (n + 1) := by
  have hsource : (a ++ ";" ++ b).toList = a.toList ++ ([';'] ++ b.toList) := by
    simp [String.toList_append]
  have hsemi (file : String) (n : Nat) : scan file n [';'] = [semicolonAt file n] := by
    have hproper : (semicolonAt file n).isProper = true := isProper_of_fixedText rfl
    simpa [semicolonAt, Char.utf8Size] using scan_of_isProper hproper file n
  constructor
  · simp only [State.ofSource, hsource]
    rw [scan_append, scan_append, hsemi, Nat.zero_add, ← scan_add, List.append_assoc]
    · rfl
    · rintro x hx y -
      cases hx
      exact (runsInto_semicolon y).2
    · rintro x - y hy
      cases hy
      exact (runsInto_semicolon x).1
  · simp only [State.ofSource, hsource, Text.byteSize_append, ← cover_add, Nat.add_assoc]
    rfl

/-- What is read of a text before a semicolon is the same whatever text stands behind it. -/
theorem exists_parse_append_semicolon {a : String} {file : Option String}
    (ha : '\x7b' ∉ a.toList ∨ (parse a file).2 = []) :
    let n := Text.byteSize a.toList + 1
    ∃ ss es, ∀ b : String, (∀ t ∈ (tokenize b file).head?, t.kind ≠ .semicolon) →
      parse (a ++ ";" ++ b) file = (⟨ss ++ (parse b file).1.statements.map (Stmt.shift n)⟩,
        es ++ (parse b file).2.map (SyntaxError.shift n)) := by
  intro n
  let semi := semicolonAt (file.getD defaultFile) (Text.byteSize a.toList)
  obtain ⟨ss, es, hset⟩ := settles_source ha semi rfl
  refine ⟨ss, es, fun b hb => ?_⟩
  let s := State.ofSource (a ++ ";" ++ b) file
  let bs := (State.ofSource b file).rest.map (Token.shift n)
  obtain ⟨hrest, hending⟩ := ofSource_append_semicolon a b file
  have hs : s.on ((State.ofSource a file).rest ++ [semi] ++ bs) = s := by rw [← hrest]; rfl
  have hbs : (s.on bs).current.kind ≠ .semicolon := by
    simp only [tokenize, List.head?_append] at hb
    change (bs.headD _).kind ≠ _
    cases hts : scan (file.getD defaultFile) 0 b.toList with
    | nil => simp [bs, State.ofSource, hts]
    | cons t ts => simpa [bs, State.ofSource, hts, Token.shift] using hb
  have hrun := hset s bs hbs
  rw [hs] at hrun
  obtain ⟨hss, hes⟩ := statements_shift b file n es (s := s.behind es bs) rfl hending rfl
  rw [← hss, ← hes]
  exact Prod.ext (congrArg (fun r => Program.mk r.1) hrun)
    (congrArg (fun r => r.2.diagnostics) hrun)

theorem parse_empty (file : Option String) : parse "" file = (⟨[]⟩, []) := by
  have hscan : scan (file.getD defaultFile) 0 "".toList = [] := by simp [scan]
  simp only [parse, State.ofSource, hscan]
  rw [statements_eof rfl]

/-- What stands before a semicolon and what stands behind it are parsed independently, if the text
before it opens no block or has no errors. -/
theorem parse_append_semicolon (a b : String) (file : Option String)
    (ha : '\x7b' ∉ a.toList ∨ (parse a file).2 = [])
    (hb : ∀ t ∈ (tokenize b file).head?, t.kind ≠ .semicolon) :
    let n := Text.byteSize a.toList + 1
    parse (a ++ ";" ++ b) file =
      (⟨(parse (a ++ ";") file).1.statements ++ (parse b file).1.statements.map (Stmt.shift n)⟩,
        (parse (a ++ ";") file).2 ++ (parse b file).2.map (SyntaxError.shift n)) := by
  intro n
  obtain ⟨ss, es, hparse⟩ := exists_parse_append_semicolon ha
  -- without a second text only what stands before the semicolon is left
  have hend : parse (a ++ ";") file = (⟨ss⟩, es) := by
    have hempty := hparse "" (by simp [tokenize, scan, Token.eof])
    simpa only [parse_empty, List.map_nil, List.append_nil, String.append_empty] using hempty
  rw [hparse b hb, hend]

theorem parse_append_semicolon_let :
    let a := "let x = "
    let b := "f(1"
    let n := Text.byteSize a.toList + 1
    ('\x7b' ∉ a.toList ∨ (parse a none).2 = []) ∧
      (∀ t ∈ (tokenize b none).head?, t.kind ≠ .semicolon) ∧
        parse (a ++ ";" ++ b) none =
          (⟨(parse (a ++ ";") none).1.statements ++ (parse b none).1.statements.map (Stmt.shift n)⟩,
            (parse (a ++ ";") none).2 ++ (parse b none).2.map (SyntaxError.shift n)) := by
  intro a b n
  have ha : '\x7b' ∉ a.toList := by decide +kernel
  have hb : ∀ t ∈ (tokenize b none).head?, t.kind ≠ .semicolon := by decide +kernel
  exact ⟨.inl ha, hb, parse_append_semicolon a b none (.inl ha) hb⟩

end FrontEnd
