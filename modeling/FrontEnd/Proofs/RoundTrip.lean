import FrontEnd.Proofs.Acceptance
import FrontEnd.Proofs.Rereading
import FrontEnd.Tree.Equality

namespace FrontEnd

open Grammar

theorem Stmt.depthList_le_iff {ss : List Stmt} {n : Nat} :
    Stmt.depthList ss ≤ n ↔ ∀ s ∈ ss, s.depth ≤ n := by
  induction ss with
  | nil => simp [Stmt.depthList]
  | cons s ss ih => simp only [Stmt.depthList, Nat.max_le, ih, List.forall_mem_cons]

theorem Stmt.lt_depthList_iff {ss : List Stmt} {n : Nat} :
    n < Stmt.depthList ss ↔ ∃ s ∈ ss, n < s.depth := by
  rw [← not_iff_not]
  simp [Stmt.depthList_le_iff]

theorem statements_reread : ∀ ss : List Stmt, Stmt.wellFormedList ss = true →
    ss.dropLast.all Stmt.isEnded = true → ∀ {ts : List Token},
      ts.map Token.bare = spelled (String.join (ss.map Stmt.render)) →
        ∃ ss', Clauses ts ss' (Stmt.depthList ss) ∧
          Stmt.relabelList Token.bare placeless ss' = Stmt.relabelList Token.bare lead ss
  | [], _, _, ts, hts => by
    have hts : ts.map Token.bare = spelled "" := hts
    rw [spelled_empty, List.map_eq_nil_iff] at hts
    exact ⟨[], hts ▸ .nil, rfl⟩
  | s :: ss, h, hended, ts, hts => by
    rw [Stmt.wellFormedList, Bool.and_eq_true] at h
    obtain ⟨hs, hss⟩ := h
    rw [List.map_cons, String.join_cons] at hts
    by_cases he : s.isEnded = true
    · rw [spelled_ended he] at hts
      simp only [List.map_eq_append_iff, List.map_eq_cons_iff] at hts
      obtain ⟨us, _, rfl, hus, semi, vs, rfl, hsemi, hvs⟩ := hts
      have hrest : ss.dropLast.all Stmt.isEnded = true := by
        cases ss with
        | nil => rfl
        | cons a as =>
          rw [List.dropLast_cons_cons, List.all_cons, Bool.and_eq_true] at hended
          exact hended.2
      obtain ⟨s', hs', hb⟩ := s.rereads hs hus
      obtain ⟨ss', hss', hbs⟩ := statements_reread ss hss hrest hvs
      exact ⟨_, .ended hs' (kind_of_bare_eq hsemi) hss', by simp [Stmt.relabelList, hb, hbs]⟩
    · -- an expression is the last statement, since nothing ends it
      have hnil : ss = [] := by
        cases ss with
        | nil => rfl
        | cons a as => simp [he] at hended
      subst hnil
      obtain ⟨t, e, rfl⟩ : ∃ t e, s = .expr t e := by
        cases s with
        | expr t e => exact ⟨t, e, rfl⟩
        | letBinding | ret => exact absurd rfl he
        | block => cases hs
      have hus : ts.map Token.bare = spelled (Stmt.expr t e).clause := by
        simpa [Stmt.render, Stmt.clause] using hts
      obtain ⟨s', hs', hb⟩ := Stmt.rereads (.expr t e) hs hus
      have hc := Clauses.bare hs' (by simp [Continues]) .nil
      rw [List.append_nil] at hc
      exact ⟨_, hc, by simp [Stmt.relabelList, hb]⟩

theorem map_bare_tokenize (source : String) (file : Option String) :
    (tokenize source file).dropLast.map Token.bare = spelled source := by
  rw [tokenize, List.dropLast_concat, map_bare_scan]
  rfl

theorem clauses_of_render {p : Program} (h : p.wellFormed = true)
    (hended : p.statements.dropLast.all Stmt.isEnded = true) (file : Option String) :
    ∃ ss, Clauses (tokenize p.render file).dropLast ss (Stmt.depthList p.statements) ∧
      Program.bare ⟨ss⟩ = p.canonical := by
  obtain ⟨ss, hc, hb⟩ := statements_reread p.statements h hended (map_bare_tokenize p.render file)
  exact ⟨ss, hc, by rw [Program.bare, Program.canonical, hb]⟩

/-- Reading a rendering back gives the canonical form of the program, if it is not nested too deep,
and else an error for that. -/
theorem parse_render (p : Program) (file : Option String) (h : p.wellFormed = true)
    (hended : p.statements.dropLast.all Stmt.isEnded = true) :
    ((∀ s ∈ p.statements, s.depth ≤ maxNesting) →
      (parse p.render file).2 = [] ∧ (parse p.render file).1.bare = p.canonical) ∧
    ((∃ s ∈ p.statements, maxNesting < s.depth) →
      ∃ pos, ⟨.tooDeep maxNesting, pos⟩ ∈ (parse p.render file).2) := by
  obtain ⟨ss, hc, hb⟩ := clauses_of_render h hended file
  constructor
  · intro hdepth
    rw [parse_of_clauses hc (Stmt.depthList_le_iff.2 hdepth)]
    exact ⟨rfl, hb⟩
  · intro hdepth
    exact tooDeep_of_clauses hc (Stmt.lt_depthList_iff.2 hdepth)

theorem parse_render_let :
    let p := (parse "let x = -1; f(x, a + b)" none).1
    p.wellFormed = true ∧ p.statements.dropLast.all Stmt.isEnded = true ∧
      (parse p.render none).2 = [] ∧ (parse p.render none).1.bare = p.canonical := by
  intro p
  have h : p.wellFormed = true := by decide +kernel
  have hended : p.statements.dropLast.all Stmt.isEnded = true := by decide +kernel
  have hdepth : ∀ s ∈ p.statements, s.depth ≤ maxNesting := by decide +kernel
  exact ⟨h, hended, (parse_render p none h hended).1 hdepth⟩

/-- The token of an expression as a statement is not kept: parentheses come before it. -/
theorem not_parse_render_bare : ¬ ∀ (p : Program) (file : Option String), p.wellFormed = true →
    p.statements.dropLast.all Stmt.isEnded = true → (∀ s ∈ p.statements, s.depth ≤ maxNesting) →
      (parse p.render file).2 = [] ∧ (parse p.render file).1.bare = p.bare := by
  intro h
  let a : Token := ⟨.identifier, "a", .cover "shell" 0 1⟩
  let plus : Token := ⟨.plus, "+", .cover "shell" 2 1⟩
  let b : Token := ⟨.identifier, "b", .cover "shell" 4 1⟩
  let sum : Program :=
    ⟨[.expr a (.binary plus (.ident ⟨a, "a"⟩) "+" (.ident ⟨b, "b"⟩))]⟩
  have hne : (parse sum.render none).1.bare ≠ sum.bare := by decide +kernel
  exact hne (h sum none (by decide +kernel) (by decide +kernel) (by decide +kernel)).2

theorem wellFormed_of_parse {source : String} {file : Option String}
    (h : (parse source file).2 = []) : (parse source file).1.wellFormed = true := by
  obtain ⟨n, -, hc⟩ := clauses_of_parse h
  refine hc.wellFormed ?_
  rw [tokenize, List.dropLast_concat]
  exact legal_scan _ _ _

theorem eq_singleton_of_relabelList {f : Token → Token} {g : Token → Expr → Token}
    {ss : List Stmt} {s : Stmt} (h : Stmt.relabelList f g ss = [s]) :
    ∃ s', ss = [s'] ∧ s'.relabel f g = s := by
  cases ss with
  | nil => cases h
  | cons s' ss =>
    rw [Stmt.relabelList, List.cons.injEq] at h
    cases ss with
    | nil => exact ⟨s', rfl, h.1⟩
    | cons => cases h.2

/-- A statement of a program is read back from its rendering, if that is not nested too deep, and
is then rendered the same. -/
theorem parse_render_statement (source : String) (file : Option String)
    (h : (parse source file).2 = []) (s : Stmt) (hs : s ∈ (parse source file).1.statements)
    (file' : Option String) :
    (s.depth ≤ maxNesting →
      ∃ s', parse s.render file' = (⟨[s']⟩, []) ∧ s'.render = s.render) ∧
    (maxNesting < s.depth → ∃ pos, ⟨.tooDeep maxNesting, pos⟩ ∈ (parse s.render file').2) := by
  have hwell : Program.wellFormed ⟨[s]⟩ = true := by
    have hall := Stmt.wellFormedList_iff.1 (wellFormed_of_parse h)
    exact Stmt.wellFormedList_iff.2 (by simpa using hall s hs)
  have hrender : Program.render ⟨[s]⟩ = s.render := by simp [Program.render]
  obtain ⟨ss, hc, hb⟩ := clauses_of_render hwell rfl file'
  rw [hrender, show Stmt.depthList [s] = s.depth by simp [Stmt.depthList]] at hc
  refine ⟨fun hdepth => ?_, tooDeep_of_clauses hc⟩
  rw [parse_of_clauses hc hdepth]
  simp only [Program.bare, Program.canonical, Program.mk.injEq, Stmt.relabelList] at hb
  obtain ⟨s', rfl, hb'⟩ := eq_singleton_of_relabelList hb
  refine ⟨s', rfl, ?_⟩
  calc s'.render = (s'.relabel Token.bare placeless).render :=
      (Stmt.render_relabel Token.text_bare s').symm
    _ = (s.relabel Token.bare lead).render := by rw [hb']
    _ = s.render := Stmt.render_relabel Token.text_bare s

theorem parse_render_statement_cond :
    let source := "if (!a) \x7b -b; \x7d else \x7b f(c, 1 + 2) \x7d"
    (parse source none).2 = [] ∧ ∀ s ∈ (parse source none).1.statements,
      ∃ s', parse s.render none = (⟨[s']⟩, []) ∧ s'.render = s.render := by
  intro source
  have h : (parse source none).2 = [] := by decide +kernel
  have hdepth : ∀ s ∈ (parse source none).1.statements, s.depth ≤ maxNesting := by decide +kernel
  exact ⟨h, fun s hs => (parse_render_statement source none h s hs none).1 (hdepth s hs)⟩

/-- The rendering of negations has two levels of nesting for each of them. -/
theorem not_parse_render_statement : ¬ ∀ (source : String) (file : Option String),
    (parse source file).2 = [] → ∀ s ∈ (parse source file).1.statements,
      (parse s.render file).2 = [] ∧
        ∃ s', (parse s.render file).1.statements = [s'] ∧ s'.render = s.render := by
  intro h
  have hparse : (parse "--------------------------------x" none).2 = [] := by decide +kernel
  have hdeep : ∃ s ∈ (parse "--------------------------------x" none).1.statements,
      (parse s.render none).2 ≠ [] := by decide +kernel
  obtain ⟨s, hs, hne⟩ := hdeep
  exact hne (h _ none hparse s hs).1

end FrontEnd
