import FrontEnd.Parse.Program
import FrontEnd.Proofs.Overflow
import FrontEnd.Proofs.Scanning
import FrontEnd.Proofs.Soundness

namespace FrontEnd

open Grammar Parse

variable {source : String} {file : Option String}

abbrev reader : Parse (List Stmt) := program (statement (expression .standard maxNesting))

theorem parse_eq (source : String) (file : Option String) :
    ∃ ss t, reader.run (.ofSource source file) = (.ok ss, t) ∧
      parse source file = (⟨ss⟩, t.diagnostics) :=
  ⟨_, _, rfl, rfl⟩

theorem ofSource_eq_on (source : String) (file : Option String) :
    State.ofSource source file = (State.ofSource source file).on (tokenize source file).dropLast := by
  rw [tokenize, List.dropLast_concat]
  rfl

theorem kind_ne_eof_of_mem_tokenize {t : Token} (ht : t ∈ (tokenize source file).dropLast) :
    t.kind ≠ .eof := by
  rw [tokenize, List.dropLast_concat] at ht
  exact kind_ne_eof_of_mem_scan ht

theorem clauses_of_parse (h : (parse source file).2 = []) :
    ∃ n, n ≤ maxNesting ∧ Clauses (tokenize source file).dropLast (parse source file).1.statements n := by
  obtain ⟨ss, t, hr, hp⟩ := parse_eq source file
  rw [hp] at h ⊢
  rw [ofSource_eq_on] at hr
  obtain ⟨ts, after, n, hts, hk, -, hc, hn⟩ :=
    loop_sound (expression_sound maxNesting) (isLoop_program _) ⟨hr, h⟩
  have hnil : after = [] := by
    cases after with
    | nil => rfl
    | cons t after =>
      have ht : t ∈ (tokenize source file).dropLast := by simp [hts]
      exact absurd hk (kind_ne_eof_of_mem_tokenize ht)
  rw [hts, hnil, List.append_nil]
  exact ⟨n, hn, hc⟩

theorem parse_of_clauses {ss : List Stmt} {n : Nat}
    (h : Clauses (tokenize source file).dropLast ss n) (hn : n ≤ maxNesting) :
    parse source file = (⟨ss⟩, []) := by
  have hy := program_complete (expression_complete maxNesting) (.ofSource source file) h hn
  rw [← ofSource_eq_on] at hy
  obtain ⟨ss', t, hr, hp⟩ := parse_eq source file
  rw [hp]
  cases hr.symm.trans hy.1
  rfl

theorem tooDeep_of_clauses {ss : List Stmt} {n : Nat}
    (h : Clauses (tokenize source file).dropLast ss n) (hn : maxNesting < n) :
    ∃ pos, ⟨.tooDeep maxNesting, pos⟩ ∈ (parse source file).2 := by
  have hover := program_exceeds (expression_complete maxNesting) (expression_exceeds maxNesting)
    (.ofSource source file) h hn
  rw [← ofSource_eq_on] at hover
  obtain ⟨ss', t, hr, hp⟩ := parse_eq source file
  rw [hp]
  exact hover.of_ok hr

theorem Grammar.Clauses.unique {ts : List Token} {ss ss' : List Stmt} {n n' : Nat}
    (h : Clauses ts ss n) (h' : Clauses ts ss' n') : ss = ss' := by
  let s : State := .ofSource "" none
  have hy := program_complete (expression_complete (max n n')) s h (Nat.le_max_left _ _)
  have hy' := program_complete (expression_complete (max n n')) s h' (Nat.le_max_right _ _)
  cases hy.1.symm.trans hy'.1
  rfl

/-- A program read without errors is the one tree that its tokens spell. -/
theorem parse_sound (source : String) (file : Option String) (h : (parse source file).2 = []) :
    ∃ n, n ≤ maxNesting ∧
      Clauses (tokenize source file).dropLast (parse source file).1.statements n ∧
        ∀ ss m, Clauses (tokenize source file).dropLast ss m →
          ss = (parse source file).1.statements := by
  obtain ⟨n, hn, hc⟩ := clauses_of_parse h
  exact ⟨n, hn, hc, fun ss m hm => hm.unique hc⟩

theorem parse_sound_call :
    let source := "let f = fn(a, b) \x7b -a * b \x7d; if (f(1, 2) == 3) \x7b x \x7d else \x7b y; \x7d"
    (parse source none).2 = [] ∧ ∃ n, n ≤ maxNesting ∧
      Clauses (tokenize source none).dropLast (parse source none).1.statements n ∧
        ∀ ss m, Clauses (tokenize source none).dropLast ss m →
          ss = (parse source none).1.statements :=
  ⟨by decide +kernel, parse_sound _ none (by decide +kernel)⟩

/-- A program whose tokens are spelled by a tree is read as that tree, if its nesting is within
the limit, and else refused for its nesting. -/
theorem parse_complete (source : String) (file : Option String) (ss : List Stmt) (n : Nat)
    (h : Clauses (tokenize source file).dropLast ss n) :
    (n ≤ maxNesting → parse source file = (⟨ss⟩, [])) ∧
      (maxNesting < n → ∃ pos, ⟨.tooDeep maxNesting, pos⟩ ∈ (parse source file).2) :=
  ⟨parse_of_clauses h, tooDeep_of_clauses h⟩

theorem parse_complete_negation :
    let minus : Token := ⟨.dash, "-", .cover "shell" 0 1⟩
    let a : Token := ⟨.identifier, "a", .cover "shell" 1 1⟩
    let negation : Stmt := .expr minus (.unary minus "-" (.ident ⟨a, "a"⟩))
    Clauses (tokenize "-a;" none).dropLast [negation] 2 ∧
      parse "-a;" none = (⟨[negation]⟩, []) := by
  intro minus a negation
  have hts : (tokenize "-a;" none).dropLast =
      [minus, a] ++ ⟨.semicolon, ";", .cover "shell" 2 1⟩ :: [] := by decide +kernel
  have ha : Phrase .unary [a] (.ident ⟨a, "a"⟩) 1 := (Phrase.primary (.name rfl)).lower (by decide)
  have hp : Phrase .lowest [minus, a] (.unary minus "-" (.ident ⟨a, "a"⟩)) 2 :=
    (Phrase.unary (.inl rfl) ha).lower (by decide)
  have hc : Clauses (tokenize "-a;" none).dropLast [negation] 2 := by
    rw [hts]
    exact .ended (.expr hp) rfl .nil
  exact ⟨hc, (parse_complete "-a;" none [negation] 2 hc).1 (by decide)⟩

end FrontEnd
