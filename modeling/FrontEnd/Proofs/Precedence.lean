import FrontEnd.Proofs.Handlers
import FrontEnd.Proofs.Termination

namespace FrontEnd

open Text Parse

/-- A name, a truth value, or a number that an integer can hold. -/
def Token.IsLeaf (t : Token) : Prop :=
  t.kind = .identifier ∨ t.kind = .trueWord ∨ t.kind = .falseWord ∨
    t.kind = .int ∧ decimal t.text.toList ≤ maxInteger

def Token.leaf (t : Token) : Expr :=
  match t.kind with
  | .int => .int t (.ofNat (decimal t.text.toList))
  | .trueWord => .bool t true
  | .falseWord => .bool t false
  | _ => .ident ⟨t, t.text⟩

structure Link where
  operator : Token
  operand : Token
  deriving DecidableEq

namespace Link

def tokens (a : Link) : List Token := [a.operator, a.operand]

/-- An operand, the links behind it, and the tokens behind those. -/
def chain (first : Token) (links : List Link) (after : List Token) : List Token :=
  first :: (links.flatMap tokens ++ after)

def last (first : Token) : List Link → Token
  | [] => first
  | a :: links => last a.operand links

theorem last_append (first : Token) (front : List Link) (a : Link) (back : List Link) :
    last first (front ++ a :: back) = last a.operand back := by
  induction front generalizing first with
  | nil => rfl
  | cons b front ih => exact ih b.operand

variable (rules : Rules)

def power (a : Link) : Power := rules.power a.operator.kind

/-- The last one of the weakest operators, and what stands on both sides of it. -/
def weakest? : List Link → Option (List Link × Link × List Link)
  | [] => none
  | a :: links =>
    match weakest? links with
    | none => some ([], a, [])
    | some (front, b, back) =>
      if b.power rules ≤ a.power rules then some (a :: front, b, back) else some ([], a, links)

variable {rules} {a : Link} {links front back : List Link}

theorem weakest?_eq_none_iff : weakest? rules links = none ↔ links = [] := by
  cases links with
  | nil => simp [weakest?]
  | cons a links =>
    simp only [weakest?, reduceCtorEq, iff_false]
    split
    · simp
    · split <;> simp

theorem eq_of_weakest? (h : weakest? rules links = some (front, a, back)) :
    links = front ++ a :: back ∧ (∀ b ∈ front, a.power rules ≤ b.power rules) ∧
      ∀ b ∈ back, a.power rules < b.power rules := by
  induction links generalizing front a back with
  | nil => cases h
  | cons c links ih =>
    rw [weakest?] at h
    split at h
    · next hnone =>
      cases h
      simp [weakest?_eq_none_iff.1 hnone]
    · next front' b back' hsome =>
      obtain ⟨rfl, hfront, hback⟩ := ih hsome
      split at h
      · next hle =>
        cases h
        exact ⟨rfl, List.forall_mem_cons.2 ⟨hle, hfront⟩, hback⟩
      · next hle =>
        cases h
        have hlt : c.power rules < b.power rules := Nat.lt_of_not_le hle
        refine ⟨rfl, by simp, List.forall_mem_append.2 ⟨fun d hd => ?_, ?_⟩⟩
        · exact Nat.lt_of_lt_of_le hlt (hfront d hd)
        · exact List.forall_mem_cons.2 ⟨hlt, fun d hd => Nat.lt_trans hlt (hback d hd)⟩

theorem weakest?_eq_some_iff : weakest? rules links = some (front, a, back) ↔
    links = front ++ a :: back ∧ (∀ b ∈ front, a.power rules ≤ b.power rules) ∧
      ∀ b ∈ back, a.power rules < b.power rules := by
  refine ⟨eq_of_weakest?, ?_⟩
  rintro ⟨rfl, hfront, hback⟩
  induction front with
  | nil =>
    rw [List.nil_append, weakest?]
    split
    · next hnone => rw [weakest?_eq_none_iff.1 hnone]
    · next front' b back' hsome =>
      obtain ⟨rfl, -, -⟩ := eq_of_weakest? hsome
      have hlt : a.power rules < b.power rules := hback b (by simp)
      rw [if_neg (show ¬ b.power rules ≤ a.power rules from Nat.not_le.2 hlt)]
  | cons c front ih =>
    obtain ⟨hc, hfront⟩ := List.forall_mem_cons.1 hfront
    rw [List.cons_append, weakest?, ih hfront]
    simp only [if_pos hc]

variable (rules)

/-- The tree of a chain: a single operand is a leaf, and any other chain is split at the last one of
its weakest operators. -/
def tree (first : Token) (links : List Link) : Expr :=
  match _h : weakest? rules links with
  | none => first.leaf
  | some (front, a, back) =>
    .binary a.operator (tree first front) a.operator.text (tree a.operand back)
termination_by links.length
decreasing_by
  all_goals
    rw [(eq_of_weakest? _h).1]
    simp only [List.length_append, List.length_cons]
    omega

theorem tree_nil (first : Token) : tree rules first [] = first.leaf := by
  rw [tree]
  rfl

variable {rules}

theorem tree_append (first : Token) (hfront : ∀ b ∈ front, a.power rules ≤ b.power rules)
    (hback : ∀ b ∈ back, a.power rules < b.power rules) :
    tree rules first (front ++ a :: back) =
      .binary a.operator (tree rules first front) a.operator.text (tree rules a.operand back) := by
  have hsplit := weakest?_eq_some_iff.2 ⟨rfl, hfront, hback⟩
  rw [tree]
  split
  · next hnone => rw [hnone] at hsplit; cases hsplit
  · next hsome =>
    rw [hsome] at hsplit
    cases hsplit
    rfl

variable (rules)

def binds (c : Power) (a : Link) : Bool := decide (c < a.power rules)

/-- The first links of a chain, as far as all operators bind tighter than the ceiling. -/
def above (c : Power) (links : List Link) : List Link := links.takeWhile (binds rules c)

def beyond (c : Power) (links : List Link) : List Link := links.dropWhile (binds rules c)

variable {rules} {c p : Power}

theorem above_append_beyond (c : Power) (links : List Link) :
    above rules c links ++ beyond rules c links = links :=
  List.takeWhile_append_dropWhile

theorem lt_of_mem_above {b : Link} (h : b ∈ above rules c links) : c < b.power rules :=
  of_decide_eq_true (show binds rules c b = true from List.mem_takeWhile_imp h)

theorem mem_of_mem_beyond {b : Link} (h : b ∈ beyond rules c links) : b ∈ links :=
  (List.dropWhile_suffix _).subset h

theorem not_lt_of_beyond {b : Link} {bs : List Link} (h : beyond rules c links = b :: bs) :
    ¬ c < b.power rules := by
  have hhead := List.head?_dropWhile_not (binds rules c) links
  rw [show links.dropWhile (binds rules c) = b :: bs from h] at hhead
  simpa [binds] using hhead

theorem above_cons_of_not (h : ¬ c < a.power rules) : above rules c (a :: links) = [] :=
  List.takeWhile_cons_of_neg (by simpa [binds] using h)

theorem beyond_cons_of_not (h : ¬ c < a.power rules) : beyond rules c (a :: links) = a :: links :=
  List.dropWhile_cons_of_neg (by simpa [binds] using h)

theorem above_of_forall (h : ∀ a ∈ links, c < a.power rules) :
    above rules c links = links ∧ beyond rules c links = [] :=
  have hall : ∀ a ∈ links, binds rules c a = true := fun a ha => decide_eq_true (h a ha)
  ⟨List.takeWhile_eq_self_iff.2 hall, List.dropWhile_eq_nil_iff.2 hall⟩

theorem binds_of_mem_above (h : c < a.power rules) {b : Link}
    (hb : b ∈ above rules (a.power rules) links) : binds rules c b = true :=
  decide_eq_true (Nat.lt_trans h (lt_of_mem_above hb))

theorem above_cons (h : c < a.power rules) :
    above rules c (a :: links) = a :: above rules (a.power rules) links ++
      above rules c (beyond rules (a.power rules) links) := by
  have hlinks : above rules c links = above rules (a.power rules) links ++
      above rules c (beyond rules (a.power rules) links) :=
    calc above rules c links
        = above rules c (above rules (a.power rules) links ++
            beyond rules (a.power rules) links) := by rw [above_append_beyond]
      _ = _ := List.takeWhile_append_of_pos fun b hb => binds_of_mem_above h hb
  rw [List.cons_append, ← hlinks]
  exact List.takeWhile_cons_of_pos (decide_eq_true h)

theorem beyond_cons (h : c < a.power rules) :
    beyond rules c (a :: links) = beyond rules c (beyond rules (a.power rules) links) :=
  calc beyond rules c (a :: links)
      = beyond rules c links := List.dropWhile_cons_of_pos (decide_eq_true h)
    _ = beyond rules c (above rules (a.power rules) links ++
          beyond rules (a.power rules) links) := by rw [above_append_beyond]
    _ = _ := List.dropWhile_append_of_pos fun b hb => binds_of_mem_above h hb

/-- The next operator behind a link, and behind all that bind tighter than that link, is no tighter
than anything before it. -/
theorem le_of_head_beyond (h : ∀ d ∈ front, a.power rules ≤ d.power rules) :
    ∀ b ∈ (beyond rules (a.power rules) links).head?,
      ∀ d ∈ front ++ a :: above rules (a.power rules) links, b.power rules ≤ d.power rules := by
  intro b hb
  obtain ⟨bs, hbs⟩ := List.head?_eq_some_iff.1 hb
  have hle : b.power rules ≤ a.power rules := Nat.le_of_not_lt (not_lt_of_beyond hbs)
  refine List.forall_mem_append.2 ⟨fun d hd => Nat.le_trans hle (h d hd), ?_⟩
  refine List.forall_mem_cons.2 ⟨hle, fun d hd => Nat.le_trans hle ?_⟩
  exact Nat.le_of_lt (lt_of_mem_above hd)

/-- The rules read the link: its operator as a binary one that binds, and its operand as a name, a
truth value or a number. -/
structure Readable (rules : Rules) (a : Link) : Prop where
  operator : rules.operator a.operator.kind = some (a.power rules, .binary)
  binds : .lowest < a.power rules
  leaf : a.operand.IsLeaf
  operand : rules.operand a.operand.kind = some .primary

end Link

namespace Parse

open Link

variable {rules : Rules} {expr : Power → Parse Expr} {s : State} {c : Power}

theorem primary_yields_leaf {t : Token} {ts : List Token} (h : t.IsLeaf) :
    primary.Yields (s.on (t :: ts)) t.leaf (s.on (t :: ts)) := by
  refine yields_primary.2 ⟨rfl, ?_⟩
  obtain hk | hk | hk | ⟨hk, hle⟩ := h
  · exact .inr (.inl ⟨hk, by simp [Token.leaf, hk]⟩)
  · exact .inr (.inr (.inl ⟨hk, by simp [Token.leaf, hk]⟩))
  · exact .inr (.inr (.inr ⟨hk, by simp [Token.leaf, hk]⟩))
  · exact .inl ⟨hk, _, if_pos hle, by simp [Token.leaf, hk]⟩

/-- From the first operand of a chain on an expression is read as the tree of the links above the
ceiling, and the cursor is left on the last operand of those. -/
def ReadsChains (rules : Rules) (expr : Power → Parse Expr) (c : Power) : Prop :=
  ∀ (first : Token) (links : List Link) (s : State) (after : List Token), first.IsLeaf →
    rules.operand first.kind = some .primary → (∀ a ∈ links, a.Readable rules) →
      rules.power (s.on after).current.kind = .lowest →
        (expr c).Yields (s.on (chain first links after)) (tree rules first (above rules c links))
          (s.on (chain (last first (above rules c links)) (beyond rules c links) after))

theorem extend_yields_stop (h : rules.power s.peek.kind ≤ c) (e : Expr) :
    (extend rules expr c e).Yields s e s :=
  ⟨run_extend_stop h e, rfl⟩

theorem extend_yields_link {a : Link} (h : ReadsChains rules expr (a.power rules))
    (ha : a.Readable rules) (hc : c < a.power rules) {links : List Link}
    (hlinks : ∀ b ∈ links, b.Readable rules) {after : List Token}
    (hafter : rules.power (s.on after).current.kind = .lowest) (t : Token) {left e : Expr}
    {u : State} (hrest : (extend rules expr c (.binary a.operator left a.operator.text
        (tree rules a.operand (above rules (a.power rules) links)))).Yields
      (s.on (chain (last a.operand (above rules (a.power rules) links))
        (beyond rules (a.power rules) links) after)) e u) :
    (extend rules expr c left).Yields (s.on (chain t (a :: links) after)) e u := by
  have hop : (OperatorRule.binary.parse expr (a.power rules) left).Yields
      (s.on (a.operator :: chain a.operand links after)) _ _ :=
    yields_binary.2 ⟨_, h a.operand links s after ha.leaf ha.operand hlinks hafter, rfl⟩
  rw [yields_congr (run_extend_step (List.cons_ne_nil _ _) ha.operator hc left), yields_bind]
  exact ⟨(), _, yields_advance.2 rfl, yields_bind.2 ⟨_, _, hop, hrest⟩⟩

/-- The links that were read bind at least as tightly as the next operator, so that this one is
where the tree of all of them is split. -/
theorem extend_yields_tree (h : ∀ p, c < p → ReadsChains rules expr p) (first : Token)
    (done links : List Link) (after : List Token) (hlinks : ∀ a ∈ links, a.Readable rules)
    (hafter : rules.power (s.on after).current.kind = .lowest)
    (hdone : ∀ a ∈ links.head?, ∀ b ∈ done, a.power rules ≤ b.power rules) :
    (extend rules expr c (tree rules first done)).Yields
      (s.on (chain (last first done) links after))
      (tree rules first (done ++ above rules c links))
      (s.on (chain (last first (done ++ above rules c links)) (beyond rules c links) after)) := by
  induction hn : links.length using Nat.strongRecOn generalizing done links with
  | ind n ih =>
    cases links with
    | nil =>
      have hstop : rules.power (s.on (chain (last first done) [] after)).peek.kind ≤ c :=
        (congrArg Power.rank hafter).trans_le (Nat.zero_le _)
      simpa [above, beyond] using extend_yields_stop hstop (tree rules first done)
    | cons a links =>
      obtain ⟨ha, hlinks⟩ := List.forall_mem_cons.1 hlinks
      have hdone : ∀ b ∈ done, a.power rules ≤ b.power rules := hdone a rfl
      by_cases hc : c < a.power rules
      -- what binds tighter than `a` is read with it, and the loop goes on behind that
      · have hlen : (beyond rules (a.power rules) links).length < n := by
          have hle : (beyond rules (a.power rules) links).length ≤ links.length :=
            (List.dropWhile_suffix _).length_le
          rw [← hn, List.length_cons]
          omega
        have hrest := ih _ hlen (done ++ a :: above rules (a.power rules) links) _
          (fun b hb => hlinks b (mem_of_mem_beyond hb)) (le_of_head_beyond hdone) rfl
        rw [tree_append first hdone fun b hb => lt_of_mem_above hb, last_append] at hrest
        rw [above_cons hc, beyond_cons hc, ← List.append_assoc]
        exact extend_yields_link (h _ hc) ha hc hlinks hafter _ hrest
      · have hstop :
            rules.power (s.on (chain (last first done) (a :: links) after)).peek.kind ≤ c :=
          Nat.le_of_not_lt hc
        rw [above_cons_of_not hc, beyond_cons_of_not hc, List.append_nil]
        exact extend_yields_stop hstop _

/-- Each level of nesting is opened under a higher ceiling, of which there are seven. -/
theorem expression_reads_chains (levels : Nat) (c : Power)
    (hlevels : Power.call.rank < levels + c.rank) :
    ReadsChains rules (expression rules levels) c := by
  induction levels generalizing c with
  | zero => cases c <;> exact absurd hlevels (by decide)
  | succ levels ih =>
    intro first links s after hfirst hoperand hlinks hafter
    have hhigher : ∀ p, c < p → ReadsChains rules (expression rules levels) p := by
      intro p hp
      have hrank : c.rank < p.rank := hp
      exact ih p (by omega)
    have hleaf : (operand rules (expression rules levels)).Yields (s.on (chain first links after))
        first.leaf (s.on (chain first links after)) :=
      yields_operand.2 ⟨.primary, hoperand, primary_yields_leaf hfirst⟩
    have hextend := extend_yields_tree hhigher first [] links after hlinks hafter (by simp)
    rw [tree_nil] at hextend
    exact yields_expression_succ.2 ⟨_, _, hleaf, hextend⟩

end Parse

theorem Session.depth_foldl_register (rs : List Registration) (s : Session) :
    (rs.foldl register s).depth = s.depth := by
  induction rs generalizing s with
  | nil => rfl
  | cons r rs ih =>
    rw [List.foldl_cons, ih]
    cases r <;> rfl

theorem Session.run_expression_tree {s : Session} (hdepth : s.depth = 0) {first : Token}
    {links : List Link} {after : List Token} (hrest : s.state.rest = Link.chain first links after)
    (hfirst : first.IsLeaf) (hoperand : s.rules.operand first.kind = some .primary)
    (hlinks : ∀ a ∈ links, a.Readable s.rules)
    (hafter : s.rules.power (after.headD (.eof s.state.ending)).kind = .lowest) :
    s.run (s.expression .lowest) = (.ok (Link.tree s.rules first links),
      { s with state := s.state.on (Link.last first links :: after) }) := by
  have hchains : Parse.ReadsChains s.rules (Parse.expression s.rules maxNesting) .lowest :=
    Parse.expression_reads_chains maxNesting .lowest (by decide)
  have hreads := hchains first links s.state after hfirst hoperand hlinks hafter
  obtain ⟨habove, hbeyond⟩ := Link.above_of_forall fun a ha => (hlinks a ha).binds
  rw [habove, hbeyond, ← hrest] at hreads
  have hrun : (Parse.expression s.rules maxNesting .lowest).run s.state = _ := hreads.1
  rw [run, expression, hdepth, Nat.sub_zero, hrun]
  rfl

open Procedure in
/-- On a new session under any registered rules: names, truth values and numbers with binary
operators between them that bind, before a token that does not, are read as the tree that is split
at the last one of the weakest operators. The cursor is left on the last operand. -/
theorem expression_tree {l : Lexer} {start : Session} (hstart : Session.ofLexer? l = some start)
    (rs : List Session.Registration) (first : Token) (links : List Link) (after : List Token)
    (hrest : start.state.rest = Link.chain first links after) :
    let s := rs.foldl Session.register start
    first.IsLeaf → s.rules.operand first.kind = some .primary → (∀ a ∈ links, a.Readable s.rules) →
      s.rules.power (after.headD (.eof s.state.ending)).kind = .lowest →
        let t : Session := { s with state := s.state.on (Link.last first links :: after) }
        s.run (s.expression .lowest) = (.ok (Link.tree s.rules first links), t) ∧
          Returns (·.expression .lowest) s (.ok (Link.tree s.rules first links)) t := by
  intro s hfirst hoperand hlinks hafter t
  have hdepth : s.depth = 0 := by
    unfold Session.ofLexer? at hstart
    obtain ⟨_, -, rfl⟩ := Option.map_eq_some_iff.1 hstart
    exact Session.depth_foldl_register rs _
  have hstate : s.state = start.state := state_foldl_register rs start
  have hrun := Session.run_expression_tree hdepth (hstate ▸ hrest) hfirst hoperand hlinks hafter
  refine ⟨hrun, ?_⟩
  have hends : Returns (·.expression .lowest) s (s.run (s.expression .lowest)).1
      (s.run (s.expression .lowest)).2 := expression_ends s.rules s.depth .lowest s.state
  rwa [hrun] at hends

open Procedure in
/-- The sign `==` binds as tightly as a call. Of the two dashes, which are the weakest operators, the
second one is the root. -/
theorem expression_tree_ties :
    let token (kind : TokenKind) (text : String) (start stop : UInt32) : Token :=
      ⟨kind, text, ⟨start, stop, "shell"⟩⟩
    let a := token .identifier "a" 0 1
    let minus : Link := ⟨token .dash "-" 2 3, token .int "7" 4 5⟩
    let equals : Link := ⟨token .equals "==" 6 8, token .identifier "b" 9 10⟩
    let minus' : Link := ⟨token .dash "-" 11 12, token .trueWord "true" 13 17⟩
    let links := [minus, equals, minus']
    let after := [token .semicolon ";" 17 18]
    let start : Session := ⟨.standard, 0, .ofSource "a - 7 == b - true;" none⟩
    let s := start.register (.operator .equals .call .binary)
    Session.ofLexer? (.ofSource "a - 7 == b - true;" none) = some start ∧
      start.state.rest = Link.chain a links after ∧ a.IsLeaf ∧
      s.rules.operand a.kind = some .primary ∧ (∀ b ∈ links, b.Readable s.rules) ∧
      s.rules.power (after.headD (.eof s.state.ending)).kind = .lowest ∧
      Returns (·.expression .lowest) s
        (.ok (.binary minus'.operator
          (.binary minus.operator (.ident ⟨a, "a"⟩) "-"
            (.binary equals.operator (.int minus.operand 7) "==" (.ident ⟨equals.operand, "b"⟩)))
          "-" (.bool minus'.operand true)))
        { s with state := s.state.on (minus'.operand :: after) } := by
  intro token a minus equals minus' links after start s
  have hstart : Session.ofLexer? (.ofSource "a - 7 == b - true;" none) = some start :=
    Session.ofLexer?_ofSource _ _
  have hrest : start.state.rest = Link.chain a links after := by decide +kernel
  have ha : a.IsLeaf := .inl rfl
  have hlinks : ∀ b ∈ links, b.Readable s.rules := by
    simp only [links, List.forall_mem_cons, List.not_mem_nil, false_implies, implies_true, and_true]
    refine ⟨⟨rfl, by decide, ?_, rfl⟩, ⟨rfl, by decide, ?_, rfl⟩, ⟨rfl, by decide, ?_, rfl⟩⟩
    · exact .inr (.inr (.inr ⟨rfl, by decide⟩))
    · exact .inl rfl
    · exact .inr (.inl rfl)
  have hseven : minus.operand.leaf = .int minus.operand 7 :=
    congrArg (Expr.int minus.operand)
      (show Int64.ofNat (decimal minus.operand.text.toList) = 7 by decide)
  have hright : Link.tree s.rules minus.operand ([] ++ equals :: []) = _ :=
    Link.tree_append _ (by decide) (by decide)
  have hleft : Link.tree s.rules a ([] ++ minus :: [equals]) = _ :=
    Link.tree_append _ (by decide) (by decide)
  have htree : Link.tree s.rules a ([minus, equals] ++ minus' :: []) = _ :=
    Link.tree_append _ (by decide) (by decide)
  rw [List.nil_append, Link.tree_nil, Link.tree_nil, hseven] at hright
  rw [List.nil_append, Link.tree_nil, hright] at hleft
  rw [hleft, Link.tree_nil] at htree
  have hreturns : Returns (·.expression .lowest) s
      (.ok (Link.tree s.rules a ([minus, equals] ++ minus' :: []))) _ :=
    (expression_tree hstart [.operator .equals .call .binary] a links after hrest ha rfl hlinks
      rfl).2
  rw [htree] at hreturns
  exact ⟨hstart, hrest, ha, rfl, hlinks, rfl, hreturns⟩

end FrontEnd
