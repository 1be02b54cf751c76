import FrontEnd.Proofs.Lossless
import FrontEnd.Token.Cursor

namespace FrontEnd

open Text

theorem Pattern.find?_map_fixed (kinds : List (Char × TokenKind)) (c : Char) (cs : List Char) :
    (kinds.map fun p => fixed [p.1] p.2).find? (·.isMatch (c :: cs)) =
      (kinds.lookup c).map (fixed [c]) := by
  induction kinds with
  | nil => rfl
  | cons p kinds ih =>
    rw [List.map_cons, List.find?_cons, List.lookup_cons, ih]
    by_cases hp : c = p.1
    · simp [isMatch, fixed, Shape.match?, hp]
    · have hne : (c == p.1) = false := beq_false_of_ne hp
      simp [isMatch, fixed, Shape.match?, hne, Ne.symm hp]

theorem Pattern.isMatch_pair_iff {a c : Char} {cs : List Char} {kind : TokenKind} :
    (fixed [a, '='] kind).isMatch (c :: cs) = true ↔ a = c ∧ cs.head? = some '=' := by
  cases cs <;> simp [isMatch, fixed, Shape.match?, eq_comm (b := '=')]

namespace Lexer

variable {l : Lexer} {c : Char} {cs : List Char}

theorem atEnd_eq_false (h : l.remainder? = some (c :: cs)) : l.atEnd = false := by
  obtain ⟨front, hsource, hsize⟩ := dropBytes?_eq_some_iff.1 h
  have hc := c.utf8Size_pos
  simp only [atEnd, hsource, byteSize_append, byteSize_cons, decide_eq_false_iff_not]
  omega

theorem round?_of_atEnd (h : l.atEnd = true) : l.round? = some (some (.eof (l.spanOf 0)), l) :=
  if_pos h

theorem round?_of_off (hend : ¬ l.atEnd = true) (h : l.remainder? = none) : l.round? = none := by
  rw [round?, if_neg hend, h, Option.bind_none]

theorem round?_of_cons (h : l.remainder? = some (c :: cs)) :
    l.round? = match Pattern.table.find? (·.isMatch (c :: cs)) with
      | some p => l.make? p
      | none => l.illegal?.map (·.map some id) := by
  have hend : ¬ l.atEnd = true := by simp [atEnd_eq_false h]
  exact (if_neg hend).trans (congrArg (Option.bind · _) h)

theorem matched?_run (h : l.remainder? = some (c :: cs)) {first : Char → Bool}
    (hc : first c = true) (more : Char → Bool) :
    l.matched? (.run first more) = some (c :: cs.takeWhile more) := by
  simp [matched?, h, Shape.match?, hc]

theorem round?_of_blank (h : l.remainder? = some (c :: cs)) (hb : isBlank c = true) :
    l.round? = some (none, l.pass ((c :: cs).takeWhile isBlank)) := by
  rw [round?_of_cons h, Pattern.table,
    List.find?_cons_of_pos (by simp [Pattern.isMatch, Shape.match?, hb])]
  simp [make?, matched?_run h hb, hb]

theorem round?_of_symbol (h : l.remainder? = some (c :: cs)) (hb : ¬ isBlank c = true)
    (hw : ¬ isWordStart c = true) (hd : ¬ c.isDigit = true) :
    l.round? = some ((l.cut (Lexeme.read c cs).kind (Lexeme.read c cs).text).map some id) := by
  have hskip : Pattern.table.find? (·.isMatch (c :: cs)) =
      (Pattern.fixed ['=', '='] .equals :: .fixed ['!', '='] .notEquals ::
        TokenKind.punctuation.map fun p => .fixed [p.1] p.2).find? (·.isMatch (c :: cs)) := by
    simp [Pattern.table, List.find?_cons, Pattern.isMatch, Shape.match?, hb, hw, hd]
  rw [round?_of_cons h, hskip]
  by_cases hp : (c = '=' ∨ c = '!') ∧ cs.head? = some '='
  · obtain ⟨hc, hcs⟩ := hp
    obtain ⟨cs, rfl⟩ := List.head?_eq_some_iff.1 hcs
    rw [Lexeme.read_pair hc]
    obtain rfl | rfl := hc <;> rfl
  · have hequals : ¬ (Pattern.fixed ['=', '='] .equals).isMatch (c :: cs) = true :=
      fun he => hp ((Pattern.isMatch_pair_iff.1 he).imp_left fun h => .inl h.symm)
    have hnotEquals : ¬ (Pattern.fixed ['!', '='] .notEquals).isMatch (c :: cs) = true :=
      fun he => hp ((Pattern.isMatch_pair_iff.1 he).imp_left fun h => .inr h.symm)
    rw [List.find?_cons_of_neg hequals, List.find?_cons_of_neg hnotEquals, Pattern.find?_map_fixed,
      Lexeme.read_symbol hw hd cs fun b hb he => hp ⟨he.1, by rw [hb, he.2]⟩,
      TokenKind.ofPunctuation]
    cases TokenKind.punctuation.lookup c with
    -- the character is there, and NUL is not taken for it
    | none => simp [illegal?, character?, h]
    | some kind => rfl

theorem round?_of_not_blank (h : l.remainder? = some (c :: cs)) (hb : ¬ isBlank c = true) :
    l.round? = some ((l.cut (Lexeme.read c cs).kind (Lexeme.read c cs).text).map some id) := by
  by_cases hw : isWordStart c = true
  · rw [round?_of_cons h, Lexeme.read_word hw]
    simp [Pattern.table, Pattern.isMatch, Shape.match?, hb, hw, make?, matched?_run h hw]
  · by_cases hd : c.isDigit = true
    · rw [round?_of_cons h, Lexeme.read_number hw hd]
      simp [Pattern.table, Pattern.isMatch, Shape.match?, hb, hw, hd, make?, matched?_run h hd]
    · exact round?_of_symbol h hb hw hd

theorem reads_of_head (h : l.remainder? = some cs) (hb : ∀ c ∈ cs.head?, isBlank c = false) :
    l.Reads l.next? := by
  cases cs with
  | nil =>
    have hend : l.atEnd = true := atEnd_of_remainder? h
    rw [next?_of_atEnd hend]
    exact .token (round?_of_atEnd hend)
  | cons c cs =>
    have hb : isBlank c = false := hb c rfl
    have hnext : l.next? = some (l.cut (Lexeme.read c cs).kind (Lexeme.read c cs).text) := by
      simp [next?, unread?_of_remainder? h, hb, cut, pass, spanOf]
    rw [hnext]
    exact .token (round?_of_not_blank h (by simp [hb]))

theorem remainder?_pass {text rest : List Char} (h : l.remainder? = some (text ++ rest)) :
    (l.pass text).remainder? = some rest := by
  obtain ⟨front, hsource, hsize⟩ := dropBytes?_eq_some_iff.1 h
  exact dropBytes?_eq_some_iff.2 ⟨front ++ text, by simp [pass, hsource], by simp [pass, hsize]⟩

theorem remainder?_pass_blanks (h : l.remainder? = some cs) :
    (l.pass (cs.takeWhile isBlank)).remainder? = some (cs.dropWhile isBlank) :=
  remainder?_pass (by rwa [List.takeWhile_append_dropWhile])

/-- Whether blanks are passed before or not, the same is read. -/
theorem next?_pass_blanks (h : l.remainder? = some cs) :
    (l.pass (cs.takeWhile isBlank)).next? = l.next? := by
  obtain ⟨htake, hdrop⟩ := run_append (List.forall_mem_nil _) (stop_dropWhile isBlank cs)
  rw [List.nil_append] at htake hdrop
  rw [next?, next?, unread?_of_remainder? h, unread?_of_remainder? (remainder?_pass_blanks h)]
  simp only [Option.map_some, pass, htake, hdrop, byteSize_nil, Nat.add_zero]

/-- Reading ends on every lexer. -/
theorem reads_next? (l : Lexer) : l.Reads l.next? := by
  by_cases hend : l.atEnd = true
  · rw [next?_of_atEnd hend]
    exact .token (round?_of_atEnd hend)
  cases h : l.remainder? with
  | none =>
    have hnext : l.next? = none := by simp [next?, unread?, hend, h]
    rw [hnext]
    exact .fault (round?_of_off hend h)
  | some cs =>
    have hreads := reads_of_head (remainder?_pass_blanks h) (stop_dropWhile isBlank cs)
    rw [next?_pass_blanks h] at hreads
    cases cs with
    | nil => exact absurd (atEnd_of_remainder? h) hend
    | cons c cs =>
      by_cases hb : isBlank c = true
      · exact .again (round?_of_blank h hb) hreads
      · rwa [List.takeWhile_cons_of_neg hb] at hreads

theorem Reads.deterministic {o o' : Option (Token × Lexer)} (h : l.Reads o) (h' : l.Reads o') :
    o = o' := by
  induction h with
  | fault round => cases h' <;> simp_all
  | token round => cases h' <;> simp_all
  | again round rest ih =>
    cases h' with
    | fault round' => simp [round] at round'
    | token round' => simp [round] at round'
    | again round' rest' =>
      obtain ⟨-, rfl⟩ := Prod.mk.inj (Option.some.inj (round.symm.trans round'))
      exact ih rest'

theorem reads_iff {o : Option (Token × Lexer)} : l.Reads o ↔ o = l.next? :=
  ⟨fun h => h.deterministic l.reads_next?, fun h => h ▸ l.reads_next?⟩

theorem readsElement_iff {o : Option (Option Token × Lexer)} :
    l.ReadsElement o ↔ o = l.next?.map (·.map element id) := by
  simp [ReadsElement, reads_iff]

theorem ReadsElement.deterministic {o o' : Option (Option Token × Lexer)} (h : l.ReadsElement o)
    (h' : l.ReadsElement o') : o = o' :=
  (readsElement_iff.1 h).trans (readsElement_iff.1 h').symm

theorem collects_of_remainder? (h : l.remainder? = some cs) :
    l.Collects (some (scan l.file l.position cs,
      { l with position := l.position + byteSize cs })) := by
  induction hn : cs.length using Nat.strongRecOn generalizing l cs with
  | ind n ih =>
    cases hrest : cs.dropWhile isBlank with
    | nil =>
      obtain ⟨hscan, hnext⟩ := next?_of_blanks h hrest
      rw [hscan]
      exact .stop (readsElement_iff.2 (by rw [hnext]; rfl))
    | cons c ds =>
      obtain ⟨t, n', rest, hnext, -, hl', hlt, hsize, hscan⟩ := next?_of_cons h hrest
      have hkind : t.kind ≠ .eof := kind_ne_eof_of_mem_scan (hscan ▸ List.mem_cons_self)
      have helement : l.ReadsElement (some (some t, { l with position := n' })) :=
        readsElement_iff.2 (by simp [hnext, element, hkind])
      have hcollects := Collects.more helement (ih _ (hn ▸ hlt) hl' rfl)
      rw [hscan, ← hsize]
      exact hcollects

theorem collects_drain? (l : Lexer) : l.Collects l.drain? := by
  by_cases hend : l.atEnd = true
  · have hdrain : l.drain? = some ([], l) := by simp [drain?, unread?, hend, scan]
    rw [hdrain]
    exact .stop (readsElement_iff.2 (by rw [next?_of_atEnd hend]; rfl))
  cases h : l.remainder? with
  | none =>
    have hdrain : l.drain? = none := by simp [drain?, unread?, hend, h]
    rw [hdrain]
    exact .fault (readsElement_iff.2 (by simp [next?, unread?, hend, h]))
  | some cs =>
    have hdrain : l.drain? = some (scan l.file l.position cs,
        { l with position := l.position + byteSize cs }) := by
      rw [drain?, unread?_of_remainder? h, Option.map_some]
    rw [hdrain]
    exact collects_of_remainder? h

theorem Collects.deterministic {o o' : Option (List Token × Lexer)} (h : l.Collects o)
    (h' : l.Collects o') : o = o' := by
  induction h generalizing o' with
  | fault next =>
    cases h' with
    | fault => rfl
    | stop next' => cases next.deterministic next'
    | more next' => cases next.deterministic next'
  | stop next =>
    cases h' with
    | fault next' => cases next.deterministic next'
    | stop next' => cases next.deterministic next'; rfl
    | more next' => cases next.deterministic next'
  | more next rest ih =>
    cases h' with
    | fault next' => cases next.deterministic next'
    | stop next' => cases next.deterministic next'
    | more next' rest' =>
      cases next.deterministic next'
      rw [ih rest']

theorem collects_iff {o : Option (List Token × Lexer)} : l.Collects o ↔ o = l.drain? :=
  ⟨fun h => h.deterministic l.collects_drain?, fun h => h ▸ l.collects_drain?⟩

end Lexer

end FrontEnd
