import FrontEnd.Proofs.Scanning

namespace FrontEnd

def blanks : List Char := [' ', '\t', '\r', '\n']

theorem isBlank_iff {c : Char} : isBlank c = true ↔ c ∈ blanks := by
  simp [isBlank, Char.isWhitespace, blanks, or_assoc]

/-- The characters that a word may begin with. -/
def IsLetter (c : Char) : Prop := 'A' ≤ c ∧ c ≤ 'Z' ∨ 'a' ≤ c ∧ c ≤ 'z' ∨ c = '_'

def IsDigit (c : Char) : Prop := '0' ≤ c ∧ c ≤ '9'

theorem isWordStart_iff {c : Char} : isWordStart c = true ↔ IsLetter c := by
  have hupper : c.isUpper = true ↔ 'A' ≤ c ∧ c ≤ 'Z' := decide_eq_true_iff
  have hlower : c.isLower = true ↔ 'a' ≤ c ∧ c ≤ 'z' :=
    Bool.and_eq_true_iff.trans (and_congr decide_eq_true_iff decide_eq_true_iff)
  have halpha := Bool.or_eq_true_iff.trans (or_congr hupper hlower)
  rw [isWordStart, Bool.or_eq_true, decide_eq_true_eq]
  exact (or_congr_left halpha).trans or_assoc

theorem isDigit_iff {c : Char} : c.isDigit = true ↔ IsDigit c :=
  Bool.and_eq_true_iff.trans (and_congr decide_eq_true_iff decide_eq_true_iff)

theorem isWordChar_iff {c : Char} : isWordChar c = true ↔ IsLetter c ∨ IsDigit c := by
  rw [← isWordStart_iff, ← isDigit_iff]
  simp only [isWordChar, isWordStart, Char.isAlphanum, Bool.or_eq_true, or_right_comm]

/-- A word has the kind the table of reserved words gives it, and is an identifier when it is not in
the table. -/
def IsWordKind (word : String) (k : TokenKind) : Prop :=
  (word, k) ∈ TokenKind.reservedWords ∨
    k = .identifier ∧ ∀ k', (word, k') ∉ TokenKind.reservedWords

theorem isWordKind_iff {word : String} {k : TokenKind} :
    IsWordKind word k ↔ TokenKind.ofWord word = k := by
  have hall : ∀ p ∈ TokenKind.reservedWords, TokenKind.ofWord p.1 = p.2 := by decide
  constructor
  · rintro (hmem | ⟨rfl, hnot⟩)
    · exact hall _ hmem
    · have hnone : TokenKind.ofReserved? word = none :=
        Option.eq_none_iff_forall_ne_some.2 fun k hk => hnot k (mem_of_lookup hk)
      rw [TokenKind.ofWord, hnone, Option.getD_none]
  · rintro rfl
    cases h : TokenKind.ofReserved? word with
    | some k =>
      rw [TokenKind.ofWord, h]
      exact .inl (mem_of_lookup h)
    | none =>
      rw [TokenKind.ofWord, h]
      refine .inr ⟨rfl, fun k hk => ?_⟩
      simpa using List.lookup_eq_none_iff.1 h _ hk

/-- `ProperMunch k text back`: with `back` behind it, `text` is a token of kind `k` other than an
illegal one. Words and numbers end where they cannot go on, and `=` and `!` stand before no `=`. -/
inductive ProperMunch : TokenKind → List Char → List Char → Prop where
  | word {k : TokenKind} {c : Char} {cs back : List Char} (start : IsLetter c)
      (run : ∀ d ∈ cs, IsLetter d ∨ IsDigit d) (stop : ∀ d ∈ back.head?, ¬ (IsLetter d ∨ IsDigit d))
      (kind : IsWordKind (String.ofList (c :: cs)) k) : ProperMunch k (c :: cs) back
  | number {c : Char} {cs back : List Char} (start : IsDigit c) (run : ∀ d ∈ cs, IsDigit d)
      (stop : ∀ d ∈ back.head?, ¬ IsDigit d) : ProperMunch .int (c :: cs) back
  | assignment {back : List Char} (stop : back.head? ≠ some '=') :
      ProperMunch .assignment ['='] back
  | not {back : List Char} (stop : back.head? ≠ some '=') : ProperMunch .not ['!'] back
  | equals {back : List Char} : ProperMunch .equals ['=', '='] back
  | notEquals {back : List Char} : ProperMunch .notEquals ['!', '='] back
  | symbol {k : TokenKind} {c : Char} {back : List Char}
      (text : k.fixedText = some (String.ofList [c])) (assignment : c ≠ '=') (not : c ≠ '!') :
      ProperMunch k [c] back

/-- The rule of one token. An illegal token is one character that is no blank and with which no
other token begins, whatever stands behind it. -/
inductive Munch : TokenKind → List Char → List Char → Prop where
  | proper {k : TokenKind} {text back : List Char} (h : ProperMunch k text back) :
      Munch k text back
  | illegal {c : Char} {back : List Char} (blank : c ∉ blanks)
      (start : ∀ k text back, ¬ ProperMunch k (c :: text) back) : Munch .illegal [c] back

theorem sign_of_fixedText {c : Char} {k : TokenKind}
    (h : k.fixedText = some (String.ofList [c])) :
    ¬ isWordStart c = true ∧ ¬ c.isDigit = true ∧ c ∉ blanks ∧ TokenKind.ofPunctuation c = k := by
  have hall : ∀ p ∈ TokenKind.punctuation, ¬ isWordStart p.1 = true ∧ ¬ p.1.isDigit = true ∧
      p.1 ∉ blanks ∧ TokenKind.ofPunctuation p.1 = p.2 := by decide
  exact hall _ (TokenKind.mem_punctuation_iff.2 h)

theorem properMunch_of_fixedText {c : Char} {k : TokenKind}
    (h : k.fixedText = some (String.ofList [c])) {back : List Char}
    (hpair : c = '=' ∨ c = '!' → back.head? ≠ some '=') : ProperMunch k [c] back := by
  have hk := (sign_of_fixedText h).2.2.2
  by_cases hassign : c = '='
  · subst hassign hk
    exact .assignment (hpair (.inl rfl))
  · by_cases hnot : c = '!'
    · subst hnot hk
      exact .not (hpair (.inr rfl))
    · exact .symbol h hassign hnot

theorem not_properMunch_iff {c : Char} :
    (∀ k text back, ¬ ProperMunch k (c :: text) back) ↔
      ¬ isWordStart c = true ∧ ¬ c.isDigit = true ∧ TokenKind.punctuation.lookup c = none := by
  constructor
  · intro h
    refine ⟨fun hw => ?_, fun hd => ?_, Option.eq_none_iff_forall_ne_some.2 fun k hk => ?_⟩
    · exact h _ [] [] (.word (isWordStart_iff.1 hw) (by simp) (by simp) (isWordKind_iff.2 rfl))
    · exact h _ [] [] (.number (isDigit_iff.1 hd) (by simp) (by simp))
    · have htext := TokenKind.mem_punctuation_iff.1 (mem_of_lookup hk)
      exact h _ [] [] (properMunch_of_fixedText htext (by simp))
  · rintro ⟨hw, hd, hp⟩ k text back h
    have hsign : ∀ k, (c, k) ∉ TokenKind.punctuation := fun k hk => by
      simpa using List.lookup_eq_none_iff.1 hp _ hk
    cases h with
    | word start => exact hw (isWordStart_iff.2 start)
    | number start => exact hd (isDigit_iff.2 start)
    | assignment | equals => exact hsign .assignment (by decide)
    | not | notEquals => exact hsign .not (by decide)
    | symbol text => exact hsign _ (TokenKind.mem_punctuation_iff.2 text)

theorem ProperMunch.not_mem_blanks {k : TokenKind} {c : Char} {text back : List Char}
    (h : ProperMunch k (c :: text) back) : c ∉ blanks := by
  have hword (hw : IsLetter c ∨ IsDigit c) : c ∉ blanks := fun hb => by
    simpa [isBlank_iff.2 hb] using isBlank_eq_false (isWordChar_iff.2 hw)
  cases h with
  | word start => exact hword (.inl start)
  | number start => exact hword (.inr start)
  | assignment | equals | not | notEquals => decide
  | symbol text => exact (sign_of_fixedText text).2.2.1

theorem Munch.not_mem_blanks {k : TokenKind} {c : Char} {text back : List Char}
    (h : Munch k (c :: text) back) : c ∉ blanks := by
  cases h with
  | proper h => exact h.not_mem_blanks
  | illegal blank => exact blank

theorem Munch.text_ne_nil {k : TokenKind} {text back : List Char} (h : Munch k text back) :
    text ≠ [] := by
  cases h with
  | proper h => cases h <;> simp
  | illegal => simp

theorem run_append {p : Char → Bool} {cs back : List Char} (run : ∀ d ∈ cs, p d = true)
    (stop : ∀ d ∈ back.head?, p d = false) :
    (cs ++ back).takeWhile p = cs ∧ (cs ++ back).dropWhile p = back := by
  obtain ⟨ht, hd⟩ := takeWhile_append_of_not p cs back fun _ => stop
  rw [ht, hd, List.takeWhile_eq_self_iff.2 run, List.dropWhile_eq_nil_iff.2 run]
  exact ⟨rfl, rfl⟩

theorem stop_dropWhile (p : Char → Bool) (cs : List Char) :
    ∀ d ∈ (cs.dropWhile p).head?, p d = false := by
  intro d hd
  have h := List.head?_dropWhile_not p cs
  rw [Option.mem_def] at hd
  simpa [hd] using h

theorem ProperMunch.read {k : TokenKind} {c : Char} {text back : List Char}
    (h : ProperMunch k (c :: text) back) : Lexeme.read c (text ++ back) = ⟨k, c :: text, back⟩ := by
  cases h with
  | word start run stop kind =>
    simp only [← isWordChar_iff, Bool.not_eq_true] at run stop
    obtain ⟨ht, hd⟩ := run_append run stop
    rw [Lexeme.read_word (isWordStart_iff.2 start), ht, hd, isWordKind_iff.1 kind]
  | number start run stop =>
    simp only [← isDigit_iff, Bool.not_eq_true] at start run stop
    obtain ⟨ht, hd⟩ := run_append run stop
    rw [Lexeme.read_number (not_isWordStart_of_isDigit start) start, ht, hd]
  | assignment stop =>
    exact Lexeme.read_symbol (by decide) (by decide) _ fun b hb he => stop (by simpa [he.2] using hb)
  | not stop =>
    exact Lexeme.read_symbol (by decide) (by decide) _ fun b hb he => stop (by simpa [he.2] using hb)
  | equals | notEquals => rfl
  | symbol text assignment not =>
    obtain ⟨hw, hd, -, hk⟩ := sign_of_fixedText text
    rw [List.nil_append, Lexeme.read_symbol hw hd back fun b _ he => he.1.elim assignment not, hk]

theorem Munch.read {k : TokenKind} {c : Char} {text back : List Char}
    (h : Munch k (c :: text) back) : Lexeme.read c (text ++ back) = ⟨k, c :: text, back⟩ := by
  cases h with
  | proper h => exact h.read
  | illegal blank start =>
    obtain ⟨hw, hd, hp⟩ := not_properMunch_iff.1 start
    have hpair : ¬ (c = '=' ∨ c = '!') := by
      rintro (rfl | rfl) <;> simp [TokenKind.punctuation] at hp
    rw [List.nil_append, Lexeme.read_symbol hw hd back fun b _ he => hpair he.1,
      TokenKind.ofPunctuation, hp, Option.getD_none]

theorem munch_read {c : Char} (h : c ∉ blanks) (cs : List Char) :
    Munch (Lexeme.read c cs).kind (Lexeme.read c cs).text (Lexeme.read c cs).rest := by
  by_cases hw : isWordStart c = true
  · rw [Lexeme.read_word hw]
    have hstop := stop_dropWhile isWordChar cs
    simp only [← Bool.not_eq_true, isWordChar_iff] at hstop
    exact .proper (.word (isWordStart_iff.1 hw)
      (fun d hd => isWordChar_iff.1 (List.mem_takeWhile_imp hd)) hstop (isWordKind_iff.2 rfl))
  · by_cases hd : c.isDigit = true
    · rw [Lexeme.read_number hw hd]
      have hstop := stop_dropWhile Char.isDigit cs
      simp only [← Bool.not_eq_true, isDigit_iff] at hstop
      exact .proper (.number (isDigit_iff.1 hd)
        (fun d hd => isDigit_iff.1 (List.mem_takeWhile_imp hd)) hstop)
    · by_cases hpair : (c = '=' ∨ c = '!') ∧ cs.head? = some '='
      · obtain ⟨hc, hcs⟩ := hpair
        obtain ⟨cs, rfl⟩ := List.head?_eq_some_iff.1 hcs
        rw [Lexeme.read_pair hc]
        obtain rfl | rfl := hc
        · exact .proper .equals
        · exact .proper .notEquals
      · rw [Lexeme.read_symbol hw hd _ fun b hb he => hpair ⟨he.1, by rw [hb, he.2]⟩]
        rw [TokenKind.ofPunctuation]
        cases hp : TokenKind.punctuation.lookup c with
        | none => exact .illegal h (not_properMunch_iff.2 ⟨hw, hd, hp⟩)
        | some k =>
          have htext := TokenKind.mem_punctuation_iff.1 (mem_of_lookup hp)
          exact .proper (properMunch_of_fixedText htext fun hc hcs => hpair ⟨hc, hcs⟩)

end FrontEnd
