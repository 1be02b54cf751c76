import FrontEnd.Token.Lexer
import Mathlib.Data.List.TakeWhile

namespace FrontEnd

namespace TokenKind

/-- The text of the kinds that have only one. -/
def fixedText : TokenKind → Option String
  | .openCurly => some "\x7b"
  | .closeCurly => some "\x7d"
  | .openParen => some "("
  | .closeParen => some ")"
  | .assignment => some "="
  | .equals => some "=="
  | .not => some "!"
  | .notEquals => some "!="
  | .less => some "<"
  | .greater => some ">"
  | .comma => some ","
  | .semicolon => some ";"
  | .plus => some "+"
  | .dash => some "-"
  | .slash => some "/"
  | .star => some "*"
  | .letWord => some "let"
  | .fnWord => some "fn"
  | .trueWord => some "true"
  | .falseWord => some "false"
  | .ifWord => some "if"
  | .elseWord => some "else"
  | .returnWord => some "return"
  | .eof | .illegal | .identifier | .int => none

end TokenKind

def isName (text : String) : Bool :=
  match text.toList with
  | [] => false
  | c :: cs => isWordStart c && cs.all isWordChar && (TokenKind.ofReserved? text).isNone

def isNumber (text : String) : Bool := text.toList ≠ [] && text.toList.all Char.isDigit

namespace Token

def isProper (t : Token) : Bool :=
  match t.kind with
  | .identifier => isName t.text
  | .int => isNumber t.text
  | kind => kind.fixedText = some t.text

def bare (t : Token) : Token := { t with span := ⟨0, 0, ""⟩ }

@[simp] theorem kind_bare (t : Token) : t.bare.kind = t.kind := rfl

@[simp] theorem text_bare (t : Token) : t.bare.text = t.text := rfl

end Token

open Text

/-- Two characters that may belong to one lexeme when they stand side by side. -/
def runsInto (a b : Char) : Bool := isWordChar a && isWordChar b || (a = '=' || a = '!') && b = '='

theorem isWordChar_of_isWordStart {c : Char} (h : isWordStart c = true) : isWordChar c = true := by
  simp only [isWordStart, isWordChar, Bool.or_eq_true, Char.isAlphanum] at h ⊢
  exact h.elim (fun h => .inl (.inl h)) .inr

theorem isWordChar_of_isDigit {c : Char} (h : c.isDigit = true) : isWordChar c = true := by
  simp [isWordChar, Char.isAlphanum, h]

theorem takeWhile_append_of_not (p : Char → Bool) (cs ds : List Char)
    (h : cs.all p = true → ∀ b ∈ ds.head?, p b = false) :
    (cs ++ ds).takeWhile p = cs.takeWhile p ∧ (cs ++ ds).dropWhile p = cs.dropWhile p ++ ds := by
  induction cs with
  | nil =>
    cases ds with
    | nil => simp
    | cons d ds => simp [h rfl d rfl]
  | cons c cs ih =>
    by_cases hc : p c = true
    · simpa [hc] using ih (by simpa [hc] using h)
    · simp [hc]

theorem not_isWordChar_of_runsInto {c : Char} {cs ds : List Char} (hc : isWordChar c = true)
    (hall : cs.all isWordChar = true)
    (h : ∀ a ∈ (c :: cs).getLast?, ∀ b ∈ ds.head?, runsInto a b = false) :
    ∀ b ∈ ds.head?, isWordChar b = false := by
  intro b hb
  have hmem : (c :: cs).getLast (by simp) ∈ c :: cs := List.getLast_mem _
  have hlast : isWordChar ((c :: cs).getLast (by simp)) = true := by
    obtain he | hcs := List.mem_cons.1 hmem
    · rw [he]; exact hc
    · exact List.all_eq_true.1 hall _ hcs
  have hj := h _ (List.getLast?_eq_some_getLast (by simp)) b hb
  simp only [runsInto, hlast, Bool.true_and, Bool.or_eq_false_iff] at hj
  exact hj.1

theorem Lexeme.read_word {c : Char} (hw : isWordStart c = true) (cs : List Char) :
    read c cs = ⟨.ofWord (String.ofList (c :: cs.takeWhile isWordChar)),
      c :: cs.takeWhile isWordChar, cs.dropWhile isWordChar⟩ := by
  unfold read
  rw [if_pos hw]

theorem Lexeme.read_number {c : Char} (hw : ¬ isWordStart c = true) (hd : c.isDigit = true)
    (cs : List Char) :
    read c cs = ⟨.int, c :: cs.takeWhile Char.isDigit, cs.dropWhile Char.isDigit⟩ := by
  unfold read
  rw [if_neg hw, if_pos hd]

theorem Lexeme.read_symbol {c : Char} (hw : ¬ isWordStart c = true) (hd : ¬ c.isDigit = true)
    (cs : List Char) (h : ∀ b ∈ cs.head?, ¬ ((c = '=' ∨ c = '!') ∧ b = '=')) :
    read c cs = ⟨.ofPunctuation c, [c], cs⟩ := by
  rw [read, if_neg hw, if_neg hd]
  · rintro rest rfl rfl
    exact h '=' rfl ⟨.inl rfl, rfl⟩
  · rintro rest rfl rfl
    exact h '=' rfl ⟨.inr rfl, rfl⟩

theorem Lexeme.read_pair {c : Char} (hc : c = '=' ∨ c = '!') (cs : List Char) :
    read c ('=' :: cs) = ⟨if c = '=' then .equals else .notEquals, [c, '='], cs⟩ := by
  obtain rfl | rfl := hc <;> rfl

/-- A lexeme is read the same way before any text that its last character does not run into. -/
theorem Lexeme.read_append {c : Char} {cs ds : List Char}
    (h : ∀ a ∈ (c :: cs).getLast?, ∀ b ∈ ds.head?, runsInto a b = false) :
    read c (cs ++ ds) = { read c cs with rest := (read c cs).rest ++ ds } := by
  by_cases hw : isWordStart c = true
  · obtain ⟨ht, hd⟩ := takeWhile_append_of_not isWordChar cs ds
      fun hall => not_isWordChar_of_runsInto (isWordChar_of_isWordStart hw) hall h
    rw [read_word hw, read_word hw, ht, hd]
  · by_cases hdig : c.isDigit = true
    · obtain ⟨ht, hd⟩ := takeWhile_append_of_not Char.isDigit cs ds (by
        intro hall b hb
        have hwords : cs.all isWordChar = true := by
          rw [List.all_eq_true] at hall ⊢
          exact fun x hx => isWordChar_of_isDigit (hall x hx)
        have hb' := not_isWordChar_of_runsInto (isWordChar_of_isDigit hdig) hwords h b hb
        exact Bool.eq_false_iff.2 fun hd => by simp [isWordChar_of_isDigit hd] at hb')
      rw [read_number hw hdig, read_number hw hdig, ht, hd]
    · by_cases hp : (c = '=' ∨ c = '!') ∧ cs.head? = some '='
      · obtain ⟨hc, hcs⟩ := hp
        obtain ⟨cs, rfl⟩ := List.head?_eq_some_iff.1 hcs
        rw [List.cons_append, read_pair hc, read_pair hc]
      · have hs := read_symbol hw hdig cs fun b hb he => hp ⟨he.1, by rw [hb, he.2]⟩
        rw [hs]
        refine read_symbol hw hdig _ fun b hb he => ?_
        cases cs with
        | nil =>
          have hj := h c rfl b hb
          simp only [runsInto, he.2, Bool.or_eq_false_iff, decide_true, Bool.and_true,
            decide_eq_false_iff_not] at hj
          exact he.1.elim hj.2.1 hj.2.2
        | cons d cs => exact hp ⟨he.1, by simpa [he.2] using hb⟩

/-- A text that is cut where no character runs into the next one has the tokens of both parts. -/
theorem scan_append (file : String) (offset : Nat) (cs ds : List Char)
    (h : ∀ a ∈ cs.getLast?, ∀ b ∈ ds.head?, runsInto a b = false) :
    scan file offset (cs ++ ds) = scan file offset cs ++ scan file (offset + byteSize cs) ds := by
  fun_induction scan file offset cs with
  | case1 offset => simp
  | case2 offset c cs hb ih =>
    rw [List.cons_append, scan, if_pos hb, byteSize_cons, ← Nat.add_assoc]
    refine ih fun a ha => h a ?_
    rw [Option.mem_def] at ha
    simp [List.getLast?_cons, ha]
  | case3 offset c cs hb x size ih =>
    have htext : x.text ++ x.rest = c :: cs := Lexeme.text_append_rest c cs
    have hlast : ∀ a ∈ x.rest.getLast?, a ∈ (c :: cs).getLast? := by
      intro a ha
      rw [Option.mem_def] at ha
      simp [← htext, List.getLast?_append, ha]
    have hread : Lexeme.read c (cs ++ ds) = { x with rest := x.rest ++ ds } :=
      Lexeme.read_append h
    have hsize : offset + byteSize (c :: cs) = offset + size + byteSize x.rest := by
      rw [← htext, byteSize_append, Nat.add_assoc]
    rw [List.cons_append, scan, if_neg hb, hread, hsize]
    simp only [List.cons_append, ih fun a ha => h a (hlast a ha), size]

theorem mem_of_lookup {α β : Type} [BEq α] [LawfulBEq α] {l : List (α × β)} {a : α} {b : β}
    (h : l.lookup a = some b) : (a, b) ∈ l := by
  obtain ⟨front, back, rfl, -⟩ := List.lookup_eq_some_iff.1 h
  simp

namespace TokenKind

theorem fixedText_ofReserved? {word : String} {k : TokenKind} (h : ofReserved? word = some k) :
    k.fixedText = some word := by
  have hall : ∀ p ∈ reservedWords, p.2.fixedText = some p.1 := by decide
  exact hall _ (mem_of_lookup h)

theorem mem_punctuation_iff {c : Char} {k : TokenKind} :
    (c, k) ∈ punctuation ↔ k.fixedText = some (String.ofList [c]) := by
  constructor
  · have hall : ∀ p ∈ punctuation, p.2.fixedText = some (String.ofList [p.1]) := by decide
    exact hall (c, k)
  · intro h
    have htext : k.fixedText.map String.toList = some [c] := by
      rw [h, Option.map_some, String.toList_ofList]
    cases k <;> cases htext <;> decide

theorem fixedText_ofPunctuation {c : Char} (h : ofPunctuation c ≠ .illegal) :
    (ofPunctuation c).fixedText = some (String.ofList [c]) := by
  unfold ofPunctuation at h ⊢
  cases hl : punctuation.lookup c with
  | none => simp [hl] at h
  | some k => exact mem_punctuation_iff.1 (mem_of_lookup hl)

theorem read_fixedText {k : TokenKind} {text : String} (h : k.fixedText = some text) :
    ∃ c cs, text.toList = c :: cs ∧ isBlank c = false ∧ Lexeme.read c cs = ⟨k, c :: cs, []⟩ := by
  cases k <;> simp only [fixedText, reduceCtorEq, Option.some.injEq] at h <;> subst h <;>
    exact ⟨_, _, rfl, rfl, by decide⟩

end TokenKind

theorem isProper_of_fixedText {t : Token} (h : t.kind.fixedText = some t.text) :
    t.isProper = true := by
  unfold Token.isProper
  split
  · next hk => simp [hk, TokenKind.fixedText] at h
  · next hk => simp [hk, TokenKind.fixedText] at h
  · simp [h]

theorem isProper_read {c : Char} (cs : List Char) (span : Span)
    (h : (Lexeme.read c cs).kind ≠ .illegal) :
    Token.isProper ⟨(Lexeme.read c cs).kind, String.ofList (Lexeme.read c cs).text, span⟩ = true := by
  by_cases hw : isWordStart c = true
  · rw [Lexeme.read_word hw]
    simp only [TokenKind.ofWord]
    cases hr : TokenKind.ofReserved? (String.ofList (c :: cs.takeWhile isWordChar)) with
    | none =>
      change isName _ = true
      simpa [isName, hw] using hr
    | some k => exact isProper_of_fixedText (TokenKind.fixedText_ofReserved? hr)
  · by_cases hd : c.isDigit = true
    · rw [Lexeme.read_number hw hd]
      change isNumber _ = true
      simp [isNumber, hd]
    · by_cases hp : (c = '=' ∨ c = '!') ∧ cs.head? = some '='
      · obtain ⟨hc, hcs⟩ := hp
        obtain ⟨cs, rfl⟩ := List.head?_eq_some_iff.1 hcs
        rw [Lexeme.read_pair hc]
        apply isProper_of_fixedText
        obtain rfl | rfl := hc <;> rfl
      · rw [Lexeme.read_symbol hw hd _ fun b hb he => hp ⟨he.1, by rw [hb, he.2]⟩] at h ⊢
        exact isProper_of_fixedText (TokenKind.fixedText_ofPunctuation h)

theorem isProper_of_mem_scan {file : String} {offset : Nat} {cs : List Char} {t : Token}
    (ht : t ∈ scan file offset cs) (hk : t.kind ≠ .illegal) : t.isProper = true := by
  fun_induction scan file offset cs with
  | case1 offset => simp at ht
  | case2 offset c cs hb ih => exact ih ht
  | case3 offset c cs hb x size ih =>
    obtain rfl | ht := List.mem_cons.1 ht
    · exact isProper_read cs _ hk
    · exact ih ht

theorem kind_ne_eof_of_mem_scan {file : String} {offset : Nat} {cs : List Char} {t : Token}
    (ht : t ∈ scan file offset cs) : t.kind ≠ .eof := by
  intro hk
  have hp := isProper_of_mem_scan ht (by simp [hk])
  simp [Token.isProper, hk, TokenKind.fixedText] at hp

theorem isBlank_eq_false {c : Char} (h : isWordChar c = true) : isBlank c = false := by
  cases hb : isBlank c with
  | false => rfl
  | true =>
    simp only [isBlank, Char.isWhitespace, Bool.or_eq_true, decide_eq_true_eq] at hb
    obtain ((rfl | rfl) | rfl) | rfl := hb <;> revert h <;> decide

theorem le_toNat_of_isAlpha {c : Char} (h : c.isAlpha = true) : 'A'.toNat ≤ c.toNat := by
  obtain hu | hl := Bool.or_eq_true_iff.1 h
  · have hle : 'A'.val ≤ c.val := (of_decide_eq_true hu).1
    exact UInt32.le_iff_toNat_le.1 hle
  · have hle : 'a'.val ≤ c.val := of_decide_eq_true (Bool.and_eq_true_iff.1 hl).1
    exact Nat.le_trans (by decide) (UInt32.le_iff_toNat_le.1 hle)

theorem not_isWordStart_of_isDigit {c : Char} (h : c.isDigit = true) : ¬ isWordStart c = true := by
  have hle : c.toNat ≤ '9'.toNat := (Char.isDigit_iff_toNat.1 h).2
  rw [isWordStart, Bool.or_eq_true, decide_eq_true_eq]
  rintro (ha | rfl)
  · exact absurd (Nat.le_trans (le_toNat_of_isAlpha ha) hle) (by decide)
  · exact absurd hle (by decide)

theorem read_of_isProper {t : Token} (h : t.isProper = true) :
    ∃ c cs, t.text.toList = c :: cs ∧ isBlank c = false ∧
      Lexeme.read c cs = ⟨t.kind, c :: cs, []⟩ := by
  unfold Token.isProper at h
  split at h
  · next hk =>
    unfold isName at h
    split at h
    · cases h
    · next c cs htext =>
      simp only [Bool.and_eq_true] at h
      obtain ⟨⟨hc, hcs⟩, hr⟩ := h
      have hall : ∀ x ∈ cs, isWordChar x = true := List.all_eq_true.1 hcs
      have hname : TokenKind.ofWord t.text = .identifier := by
        rw [TokenKind.ofWord, Option.isNone_iff_eq_none.1 hr, Option.getD_none]
      refine ⟨c, cs, htext, isBlank_eq_false (isWordChar_of_isWordStart hc), ?_⟩
      rw [Lexeme.read_word hc, List.takeWhile_eq_self_iff.2 hall,
        List.dropWhile_eq_nil_iff.2 hall, ← htext, String.ofList_toList, hname, hk]
  · next hk =>
    simp only [isNumber, Bool.and_eq_true, decide_eq_true_eq] at h
    obtain ⟨hne, hall⟩ := h
    obtain ⟨c, cs, htext⟩ := List.exists_cons_of_ne_nil hne
    rw [htext, List.all_cons, Bool.and_eq_true] at hall
    obtain ⟨hc, hcs⟩ := hall
    have hall : ∀ x ∈ cs, x.isDigit = true := List.all_eq_true.1 hcs
    refine ⟨c, cs, htext, isBlank_eq_false (isWordChar_of_isDigit hc), ?_⟩
    rw [Lexeme.read_number (not_isWordStart_of_isDigit hc) hc,
      List.takeWhile_eq_self_iff.2 hall, List.dropWhile_eq_nil_iff.2 hall, hk]
  · exact TokenKind.read_fixedText (by simpa using h)

theorem scan_of_isProper {t : Token} (h : t.isProper = true) (file : String) (offset : Nat) :
    scan file offset t.text.toList =
      [⟨t.kind, t.text, .cover file offset (byteSize t.text.toList)⟩] := by
  obtain ⟨c, cs, htext, hb, hr⟩ := read_of_isProper h
  rw [htext, scan, if_neg (by simp [hb]), hr]
  simp only [← htext, String.ofList_toList, scan]

theorem map_bare_scan (file : String) (offset : Nat) (cs : List Char) :
    (scan file offset cs).map Token.bare = (scan "" 0 cs).map Token.bare := by
  have h (offset' : Nat) :
      (scan file offset cs).map Token.bare = (scan "" offset' cs).map Token.bare := by
    fun_induction scan file offset cs generalizing offset' with
    | case1 offset => simp [scan]
    | case2 offset c cs hb ih => rw [scan, if_pos hb, ih]
    | case3 offset c cs hb x size ih =>
      rw [scan, if_neg hb, List.map_cons, List.map_cons, ih]
      rfl
  exact h 0

/-- The tokens of a text, wherever it stands. -/
def spelled (text : String) : List Token := (scan "" 0 text.toList).map Token.bare

def Apart (a b : String) : Prop :=
  ∀ x ∈ a.toList.getLast?, ∀ y ∈ b.toList.head?, runsInto x y = false

theorem spelled_append {a b : String} (h : Apart a b) :
    spelled (a ++ b) = spelled a ++ spelled b := by
  simp only [spelled]
  rw [String.toList_append, scan_append _ _ _ _ h, List.map_append, map_bare_scan _ (0 + _)]

theorem spelled_of_isProper {t : Token} (h : t.isProper = true) : spelled t.text = [t.bare] := by
  rw [spelled, scan_of_isProper h]
  rfl

end FrontEnd
