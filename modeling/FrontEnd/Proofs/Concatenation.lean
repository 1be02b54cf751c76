import FrontEnd.Proofs.Lossless
import FrontEnd.Proofs.Shift

namespace FrontEnd

open Text

theorem shift_eof (file : String) (n size : Nat) :
    (Token.eof (.cover file size 0)).shift n = .eof (.cover file (n + size) 0) := by
  rw [cover_add]
  rfl

theorem map_shift_tokenize (source : String) (file : Option String) (n : Nat) :
    (tokenize source file).map (Token.shift n) =
      scan (file.getD defaultFile) n source.toList ++
        [.eof (.cover (file.getD defaultFile) (n + byteSize source.toList) 0)] := by
  rw [tokenize, List.map_append, ← scan_add, Nat.add_zero, List.map_singleton, shift_eof]

namespace Lexer

variable {l : Lexer} {ts us : List Token}

theorem ReadsAll.unique (h : l.ReadsAll ts) (h' : l.ReadsAll us) : ts = us := by
  induction h generalizing us with
  | stop next kind =>
    cases h' with
    | stop next' => cases next.symm.trans next'; rfl
    | token next' kind' => cases next.symm.trans next'; exact absurd kind kind'
  | token next kind rest ih =>
    cases h' with
    | stop next' kind' => cases next.symm.trans next'; exact absurd kind' kind
    | token next' kind' rest' =>
      cases next.symm.trans next'
      rw [ih rest']

theorem remainder?_skip (front back : String) (file : Option String) {k : UInt64}
    (hk : front.utf8ByteSize = k.toNat) :
    ((ofSource (front ++ back) file).skip k.toNat).position = k.toNat ∧
      ((ofSource (front ++ back) file).skip k.toNat).remainder? = some back.toList := by
  have hposition : ((ofSource (front ++ back) file).skip k.toNat).position = k.toNat := by
    simp only [skip, ofSource, Nat.zero_add]
    exact Nat.mod_eq_of_lt k.toNat_lt
  refine ⟨hposition, dropBytes?_eq_some_iff.2 ⟨front.toList, String.toList_append, ?_⟩⟩
  rw [hposition, byteSize_toList, hk]

theorem readsAll_skip (front back : String) (file : Option String) {k : UInt64}
    (hk : front.utf8ByteSize = k.toNat) :
    ((ofSource (front ++ back) file).skip k.toNat).ReadsAll
      ((tokenize back file).map (Token.shift k.toNat)) := by
  obtain ⟨hposition, hrest⟩ := remainder?_skip front back file hk
  have hy := readsAll_of_remainder? hrest
  rw [hposition] at hy
  rw [map_shift_tokenize]
  exact hy

end Lexer

theorem runsInto_blank {c : Char} (h : c ∈ blanks) (d : Char) :
    runsInto c d = false ∧ runsInto d c = false := by
  have hall : isWordChar c = false ∧ c ≠ '=' ∧ c ≠ '!' := by
    simp only [blanks, List.mem_cons, List.not_mem_nil, or_false] at h
    obtain rfl | rfl | rfl | rfl := h <;> decide
  obtain ⟨hw, heq, hnot⟩ := hall
  simp [runsInto, hw, heq, hnot]

/-- The first text is empty, or a blank stands where the two meet. -/
def BlankBetween (a b : String) : Prop :=
  a = "" ∨ (∃ c ∈ a.toList.getLast?, c ∈ blanks) ∨ ∃ c ∈ b.toList.head?, c ∈ blanks

theorem BlankBetween.apart {a b : String} (h : BlankBetween a b) : Apart a b := by
  intro x hx y hy
  obtain rfl | ⟨c, hc, hblank⟩ | ⟨c, hc, hblank⟩ := h
  · simp at hx
  · obtain rfl : c = x := Option.some.inj (hc.symm.trans hx)
    exact (runsInto_blank hblank y).1
  · obtain rfl : c = y := Option.some.inj (hc.symm.trans hy)
    exact (runsInto_blank hblank x).2

theorem tokenize_append_of_apart {a b : String} (h : Apart a b) (file : Option String) :
    tokenize (a ++ b) file =
      (tokenize a file).dropLast ++ (tokenize b file).map (Token.shift a.utf8ByteSize) := by
  have hsource : (a ++ b).toList = a.toList ++ b.toList := String.toList_append
  rw [map_shift_tokenize, ← byteSize_toList, tokenize, tokenize, List.dropLast_concat, hsource,
    scan_append _ _ _ _ h, byteSize_append, Nat.zero_add, List.append_assoc]

/-- From a boundary of its source on, a lexer gives the tokens of the text behind the boundary, so
many bytes later. Two texts with a blank between them have the tokens of the first and, later by its
size, those of the second. -/
theorem tokens_of_parts :
    (∀ (front back : String) (file : Option String) (k : UInt64), front.utf8ByteSize = k.toNat →
      ∀ ts, ((Lexer.ofSource (front ++ back) file).skip k.toNat).ReadsAll ts ↔
        ts = (tokenize back file).map (Token.shift k.toNat)) ∧
    ∀ (a b : String) (file : Option String), BlankBetween a b →
      tokenize (a ++ b) file =
        (tokenize a file).dropLast ++ (tokenize b file).map (Token.shift a.utf8ByteSize) := by
  refine ⟨fun front back file k hk ts => ⟨fun h => ?_, ?_⟩, fun a b file h => ?_⟩
  · exact h.unique (Lexer.readsAll_skip front back file hk)
  · rintro rfl
    exact Lexer.readsAll_skip front back file hk
  · exact tokenize_append_of_apart h.apart file

theorem tokens_of_parts_cut :
    ("é!".utf8ByteSize = UInt64.toNat 3 ∧
      ((Lexer.ofSource "é!=12" none).skip 3).ReadsAll
        [⟨.assignment, "=", ⟨3, 4, "shell"⟩⟩, ⟨.int, "12", ⟨4, 6, "shell"⟩⟩,
          ⟨.eof, "", ⟨6, 6, "shell"⟩⟩]) ∧
    BlankBetween "é=" "\t=" ∧
      tokenize ("é=" ++ "\t=") none =
        [⟨.illegal, "é", ⟨0, 2, "shell"⟩⟩, ⟨.assignment, "=", ⟨2, 3, "shell"⟩⟩,
          ⟨.assignment, "=", ⟨4, 5, "shell"⟩⟩, ⟨.eof, "", ⟨5, 5, "shell"⟩⟩] := by
  have hk : "é!".utf8ByteSize = UInt64.toNat 3 := by decide
  have hblank : BlankBetween "é=" "\t=" := .inr (.inr ⟨'\t', rfl, by decide⟩)
  refine ⟨⟨hk, ?_⟩, hblank, ?_⟩
  · exact (tokens_of_parts.1 "é!" "=12" none 3 hk _).2 (by decide +kernel)
  · rw [tokens_of_parts.2 "é=" "\t=" none hblank]
    decide +kernel

end FrontEnd
