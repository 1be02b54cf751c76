import FrontEnd.Proofs.Earliest
import FrontEnd.Proofs.Lossless
import FrontEnd.Proofs.Told

namespace FrontEnd

open Text

theorem file_of_mem_tokenize {source : String} {file : Option String} {t : Token}
    (ht : t ∈ tokenize source file) : t.position.file = file.getD defaultFile := by
  obtain ht | ht := List.mem_append.1 ht
  · obtain ⟨front, back, -, hspan⟩ := exists_of_mem_scan ht
    rw [Token.position, hspan]
    rfl
  · obtain rfl := List.mem_singleton.1 ht
    rfl

theorem told_of_parse (source : String) (file : Option String) :
    ∃ input stop ts, tokenize source file = input ++ [.eof stop] ∧
      Told input stop (parse source file).2 ts := by
  let s := State.ofSource source file
  let stmt := Parse.statement (Parse.expression .standard maxNesting)
  have hs : s.UpToCurrent s.rest := .nothing
  have h : (Parse.statements stmt s).2.UpToCurrent s.rest :=
    Parse.statements_tell (fun _ => Parse.statement_tells (Parse.expression_tells _ _)) hs
  rw [State.UpToCurrent, (Parse.advances_statements stmt s).ending] at h
  exact ⟨s.rest, s.ending, _, rfl, h⟩

/-- Every error stands at a token of the source, the end token perhaps, and no error stands before
an earlier one. -/
theorem diagnostics_in_order (source : String) (file : Option String)
    (hsize : byteSize source.toList < UInt32.size) :
    (∀ e ∈ (parse source file).2, e.position.file = file.getD defaultFile ∧
      ∃ t ∈ tokenize source file, e.position = t.position) ∧
    (parse source file).2.Pairwise fun e e' => e.position.offset ≤ e'.position.offset := by
  obtain ⟨input, stop, ts, htokens, htold⟩ := told_of_parse source file
  constructor
  · intro e he
    obtain ⟨t, ht, habout⟩ := htold.exists_about e he
    rw [← htokens] at ht
    exact ⟨by rw [habout.position, file_of_mem_tokenize ht], t, ht, habout.position⟩
  · have hinput := tokenize_increasing file hsize
    rw [htokens] at hinput
    exact (htold.ordered hinput).1

/-- The parenthesis is missing behind a brace that has ended a block already. That brace ends the
block around it too, and what stands behind it is refused once more. -/
theorem diagnostics_in_order_brace :
    let source := "fn() \x7b (fn() \x7b x \x7d = ) \x7d"
    byteSize source.toList < UInt32.size ∧
      (parse source none).2.map (·.position) = [⟨19, "shell"⟩, ⟨19, "shell"⟩, ⟨21, "shell"⟩,
        ⟨23, "shell"⟩] ∧
        (∀ e ∈ (parse source none).2, e.position.file = defaultFile ∧
          ∃ t ∈ tokenize source none, e.position = t.position) ∧
        (parse source none).2.Pairwise fun e e' => e.position.offset ≤ e'.position.offset := by
  intro source
  have hsize : byteSize source.toList < UInt32.size := by decide +kernel
  have hpos : (parse source none).2.map (·.position) = [⟨19, "shell"⟩, ⟨19, "shell"⟩,
      ⟨21, "shell"⟩, ⟨23, "shell"⟩] := by decide +kernel
  exact ⟨hsize, hpos, diagnostics_in_order source none hsize⟩

/-- Every error is right about the token it stands at, and no number that an integer can hold is
refused. -/
theorem diagnostics_truthful (source : String) (file : Option String)
    (hsize : byteSize source.toList < UInt32.size) :
    (∀ e ∈ (parse source file).2, ∃ t ∈ tokenize source file,
      e.position = t.position ∧ e.cause.Holds t) ∧
    ∀ t ∈ tokenize source file, t.kind = .int → decimal t.text.toList ≤ 2 ^ 63 - 1 →
      ∀ e ∈ (parse source file).2, e.position = t.position →
        ∀ text, e.cause ≠ .badInteger text := by
  obtain ⟨input, stop, ts, htokens, htold⟩ := told_of_parse source file
  have hall : ∀ e ∈ (parse source file).2, ∃ t ∈ tokenize source file, e.About t := by
    rw [htokens]
    exact htold.exists_about
  refine ⟨fun e he => ?_, fun t ht hk hle e he hpos text hcause => ?_⟩
  · obtain ⟨t, ht, habout⟩ := hall e he
    exact ⟨t, ht, habout.position, habout.cause⟩
  · obtain ⟨u, hu, habout⟩ := hall e he
    obtain ⟨i, hi⟩ := List.getElem?_of_mem ht
    obtain ⟨j, hj⟩ := List.getElem?_of_mem hu
    have hij : i = j := index_eq_of_position hsize hi hj (hpos.symm.trans habout.position)
    subst hij
    obtain rfl : t = u := Option.some.inj (hi.symm.trans hj)
    have hholds := habout.cause
    rw [hcause] at hholds
    obtain ⟨-, rfl, hlt⟩ := hholds
    exact Nat.not_le.2 hlt hle

/-- The first number is the least that is too great, the second one the greatest that is not. -/
theorem diagnostics_truthful_numbers :
    let source := "f(0009223372036854775808) # 0009223372036854775807 let = )"
    byteSize source.toList < UInt32.size ∧
      (parse source none).2.map (·.cause) = [.badInteger "0009223372036854775808",
        .noOperand .closeParen, .unrecognised "#", .unexpected .identifier .assignment,
        .noOperand .assignment, .noOperand .closeParen] ∧
        (∀ e ∈ (parse source none).2, ∃ t ∈ tokenize source none,
          e.position = t.position ∧ e.cause.Holds t) ∧
        ∀ t ∈ tokenize source none, t.kind = .int → decimal t.text.toList ≤ 2 ^ 63 - 1 →
          ∀ e ∈ (parse source none).2, e.position = t.position →
            ∀ text, e.cause ≠ .badInteger text := by
  intro source
  have hsize : byteSize source.toList < UInt32.size := by decide +kernel
  have hcauses : (parse source none).2.map (·.cause) = [.badInteger "0009223372036854775808",
      .noOperand .closeParen, .unrecognised "#", .unexpected .identifier .assignment,
      .noOperand .assignment, .noOperand .closeParen] := by decide +kernel
  exact ⟨hsize, hcauses, diagnostics_truthful source none hsize⟩

end FrontEnd
