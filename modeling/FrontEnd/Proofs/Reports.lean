import FrontEnd.Proofs.Concatenation
import FrontEnd.Proofs.Diagnostics
import FrontEnd.Proofs.Excerpt
import FrontEnd.Proofs.Spelling

namespace FrontEnd

open Text

/-- An error stands on a boundary of its source, before a character that is no blank or at the
end. -/
theorem exists_append_of_error {source : String} {file : Option String} {e : SyntaxError}
    (hsize : byteSize source.toList < UInt32.size) (he : e ∈ (parse source file).2) :
    ∃ front rest, source.toList = front ++ rest ∧ byteSize front = e.position.offset.toNat ∧
      ∀ c ∈ rest.head?, c ∉ blanks := by
  obtain ⟨input, stop, ts, htokens, htold⟩ := told_of_parse source file
  obtain ⟨t, ht, habout⟩ := htold.exists_about e he
  rw [← htokens] at ht
  rw [habout.position]
  obtain ht | ht := List.mem_append.1 ht
  · have htiles : Tiles 0 source.toList _ :=
      (tiles_iff_scan (file.getD defaultFile) _ (by rwa [Nat.zero_add])).2 rfl
    obtain ⟨front, text, back, hsource, hstart, -, hmunch⟩ :=
      htiles.munch _ (List.mem_map_of_mem ht)
    obtain ⟨c, text, rfl⟩ := List.exists_cons_of_ne_nil hmunch.text_ne_nil
    refine ⟨front, c :: text ++ back, hsource, ?_, fun d hd => ?_⟩
    · rw [Nat.zero_add] at hstart
      exact hstart.symm
    · obtain rfl : c = d := Option.some.inj hd
      exact hmunch.not_mem_blanks
  · obtain rfl := List.mem_singleton.1 ht
    exact ⟨source.toList, [], (List.append_nil _).symm, (UInt32.toNat_ofNat_of_lt' hsize).symm,
      by simp⟩

theorem lineFeed_not_mem_line (front rest : List Char) :
    '\n' ∉ lineHead front ++ lineTail rest := by
  intro h
  obtain h | h := List.mem_append.1 h
  · exact absurd (List.mem_rtakeWhile_imp h) (by decide)
  · exact absurd (List.mem_takeWhile_imp h) (by decide)

namespace Report

/-- A report that ends with the line `above` and the line of a caret behind `margin`. The line
`above` shows the line in which two parts of a source meet, with its number, and the caret stands
under the first character of the second part, or under nothing if only white space is left there. -/
structure Points (report : String) (front rest above margin : List Char) : Prop where
  lines : ∃ heading, report.toList = heading ++ '\n' :: (above ++ '\n' :: (margin ++ ['^']))
  above_line : '\n' ∉ above
  margin_line : '\n' ∉ margin
  margin_caret : '^' ∉ margin
  shown : ∃ indent shown trail,
    above = (toString (1 + front.count '\n')).toList ++ (" | ".toList ++ shown) ∧
    lineHead front ++ lineTail rest = indent ++ (shown ++ trail) ∧
      (∀ c ∈ indent, c = ' ' ∨ c = '\t') ∧ ∀ c ∈ trail, isWhiteSpace c = true
  under : above[margin.length]? =
    if (lineTail rest).all isWhiteSpace then none else rest.head?

variable {front rest : List Char}

theorem getElem?_caretMargin (number : String) (h : ∀ c ∈ rest.head?, c ∉ blanks) :
    (number.toList ++ (" | ".toList ++ shownLine (lineHead front ++ lineTail rest)))[
        (caretMargin number.length (((lineHead front).dropWhile isIndent).length + 1)).length]? =
      if (lineTail rest).all isWhiteSpace then none else rest.head? := by
  have hlabel : (number.toList ++ " | ".toList).length = number.length + 3 := by
    rw [List.length_append, String.length_toList]
    rfl
  have hindent : ∀ c ∈ (lineTail rest).head?, isIndent c = false := by
    intro c hc
    have hne : lineTail rest ≠ [] := fun hnil => by simp [hnil] at hc
    rw [head?_eq_of_begins (lineTail_begins rest) hne] at hc
    have hblank := h c hc
    simp only [blanks, List.mem_cons, not_or] at hblank
    simp [isIndent, hblank]
  rw [length_caretMargin, ← hlabel, ← List.append_assoc,
    List.getElem?_append_right (Nat.le_add_right _ _), Nat.add_sub_cancel_left,
    getElem?_shownLine hindent]
  split
  · rfl
  · next hwhite =>
    have hne : lineTail rest ≠ [] := fun hnil => hwhite (by simp [hnil])
    exact head?_eq_of_begins (lineTail_begins rest) hne

theorem points_excerpt {p : Place} (heading : String)
    (hplace : locate (front ++ rest) (byteSize front) = some p)
    (hrest : ∀ c ∈ rest.head?, c ∉ blanks) :
    ∃ above margin, Points (heading ++ excerpt p) front rest above margin := by
  obtain ⟨stop, hstop, hp⟩ := exists_locate_append front rest
  cases hp.symm.trans hplace
  have hwhite : ∀ c ∈ stop, isWhiteSpace c = true := by
    obtain rfl | rfl := hstop
    · exact List.forall_mem_nil _
    · exact List.forall_mem_singleton.2 rfl
  let number := toString (1 + front.count '\n')
  let line := lineHead front ++ lineTail rest
  obtain ⟨indent, trail, hline, hindent, htrail⟩ := exists_shownLine line
  have hshown : '\n' ∉ shownLine line := fun h => by
    refine lineFeed_not_mem_line front rest ?_
    change '\n' ∈ line
    rw [hline]
    exact List.mem_append_right _ (List.mem_append_left _ h)
  refine ⟨number.toList ++ (" | ".toList ++ shownLine line),
    caretMargin number.length (((lineHead front).dropWhile isIndent).length + 1),
    ⟨⟨heading.toList ++ (gutter number.length).toList, ?_⟩, ?_, (not_mem_caretMargin _ _).1,
      (not_mem_caretMargin _ _).2, ⟨indent, _, trail, rfl, hline, hindent, htrail⟩,
      getElem?_caretMargin number hrest⟩⟩
  · rw [String.toList_append, toList_excerpt, caretWidth_append,
      ← List.append_assoc (lineHead front), shownLine_append_of_white hwhite,
      String.toList_append]
    simp only [List.append_assoc, number, line]
  · simp only [List.mem_append, not_or]
    exact ⟨lineFeed_not_mem_number _, by decide, hshown⟩

end Report

namespace SyntaxError

variable {source : String} {e : SyntaxError} {front rest : List Char}

theorem report?_of_locate {p : Place}
    (h : locate source.toList e.position.offset.toNat = some p) :
    e.report? source = if Report.caretWidth p ≤ Report.maxWidth then
      some (e.headline ++ "\n-> " ++ e.position.file ++ "\n" ++ Report.excerpt p) else none := by
  rw [report?, h]

/-- A report is made unless too many characters stand between the indentation and the error. -/
theorem exists_report_iff (hsource : source.toList = front ++ rest)
    (hoffset : byteSize front = e.position.offset.toNat) :
    (∃ report, e.report? source = some report) ↔
      ((lineHead front).dropWhile Report.isIndent).length < 65535 := by
  obtain ⟨stop, -, hplace⟩ := exists_locate_append front rest
  rw [← hsource, hoffset] at hplace
  rw [report?_of_locate hplace, Report.caretWidth_append, Report.maxWidth]
  split
  · next hle => exact ⟨fun _ => by omega, fun _ => ⟨_, rfl⟩⟩
  · next hlt => exact ⟨fun ⟨_, h⟩ => (by cases h), fun _ => by omega⟩

end SyntaxError

/-- An error has a place in its source. If the field of its caret is not too wide, it has a report,
whose last two lines show the line of the source and the caret under the character at the error. -/
theorem caret_under_error {source : String} {file : Option String} {e : SyntaxError}
    (hsize : byteSize source.toList < UInt32.size) (he : e ∈ (parse source file).2) :
    ∃ front rest p, source.toList = front ++ rest ∧
      byteSize front = e.position.offset.toNat ∧
        locate source.toList e.position.offset.toNat = some p ∧
          (Report.caretWidth p ≤ Report.maxWidth → ∃ report above margin,
            e.report? source = some report ∧ Report.Points report front rest above margin) := by
  obtain ⟨front, rest, hsource, hoffset, hrest⟩ := exists_append_of_error hsize he
  obtain ⟨stop, -, hplace⟩ := exists_locate_append front rest
  rw [← hsource, hoffset] at hplace
  refine ⟨front, rest, _, hsource, hoffset, hplace, fun hwidth => ?_⟩
  have hreport := SyntaxError.report?_of_locate hplace
  rw [if_pos hwidth] at hreport
  rw [hsource, ← hoffset] at hplace
  obtain ⟨above, margin, hpoints⟩ := Report.points_excerpt _ hplace hrest
  exact ⟨_, above, margin, hreport, hpoints⟩

theorem caret_under_error_indented :
    let source := "a;\n\té let = 1; \n"
    let e : SyntaxError := ⟨.unexpected .identifier .assignment, ⟨11, "shell"⟩⟩
    byteSize source.toList < UInt32.size ∧ e ∈ (parse source none).2 ∧
      e.report? source = some ("Error: UnexpectedToken " ++
        "(expected next token to be Identifier, got Assignment instead)\n" ++
        "-> shell\n  |\n2 | é let = 1;\n  | ------^") ∧
        ∃ front rest report above margin, source.toList = front ++ rest ∧ byteSize front = 11 ∧
          e.report? source = some report ∧ Report.Points report front rest above margin := by
  intro source e
  have hsize : byteSize source.toList < UInt32.size := by decide +kernel
  have he : e ∈ (parse source none).2 := by decide +kernel
  have hlocate : locate source.toList e.position.offset.toNat =
      some ⟨2, "\té let = 1; \n".toList, 8⟩ := by decide +kernel
  obtain ⟨front, rest, p, hsource, hoffset, hplace, hpoints⟩ := caret_under_error hsize he
  cases hlocate.symm.trans hplace
  obtain ⟨report, above, margin, hreport, hpoints⟩ := hpoints (by decide +kernel)
  exact ⟨hsize, he, by decide +kernel, front, rest, report, above, margin, hsource, hoffset,
    hreport, hpoints⟩

/-- Every error of a source has a report, unless 65535 characters or more stand before it in its
line, the indentation not counted. -/
theorem report_iff_narrow {source : String} {file : Option String} {e : SyntaxError}
    (hsize : byteSize source.toList < UInt32.size) (he : e ∈ (parse source file).2) :
    ∃ front rest, source.toList = front ++ rest ∧ byteSize front = e.position.offset.toNat ∧
      ((∃ report, e.report? source = some report) ↔
        ((lineHead front).dropWhile Report.isIndent).length < 65535) := by
  obtain ⟨front, rest, hsource, hoffset, -⟩ := exists_append_of_error hsize he
  exact ⟨front, rest, hsource, hoffset, SyntaxError.exists_report_iff hsource hoffset⟩

theorem report_iff_narrow_end :
    let source := "\t("
    let e : SyntaxError := ⟨.noOperand .eof, ⟨2, "shell"⟩⟩
    byteSize source.toList < UInt32.size ∧ e ∈ (parse source none).2 ∧
      e.report? source = some ("Error: MissingPrefixRule " ++
        "(`EOF` cannot start an expression)\n-> shell\n  |\n1 | (\n  | -^") ∧
        ∃ front rest, source.toList = front ++ rest ∧ byteSize front = 2 ∧
          ((∃ report, e.report? source = some report) ↔
            ((lineHead front).dropWhile Report.isIndent).length < 65535) := by
  intro source e
  have hsize : byteSize source.toList < UInt32.size := by decide +kernel
  have he : e ∈ (parse source none).2 := by decide +kernel
  exact ⟨hsize, he, by decide +kernel, report_iff_narrow hsize he⟩

def gapped (n : Nat) : String := String.ofList ('x' :: (List.replicate n ' ' ++ [')']))

theorem toList_gapped (n : Nat) :
    (gapped n).toList = ('x' :: List.replicate n ' ') ++ [')'] := by
  rw [gapped, String.toList_ofList, List.cons_append]

theorem byteSize_replicate_space (n : Nat) : byteSize (List.replicate n ' ') = n := by
  induction n with
  | zero => rfl
  | succ n ih =>
    rw [List.replicate_succ, byteSize_cons, ih]
    exact Nat.add_comm 1 n

theorem byteSize_gap (n : Nat) : byteSize ('x' :: List.replicate n ' ') = 1 + n := by
  rw [byteSize_cons, byteSize_replicate_space]
  rfl

theorem scan_singleton {c : Char} {kind : TokenKind} (hblank : isBlank c = false)
    (hread : Lexeme.read c [] = ⟨kind, [c], []⟩) (file : String) (offset : Nat) :
    scan file offset [c] = [⟨kind, String.ofList [c], .cover file offset c.utf8Size⟩] := by
  rw [scan, if_neg (by simp [hblank]), hread]
  simp only [scan, byteSize_cons, byteSize_nil, Nat.add_zero]

theorem scan_replicate_space (file : String) (offset n : Nat) :
    scan file offset (List.replicate n ' ') = [] := by
  have hblanks : ∀ c ∈ List.replicate n ' ', isBlank c = true := by
    intro c hc
    rw [List.eq_of_mem_replicate hc]
    rfl
  rw [scan_skip_blanks, List.dropWhile_eq_nil_iff.2 hblanks, scan]

theorem scan_gapped (file : String) (n : Nat) :
    scan file 0 (gapped n).toList =
      [⟨.identifier, "x", .cover file 0 1⟩, ⟨.closeParen, ")", .cover file (1 + n) 1⟩] := by
  have hword : scan file 0 ['x'] = [⟨.identifier, "x", .cover file 0 1⟩] :=
    scan_singleton rfl (by decide) file 0
  have hparen : scan file (1 + n) [')'] = [⟨.closeParen, ")", .cover file (1 + n) 1⟩] :=
    scan_singleton rfl (by decide) file (1 + n)
  have hgap : scan file 0 (['x'] ++ List.replicate n ' ') =
      [⟨.identifier, "x", .cover file 0 1⟩] := by
    rw [scan_append, hword, scan_replicate_space, List.append_nil]
    intro c _ d hd
    have hspace : d = ' ' := List.eq_of_mem_replicate (List.mem_of_mem_head? hd)
    exact (runsInto_blank (by simp [hspace, blanks]) c).2
  rw [toList_gapped, scan_append, byteSize_gap, Nat.zero_add, hparen]
  · exact congrArg (· ++ _) hgap
  · intro c _ d hd
    obtain rfl : ')' = d := Option.some.inj hd
    exact runsInto_detached_right (by decide) c

theorem error_of_gapped :
    (⟨.noOperand .closeParen, ⟨65535, "shell"⟩⟩ : SyntaxError) ∈ (parse (gapped 65534) none).2 := by
  -- the source is too long to be evaluated, its two tokens are not
  have hstate : State.ofSource (gapped 65534) none =
      ⟨[⟨.identifier, "x", ⟨0, 1, "shell"⟩⟩, ⟨.closeParen, ")", ⟨65535, 65536, "shell"⟩⟩],
        ⟨65536, 65536, "shell"⟩, []⟩ := by
    rw [State.ofSource, scan_gapped, toList_gapped, byteSize_append, byteSize_gap]
    rfl
  rw [parse, hstate]
  decide +kernel

/-- Not every error has a report. -/
theorem not_exists_report : ¬ ∀ (source : String) (file : Option String),
    byteSize source.toList < UInt32.size → ∀ e ∈ (parse source file).2,
      ∃ report, e.report? source = some report := by
  intro h
  let e : SyntaxError := ⟨.noOperand .closeParen, ⟨65535, "shell"⟩⟩
  let front := 'x' :: List.replicate 65534 ' '
  have hsize : byteSize (gapped 65534).toList < UInt32.size := by
    rw [toList_gapped, byteSize_append, byteSize_gap]
    decide
  have hoffset : byteSize front = e.position.offset.toNat := byteSize_gap 65534
  have hline : lineHead front = front := by
    refine List.rtakeWhile_eq_self_iff.2 fun c hc => ?_
    obtain rfl | hc := List.mem_cons.1 hc
    · rfl
    · rw [List.eq_of_mem_replicate hc]
      rfl
  have hnarrow := (SyntaxError.exists_report_iff (toList_gapped 65534) hoffset).1
    (h _ none hsize e error_of_gapped)
  rw [hline, List.dropWhile_cons_of_neg (by decide), List.length_cons, List.length_replicate]
    at hnarrow
  exact absurd hnarrow (by decide)

end FrontEnd
