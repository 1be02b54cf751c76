import FrontEnd.Diagnostic.Report
import FrontEnd.Proofs.Places
import FrontEnd.Proofs.Scanning

namespace FrontEnd

namespace Text

variable {cs ds : List Char}

theorem trimEnd_append_of_white (h : ∀ c ∈ ds, isWhiteSpace c = true) :
    trimEnd (cs ++ ds) = trimEnd cs := by
  have hrev : ∀ c ∈ ds.reverse, isWhiteSpace c = true := fun c hc => h c (List.mem_reverse.1 hc)
  rw [trimEnd, List.reverse_append, List.dropWhile_append_of_pos hrev, trimEnd]

theorem trimEnd_append (h : ∃ d ∈ ds, ¬ isWhiteSpace d = true) :
    trimEnd (cs ++ ds) = cs ++ trimEnd ds := by
  have hne : ds.reverse.dropWhile isWhiteSpace ≠ [] := by
    obtain ⟨d, hd, hnot⟩ := h
    intro hnil
    exact hnot (List.dropWhile_eq_nil_iff.1 hnil d (List.mem_reverse.2 hd))
  rw [trimEnd, List.reverse_append, List.dropWhile_append, if_neg (by simpa using hne),
    List.reverse_append, List.reverse_reverse, trimEnd]

theorem trimEnd_eq_nil (h : ∀ c ∈ cs, isWhiteSpace c = true) : trimEnd cs = [] :=
  List.rdropWhile_eq_nil_iff.2 h

theorem trimEnd_begins (cs : List Char) : trimEnd cs <+: cs :=
  List.rdropWhile_prefix isWhiteSpace cs

theorem head?_eq_of_begins (h : cs <+: ds) (hne : cs ≠ []) : cs.head? = ds.head? := by
  obtain ⟨rest, rfl⟩ := h
  exact (List.head?_append_of_ne_nil _ hne).symm

theorem head?_trimEnd (h : ∃ d ∈ ds, ¬ isWhiteSpace d = true) :
    (trimEnd ds).head? = ds.head? := by
  obtain ⟨d, hd, hnot⟩ := h
  exact head?_eq_of_begins (trimEnd_begins ds)
    fun hnil => hnot (List.rdropWhile_eq_nil_iff.1 hnil d hd)

theorem column_append (number : Nat) (head rest : List Char) :
    Place.column ⟨number, head ++ rest, byteSize head⟩ = head.length := by
  have hdrop : dropBytes? (byteSize head) (head ++ rest) = some rest :=
    dropBytes?_eq_some_iff.2 ⟨head, rfl, rfl⟩
  simp [Place.column, hdrop]

end Text

open Text

namespace Report

variable {cs head tail stop : List Char}

theorem length_sub_takeWhile (p : Char → Bool) (head rest : List Char) :
    head.length - ((head ++ rest).takeWhile p).length = (head.dropWhile p).length := by
  induction head with
  | nil => simp
  | cons c cs ih =>
    by_cases hc : p c = true
    · simpa [hc] using ih
    · simp [hc]

theorem caretWidth_append (number : Nat) (head rest : List Char) :
    caretWidth ⟨number, head ++ rest, byteSize head⟩ = (head.dropWhile isIndent).length + 1 := by
  rw [caretWidth, column_append, length_sub_takeWhile]

theorem exists_shownLine (cs : List Char) :
    ∃ indent trail, cs = indent ++ (shownLine cs ++ trail) ∧
      (∀ c ∈ indent, c = ' ' ∨ c = '\t') ∧ ∀ c ∈ trail, isWhiteSpace c = true := by
  refine ⟨cs.takeWhile isIndent, (cs.dropWhile isIndent).rtakeWhile isWhiteSpace, ?_, ?_, ?_⟩
  · have hshown : shownLine cs = (cs.dropWhile isIndent).rdropWhile isWhiteSpace := rfl
    rw [hshown, List.rdropWhile_append_rtakeWhile, List.takeWhile_append_dropWhile]
  · intro c hc
    simpa [isIndent] using List.mem_takeWhile_imp hc
  · exact fun c hc => List.mem_rtakeWhile_imp hc

theorem shownLine_append_of_white (h : ∀ c ∈ stop, isWhiteSpace c = true) :
    shownLine (cs ++ stop) = shownLine cs := by
  rw [shownLine, shownLine, List.dropWhile_append]
  split
  · next hnil =>
    have hempty : trimEnd [] = [] := rfl
    rw [List.isEmpty_iff.1 hnil, hempty]
    exact trimEnd_eq_nil fun c hc => h c ((List.dropWhile_sublist _).subset hc)
  · exact trimEnd_append_of_white h

/-- Behind what is shown of the first part of a line stands what is shown of the second one. -/
theorem getElem?_shownLine (h : ∀ c ∈ tail.head?, isIndent c = false) :
    (shownLine (head ++ tail))[(head.dropWhile isIndent).length]? =
      if tail.all isWhiteSpace then none else tail.head? := by
  split
  · next hwhite =>
    have hle := (trimEnd_begins (head.dropWhile isIndent)).length_le
    rw [shownLine_append_of_white (List.all_eq_true.1 hwhite)]
    exact List.getElem?_eq_none hle
  · next hwhite =>
    have hstays : ∃ d ∈ tail, ¬ isWhiteSpace d = true := by simpa using hwhite
    -- a character of the second part stays, so that nothing of the first part is trimmed
    have hdrop := (takeWhile_append_of_not isIndent head tail fun _ => h).2
    rw [shownLine, hdrop, trimEnd_append hstays, List.getElem?_append_right (Nat.le_refl _),
      Nat.sub_self, ← List.head?_eq_getElem?, head?_trimEnd hstays]

def caretMargin (digits width : Nat) : List Char :=
  (gutter digits).toList ++ ' ' :: List.replicate (width - 1) '-'

theorem length_caretMargin (digits width : Nat) :
    (caretMargin digits (width + 1)).length = digits + 3 + width := by
  simp [caretMargin, gutter]
  omega

theorem not_mem_caretMargin (digits width : Nat) :
    '\n' ∉ caretMargin digits width ∧ '^' ∉ caretMargin digits width := by
  simp [caretMargin, gutter]

theorem lineFeed_not_mem_number (n : Nat) : '\n' ∉ (toString n).toList := by
  intro h
  rw [Nat.toString_eq_repr, Nat.toList_repr] at h
  exact absurd (Nat.isDigit_of_mem_toDigits (by decide) (by decide) h) (by decide)

theorem toList_excerpt (p : Place) :
    (excerpt p).toList = (gutter (toString p.number).length).toList ++
      '\n' :: ((toString p.number ++ " | ").toList ++ shownLine p.line ++
        '\n' :: (caretMargin (toString p.number).length (caretWidth p) ++ ['^'])) := by
  simp [excerpt, caret, caretMargin]

end Report

end FrontEnd
