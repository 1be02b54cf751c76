import FrontEnd.Text.Search
import Mathlib.Data.List.Basic
import Mathlib.Data.List.DropRight

namespace FrontEnd.Text

variable {before body after cs rest : List Char} {number offset k : Nat}

theorem utf8Size_lineFeed : Char.utf8Size '\n' = 1 := rfl

theorem byteSize_concat_lineFeed (cs : List Char) : byteSize (cs ++ ['\n']) = byteSize cs + 1 := by
  rw [byteSize_append]
  rfl

theorem lines_of_not_mem (h : '\n' ∉ cs) (hne : cs ≠ []) : lines cs = [cs] := by
  induction cs with
  | nil => exact absurd rfl hne
  | cons c cs ih =>
    obtain ⟨hc, hcs⟩ := List.ne_and_not_mem_of_not_mem_cons h
    rw [lines, if_neg (Ne.symm hc)]
    cases cs with
    | nil => rfl
    | cons d ds => rw [ih hcs (List.cons_ne_nil d ds)]

theorem lines_append_lineFeed (h : '\n' ∉ body) :
    lines (body ++ '\n' :: rest) = (body ++ ['\n']) :: lines rest := by
  induction body with
  | nil => rw [List.nil_append, lines, if_pos rfl, List.nil_append]
  | cons c cs ih =>
    obtain ⟨hc, hcs⟩ := List.ne_and_not_mem_of_not_mem_cons h
    rw [List.cons_append, lines, if_neg (Ne.symm hc), ih hcs]
    rfl

/-- What is read of a text line by line is told of a text without a line feed, and of one behind
whose first line it is told already. -/
theorem lineInduction {P : List Char → Prop} (last : ∀ cs, '\n' ∉ cs → P cs)
    (more : ∀ body rest, '\n' ∉ body → P rest → P (body ++ '\n' :: rest)) (cs : List Char) :
    P cs := by
  induction hn : cs.length using Nat.strongRecOn generalizing cs with
  | ind n ih =>
    by_cases h : '\n' ∈ cs
    · obtain ⟨body, rest, rfl, hbody⟩ := List.eq_append_cons_of_mem h
      refine more body rest hbody (ih rest.length ?_ rest rfl)
      rw [← hn, List.length_append, List.length_cons]
      omega
    · exact last cs h

/-- A text around one of its lines: what stands before it ends with a line feed, it has none, and
what stands behind it begins with one. -/
structure AroundLine (before body after cs : List Char) : Prop where
  text : cs = before ++ (body ++ after)
  before : ∀ c ∈ before.getLast?, c = '\n'
  body : '\n' ∉ body
  after : ∀ c ∈ after.head?, c = '\n'

theorem AroundLine.last (h : '\n' ∉ cs) : AroundLine [] cs [] cs :=
  ⟨by simp, by simp, h, by simp⟩

theorem AroundLine.first (h : '\n' ∉ body) :
    AroundLine [] body ('\n' :: rest) (body ++ '\n' :: rest) :=
  ⟨rfl, by simp, h, by simp⟩

theorem AroundLine.behind {front : List Char} (h : AroundLine before body after cs) :
    AroundLine (front ++ '\n' :: before) body after (front ++ '\n' :: cs) := by
  refine ⟨?_, fun c hc => ?_, h.body, h.after⟩
  · rw [h.text, List.append_assoc, List.cons_append]
  · rw [List.getLast?_append, List.getLast?_cons] at hc
    cases hlast : before.getLast? with
    | none => simpa [hlast, eq_comm] using hc
    | some d =>
      obtain rfl : d = c := by simpa [hlast] using hc
      exact h.before d hlast

theorem getLast?_ne_lineFeed (h : '\n' ∉ cs) : cs.getLast? ≠ some '\n' :=
  fun hlast => h (List.mem_of_getLast? hlast)

theorem locateIn_of_not_mem (hcs : '\n' ∉ cs) (h : offset ≤ byteSize cs) :
    locateIn number offset (lines cs) = some ⟨number, cs, offset⟩ := by
  by_cases hne : cs = []
  · subst hne
    obtain rfl : offset = 0 := Nat.le_zero.1 h
    rfl
  · have hin : offset < byteSize cs ∨ offset = byteSize cs ∧ cs.getLast? ≠ some '\n' :=
      (Nat.lt_or_eq_of_le h).imp_right fun he => ⟨he, getLast?_ne_lineFeed hcs⟩
    rw [lines_of_not_mem hcs hne, locateIn, if_pos hin]

theorem locateIn_of_le {ls : List (List Char)} (h : offset ≤ byteSize body) :
    locateIn number offset ((body ++ ['\n']) :: ls) = some ⟨number, body ++ ['\n'], offset⟩ := by
  rw [locateIn, byteSize_concat_lineFeed, if_pos (.inl (Nat.lt_add_one_of_le h))]

theorem locateIn_append_lineFeed {ls : List (List Char)} (h : byteSize body < offset) :
    locateIn number offset ((body ++ ['\n']) :: ls) =
      locateIn (number + 1) (offset - (byteSize body + 1)) ls := by
  rw [locateIn, byteSize_concat_lineFeed, if_neg]
  simp only [List.getLast?_concat, ne_eq, not_true_eq_false, and_false, or_false]
  omega

theorem exists_locateIn (cs : List Char) (number offset : Nat) (h : offset ≤ byteSize cs) :
    ∃ before body after k, AroundLine before body after cs ∧ byteSize before + k = offset ∧
      k ≤ byteSize body ∧ locateIn number offset (lines cs) =
        some ⟨number + before.count '\n', body ++ after.take 1, k⟩ := by
  induction cs using lineInduction generalizing number offset with
  | last cs hcs =>
    refine ⟨[], cs, [], offset, .last hcs, Nat.zero_add _, h, ?_⟩
    rw [locateIn_of_not_mem hcs h, List.take_nil, List.append_nil]
    rfl
  | more body rest hbody ih =>
    rw [lines_append_lineFeed hbody]
    obtain hlt | hle := Nat.lt_or_ge (byteSize body) offset
    · rw [byteSize_append, byteSize_cons, utf8Size_lineFeed] at h
      obtain ⟨before, line, after, k, haround, hoffset, hk, hplace⟩ :=
        ih (number + 1) (offset - (byteSize body + 1)) (by omega)
      refine ⟨body ++ '\n' :: before, line, after, k, haround.behind, ?_, hk, ?_⟩
      · rw [byteSize_append, byteSize_cons, utf8Size_lineFeed]
        omega
      · rw [locateIn_append_lineFeed hlt, hplace, List.count_append, List.count_cons_self,
          List.count_eq_zero.2 hbody]
        congr 2
        omega
    · -- the offset of a line feed is still one of the line that it ends
      refine ⟨[], body, '\n' :: rest, offset, .first hbody, Nat.zero_add _, hle, ?_⟩
      rw [locateIn_of_le hle]
      rfl

theorem locateIn_eq_none {ls : List (List Char)} (h : byteSize ls.flatten < offset) :
    locateIn number offset ls = none := by
  induction ls generalizing number offset with
  | nil =>
    rw [List.flatten_nil, byteSize_nil] at h
    exact if_neg (Nat.ne_of_gt h)
  | cons l ls ih =>
    rw [List.flatten_cons, byteSize_append] at h
    rw [locateIn, if_neg (by omega)]
    exact ih (by omega)

theorem locate_eq_none_iff : locate cs offset = none ↔ byteSize cs < offset := by
  constructor
  · intro h
    by_contra hlt
    obtain ⟨before, body, after, k, -, -, -, hplace⟩ :=
      exists_locateIn cs 1 offset (Nat.le_of_not_lt hlt)
    rw [locate, hplace] at h
    cases h
  · intro h
    rw [← flatten_lines cs] at h
    exact locateIn_eq_none h

def lineHead (front : List Char) : List Char := front.rtakeWhile (· ≠ '\n')

def lineTail (rest : List Char) : List Char := rest.takeWhile (· ≠ '\n')

theorem lineTail_begins (rest : List Char) : lineTail rest <+: rest :=
  List.takeWhile_prefix _

theorem lineHead_append {head : List Char} (hbefore : ∀ c ∈ before.getLast?, c = '\n')
    (hhead : '\n' ∉ head) : lineHead (before ++ head) = head := by
  have hall : ∀ c ∈ head.reverse, decide (c ≠ '\n') = true := by
    intro c hc
    exact decide_eq_true fun he => hhead (he ▸ List.mem_reverse.1 hc)
  have hstop : before.reverse.takeWhile (· ≠ '\n') = [] := by
    cases hrev : before.reverse with
    | nil => rfl
    | cons c cs =>
      have hc : c = '\n' := hbefore c (by rw [← List.head?_reverse, hrev]; rfl)
      exact List.takeWhile_cons_of_neg (by simp [hc])
  rw [lineHead, List.rtakeWhile, List.reverse_append, List.takeWhile_append_of_pos hall, hstop,
    List.append_nil, List.reverse_reverse]

theorem lineTail_append {tail : List Char} (htail : '\n' ∉ tail)
    (hafter : ∀ c ∈ after.head?, c = '\n') : lineTail (tail ++ after) = tail := by
  have hall : ∀ c ∈ tail, decide (c ≠ '\n') = true :=
    fun c hc => decide_eq_true fun he => htail (he ▸ hc)
  have hstop : after.takeWhile (· ≠ '\n') = [] := by
    cases after with
    | nil => rfl
    | cons c cs => exact List.takeWhile_cons_of_neg (by simp [hafter c rfl])
  rw [lineTail, List.takeWhile_append_of_pos hall, hstop, List.append_nil]

theorem exists_locate_append (front rest : List Char) :
    ∃ stop, (stop = [] ∨ stop = ['\n']) ∧ locate (front ++ rest) (byteSize front) =
      some ⟨1 + front.count '\n', lineHead front ++ (lineTail rest ++ stop),
        byteSize (lineHead front)⟩ := by
  have hle : byteSize front ≤ byteSize (front ++ rest) := by
    rw [byteSize_append]
    exact Nat.le_add_right _ _
  obtain ⟨before, body, after, k, haround, hsize, hk, hplace⟩ := exists_locateIn _ 1 _ hle
  obtain ⟨head, rfl, hrest⟩ := exists_of_append_eq haround.text.symm (by omega)
  rw [byteSize_append, Nat.add_left_cancel_iff] at hsize
  subst hsize
  obtain ⟨tail, rfl, rfl⟩ := exists_of_append_eq hrest.symm hk
  have hhead : '\n' ∉ head := fun h => haround.body (List.mem_append_left _ h)
  have htail : '\n' ∉ tail := fun h => haround.body (List.mem_append_right _ h)
  rw [lineHead_append haround.before hhead, lineTail_append htail haround.after, List.count_append,
    List.count_eq_zero.2 hhead, Nat.add_zero]
  refine ⟨after.take 1, ?_, by rw [locate, hplace, List.append_assoc]⟩
  cases after with
  | nil => exact .inl rfl
  | cons c cs =>
    obtain rfl : c = '\n' := haround.after c rfl
    exact .inr rfl

theorem lastPlace_cons (number : Nat) (body : List Char) (ls : List (List Char)) :
    lastPlace number ((body ++ ['\n']) :: ls) = lastPlace number ls := by
  unfold lastPlace
  rw [List.getLast?_cons]
  cases ls.getLast? <;> simp

/-- What the search makes of the lines that were left when it stopped. -/
def searched (offset number start : Nat) (ls : List (List Char)) : Place :=
  match searchLines offset number start ls with
  | .ok p => p
  | .error n => lastPlace n ls

section Searched

variable {start : Nat}

theorem searched_of_not_mem (hcs : '\n' ∉ cs) (hle : start ≤ offset)
    (h : offset ≤ start + byteSize cs) :
    searched offset number start (lines cs) = ⟨number, cs, offset - start⟩ := by
  by_cases hne : cs = []
  · subst hne
    obtain rfl : offset = start := Nat.le_antisymm h hle
    rw [Nat.sub_self]
    rfl
  · rw [lines_of_not_mem hcs hne, searched, searchLines]
    obtain hlt | rfl := Nat.lt_or_eq_of_le h
    · rw [if_pos ⟨hle, hlt⟩]
    · rw [if_neg fun hin => Nat.lt_irrefl _ hin.2, Nat.add_sub_cancel_left]
      simp only [searchLines, lastPlace, List.getLast?_singleton, getLast?_ne_lineFeed hcs,
        if_false, Nat.add_sub_cancel]

theorem searched_of_lt {ls : List (List Char)} (hle : start ≤ offset)
    (h : offset < start + (byteSize body + 1)) :
    searched offset number start ((body ++ ['\n']) :: ls) =
      ⟨number, body ++ ['\n'], offset - start⟩ := by
  rw [searched, searchLines, byteSize_concat_lineFeed, if_pos ⟨hle, h⟩]

theorem searched_append_lineFeed {ls : List (List Char)}
    (h : start + (byteSize body + 1) ≤ offset) :
    searched offset number start ((body ++ ['\n']) :: ls) =
      searched offset (number + 1) (start + (byteSize body + 1)) ls := by
  have hout : ¬ (start ≤ offset ∧ offset < start + (byteSize body + 1)) := by omega
  unfold searched
  rw [searchLines, byteSize_concat_lineFeed, if_neg hout]
  split
  · rfl
  · exact lastPlace_cons ..

end Searched

/-- Up to the end of the text the search goes the way of `locateIn`. -/
theorem locateIn_eq_searched (cs : List Char) (number start offset : Nat) (hle : start ≤ offset)
    (h : offset ≤ start + byteSize cs) :
    locateIn number (offset - start) (lines cs) =
      some (searched offset number start (lines cs)) := by
  induction cs using lineInduction generalizing number start with
  | last cs hcs => rw [locateIn_of_not_mem hcs (by omega), searched_of_not_mem hcs hle h]
  | more body rest hbody ih =>
    rw [byteSize_append, byteSize_cons, utf8Size_lineFeed] at h
    rw [lines_append_lineFeed hbody]
    obtain hlt | hge := Nat.lt_or_ge offset (start + (byteSize body + 1))
    · rw [locateIn_of_le (by omega), searched_of_lt hle hlt]
    · rw [locateIn_append_lineFeed (by omega), searched_append_lineFeed hge, Nat.sub_sub]
      exact ih (number + 1) (start + (byteSize body + 1)) hge (by omega)

theorem search_eq_locate (cs : List Char) (offset : Nat) : search cs offset = locate cs offset := by
  unfold search
  split
  · next h => exact (locate_eq_none_iff.2 h).symm
  · next h =>
    have hlocate := locateIn_eq_searched cs 1 0 offset (Nat.zero_le _) (by omega)
    rw [Nat.sub_zero, searched] at hlocate
    rw [locate, hlocate]
    cases searchLines offset 1 0 (lines cs) <;> rfl

end FrontEnd.Text
