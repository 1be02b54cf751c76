namespace FrontEnd.Text

def byteSize : List Char → Nat
  | [] => 0
  | c :: cs => c.utf8Size + byteSize cs

@[simp] theorem byteSize_nil : byteSize [] = 0 := rfl

@[simp] theorem byteSize_cons (c : Char) (cs : List Char) :
    byteSize (c :: cs) = c.utf8Size + byteSize cs := rfl

@[simp] theorem byteSize_append (cs ds : List Char) :
    byteSize (cs ++ ds) = byteSize cs + byteSize ds := by
  induction cs with
  | nil => simp
  | cons c cs ih => simp [ih, Nat.add_assoc]

theorem byteSize_eq_zero_iff {cs : List Char} : byteSize cs = 0 ↔ cs = [] := by
  cases cs with
  | nil => simp
  | cons c cs =>
    have hc := c.utf8Size_pos
    simp only [byteSize_cons, reduceCtorEq, iff_false]
    omega

theorem size_utf8Encode (cs : List Char) : cs.utf8Encode.size = byteSize cs := by
  induction cs with
  | nil => simp
  | cons c cs ih =>
    rw [List.utf8Encode_cons, ByteArray.size_append, ih, List.utf8Encode_singleton,
      List.size_toByteArray, String.length_utf8EncodeChar, byteSize_cons]

theorem byteSize_toList (text : String) : byteSize text.toList = text.utf8ByteSize := by
  rw [← size_utf8Encode, String.utf8Encode_toList, String.size_toByteArray]

theorem exists_of_append_eq {text back front rest : List Char} (h : text ++ back = front ++ rest)
    (hsize : byteSize text ≤ byteSize front) :
    ∃ mid, front = text ++ mid ∧ back = mid ++ rest := by
  obtain hmid | ⟨mid, rfl, rfl⟩ := List.append_eq_append_iff.1 h
  · exact hmid
  · rw [byteSize_append] at hsize
    obtain rfl : mid = [] := byteSize_eq_zero_iff.1 (by omega)
    exact ⟨[], by simp, rfl⟩

theorem exists_of_lt_byteSize {cs : List Char} {i : Nat} (h : i < byteSize cs) :
    ∃ front c back, cs = front ++ c :: back ∧ byteSize front ≤ i ∧
      i < byteSize front + c.utf8Size := by
  induction cs generalizing i with
  | nil => simp at h
  | cons c cs ih =>
    by_cases hi : i < c.utf8Size
    · exact ⟨[], c, cs, rfl, by simp, by simpa using hi⟩
    · rw [byteSize_cons] at h
      obtain ⟨front, d, back, rfl, hle, hlt⟩ := ih (i := i - c.utf8Size) (by omega)
      refine ⟨c :: front, d, back, rfl, ?_, ?_⟩ <;> rw [byteSize_cons] <;> omega

/-- The text from a byte offset on, if the offset is a boundary. -/
def dropBytes? : Nat → List Char → Option (List Char)
  | 0, cs => some cs
  | _ + 1, [] => none
  | n + 1, c :: cs => if c.utf8Size ≤ n + 1 then dropBytes? (n + 1 - c.utf8Size) cs else none

@[simp] theorem dropBytes?_zero (cs : List Char) : dropBytes? 0 cs = some cs := by
  cases cs <;> rfl

theorem dropBytes?_eq_some_iff {n : Nat} {cs rest : List Char} :
    dropBytes? n cs = some rest ↔ ∃ front, cs = front ++ rest ∧ byteSize front = n := by
  induction cs generalizing n with
  | nil =>
    cases n with
    | zero =>
      simp only [dropBytes?_zero, Option.some.injEq, List.nil_eq_append_iff]
      exact ⟨fun h => ⟨[], ⟨rfl, h.symm⟩, rfl⟩, fun ⟨_, h, _⟩ => h.2.symm⟩
    | succ n =>
      simp only [dropBytes?, reduceCtorEq, List.nil_eq_append_iff, false_iff, not_exists, not_and]
      rintro front ⟨rfl, -⟩
      simp
  | cons c cs ih =>
    have hc := c.utf8Size_pos
    cases n with
    | zero =>
      simp only [dropBytes?_zero, Option.some.injEq, byteSize_eq_zero_iff]
      exact ⟨fun h => ⟨[], h, rfl⟩, fun ⟨_, h, hf⟩ => by simpa [hf] using h⟩
    | succ n =>
      constructor
      · intro h
        by_cases hle : c.utf8Size ≤ n + 1
        · simp only [dropBytes?, if_pos hle] at h
          obtain ⟨front, rfl, hf⟩ := ih.1 h
          refine ⟨c :: front, by simp, ?_⟩
          simp only [byteSize_cons, hf]
          omega
        · simp [dropBytes?, hle] at h
      · rintro ⟨front, h, hf⟩
        cases front with
        | nil => simp at hf
        | cons d front =>
          simp only [List.cons_append, List.cons.injEq] at h
          obtain ⟨rfl, rfl⟩ := h
          simp only [byteSize_cons] at hf
          have hle : c.utf8Size ≤ n + 1 := by omega
          simp only [dropBytes?, if_pos hle]
          exact ih.2 ⟨front, rfl, by omega⟩

end FrontEnd.Text
