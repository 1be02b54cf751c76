import FrontEnd.Proofs.Munch

namespace FrontEnd

open Text

/-- A token kind and the bytes from `start` to `stop` that are read as it. -/
structure Piece where
  kind : TokenKind
  start : Nat
  stop : Nat
  deriving DecidableEq

def Token.piece (t : Token) : Piece := ⟨t.kind, t.span.start.toNat, t.span.stop.toNat⟩

def Piece.Includes (p : Piece) (i : Nat) : Prop := p.start ≤ i ∧ i < p.stop

/-- The pieces tile a text that begins at byte `offset` of its source. -/
structure Tiles (offset : Nat) (cs : List Char) (ps : List Piece) : Prop where
  munch : ∀ p ∈ ps, ∃ front text back, cs = front ++ (text ++ back) ∧
    p.start = offset + byteSize front ∧ p.stop = p.start + byteSize text ∧ Munch p.kind text back
  ordered : ps.Pairwise fun p q => p.stop ≤ q.start
  gaps : ∀ front c back, cs = front ++ c :: back →
    (∀ p ∈ ps, ¬ p.Includes (offset + byteSize front)) → c ∈ blanks

variable {offset : Nat} {c : Char} {cs text back : List Char} {k : TokenKind} {ps : List Piece}

theorem tiles_nil_iff : Tiles offset [] ps ↔ ps = [] := by
  constructor
  · intro h
    refine List.eq_nil_iff_forall_not_mem.2 fun p hp => ?_
    obtain ⟨front, text, back, hcs, -, -, hm⟩ := h.munch p hp
    obtain ⟨-, htext⟩ := List.nil_eq_append_iff.1 hcs
    exact hm.text_ne_nil (List.nil_eq_append_iff.1 htext.symm).1
  · rintro rfl
    exact ⟨by simp, .nil, by simp⟩

theorem tiles_blank_iff (hc : c ∈ blanks) :
    Tiles offset (c :: cs) ps ↔ Tiles (offset + c.utf8Size) cs ps := by
  constructor
  · intro h
    refine ⟨fun p hp => ?_, h.ordered, fun front d back hcs hgap => ?_⟩
    · obtain ⟨front, text, back, hcs, hstart, hstop, hm⟩ := h.munch p hp
      cases front with
      | nil =>
        obtain ⟨d, text, rfl⟩ := List.exists_cons_of_ne_nil hm.text_ne_nil
        obtain ⟨rfl, -⟩ := List.cons.inj hcs
        exact absurd hc hm.not_mem_blanks
      | cons d front =>
        obtain ⟨rfl, rfl⟩ := List.cons.inj hcs
        exact ⟨front, text, back, rfl, by rw [hstart, byteSize_cons, Nat.add_assoc], hstop, hm⟩
    · refine h.gaps (c :: front) d back (by rw [hcs, List.cons_append]) ?_
      rwa [byteSize_cons, ← Nat.add_assoc]
  · intro h
    refine ⟨fun p hp => ?_, h.ordered, fun front d back hcs hgap => ?_⟩
    · obtain ⟨front, text, back, rfl, hstart, hstop, hm⟩ := h.munch p hp
      exact ⟨c :: front, text, back, rfl, by rw [hstart, byteSize_cons, Nat.add_assoc], hstop, hm⟩
    · cases front with
      | nil =>
        obtain ⟨rfl, -⟩ := List.cons.inj hcs
        exact hc
      | cons e front =>
        obtain ⟨rfl, hrest⟩ := List.cons.inj hcs
        refine h.gaps front d back hrest ?_
        rwa [byteSize_cons, ← Nat.add_assoc] at hgap

theorem Tiles.le_start (h : Tiles offset cs ps) {p : Piece} (hp : p ∈ ps) : offset ≤ p.start := by
  obtain ⟨front, text, back, -, hstart, -, -⟩ := h.munch p hp
  omega

theorem Tiles.start_lt_stop (h : Tiles offset cs ps) {p : Piece} (hp : p ∈ ps) :
    p.start < p.stop := by
  obtain ⟨front, text, back, -, -, hstop, hm⟩ := h.munch p hp
  have hpos : byteSize text ≠ 0 := mt byteSize_eq_zero_iff.1 hm.text_ne_nil
  omega

/-- A piece includes all bytes of a character or none of them. -/
theorem Tiles.includes (h : Tiles 0 cs ps) {front back : List Char} (hcs : cs = front ++ c :: back)
    {p : Piece} (hp : p ∈ ps) (hold : p.Includes (byteSize front)) {i : Nat}
    (hle : byteSize front ≤ i) (hlt : i < byteSize front + c.utf8Size) : p.Includes i := by
  obtain ⟨front', text, back', hcs', hstart, hstop, -⟩ := h.munch p hp
  obtain ⟨hge, hlt'⟩ := hold
  have hsplit : front ++ c :: back = (front' ++ text) ++ back' := by
    rw [← hcs, hcs', List.append_assoc]
  obtain ⟨mid, hmid, hback⟩ := exists_of_append_eq hsplit (by rw [byteSize_append]; omega)
  have hsize := congrArg byteSize hmid
  rw [byteSize_append, byteSize_append] at hsize
  cases mid with
  | nil =>
    rw [byteSize_nil] at hsize
    omega
  | cons d mid =>
    obtain ⟨rfl, -⟩ := List.cons.inj hback
    rw [byteSize_cons] at hsize
    exact ⟨by omega, by omega⟩

theorem Munch.unique {k' : TokenKind} {text' back' : List Char} (h : Munch k text back)
    (h' : Munch k' text' back') (he : text ++ back = text' ++ back') :
    k = k' ∧ text = text' ∧ back = back' := by
  obtain ⟨c, text, rfl⟩ := List.exists_cons_of_ne_nil h.text_ne_nil
  obtain ⟨d, text', rfl⟩ := List.exists_cons_of_ne_nil h'.text_ne_nil
  obtain ⟨rfl, hrest⟩ := List.cons.inj he
  have hread := h.read
  rw [List.append_eq, List.append_eq] at hrest
  rw [hrest, h'.read] at hread
  cases hread
  exact ⟨rfl, rfl, rfl⟩

/-- A text that begins with a token is tiled by this token and a tiling of what is behind it: the
first character is no blank, so a piece holds it, and only the first piece can. -/
theorem tiles_token_iff (hm : Munch k text back) :
    Tiles offset (text ++ back) ps ↔
      ∃ qs, ps = ⟨k, offset, offset + byteSize text⟩ :: qs ∧
        Tiles (offset + byteSize text) back qs := by
  constructor
  · intro h
    have hheld : ∃ p ∈ ps, p.Includes offset := by
      obtain ⟨c, cs, rfl⟩ := List.exists_cons_of_ne_nil hm.text_ne_nil
      by_contra hnone
      exact hm.not_mem_blanks (h.gaps [] c (cs ++ back) rfl fun p hp hold => hnone ⟨p, hp, hold⟩)
    obtain ⟨p, hp, hstart, hstop⟩ := hheld
    cases ps with
    | nil => cases hp
    | cons q qs =>
      have hmem : q ∈ q :: qs := List.mem_cons_self
      have hfirst : q.start = offset := by
        have hge := h.le_start hmem
        obtain rfl | hp := List.mem_cons.1 hp
        · exact Nat.le_antisymm hstart hge
        · -- the piece that holds the first character would begin behind the first piece
          have hle := (List.pairwise_cons.1 h.ordered).1 p hp
          have hlt := h.start_lt_stop hmem
          omega
      obtain ⟨front, text', back', hcs, hstart', hstop', hm'⟩ := h.munch q hmem
      obtain rfl : front = [] := byteSize_eq_zero_iff.1 (by omega)
      obtain ⟨hk, rfl, rfl⟩ := hm.unique hm' hcs
      have hq : q = ⟨k, offset, offset + byteSize text⟩ := by
        cases q
        simp only at hk hfirst hstop'
        rw [hstop', hk, hfirst]
      refine ⟨qs, by rw [hq], fun r hr => ?_, h.ordered.of_cons, fun front d rest hback hgap => ?_⟩
      · obtain ⟨front, text', back', hcs, hstart, hstop, hmr⟩ := h.munch r (.tail _ hr)
        have hle := (List.pairwise_cons.1 h.ordered).1 r hr
        rw [hq] at hle
        obtain ⟨mid, rfl, rfl⟩ := exists_of_append_eq hcs (by simp only at hle; omega)
        exact ⟨mid, text', back', rfl, by rw [hstart, byteSize_append, Nat.add_assoc], hstop, hmr⟩
      · refine h.gaps (text ++ front) d rest (by rw [hback, List.append_assoc]) fun r hr hold => ?_
        rw [byteSize_append, ← Nat.add_assoc] at hold
        obtain rfl | hr := List.mem_cons.1 hr
        · rw [hq] at hold
          exact absurd hold.2 (by simp)
        · exact hgap r hr hold
  · rintro ⟨qs, rfl, h⟩
    refine ⟨fun p hp => ?_, .cons (fun q hq => h.le_start hq) h.ordered,
      fun front d rest hcs hgap => ?_⟩
    · obtain rfl | hp := List.mem_cons.1 hp
      · exact ⟨[], text, back, rfl, by simp, rfl, hm⟩
      · obtain ⟨front, text', back', rfl, hstart, hstop, hmp⟩ := h.munch p hp
        exact ⟨text ++ front, text', back', by rw [List.append_assoc],
          by rw [hstart, byteSize_append, Nat.add_assoc], hstop, hmp⟩
    · have hsize : byteSize text ≤ byteSize front := by
        have hnot := hgap _ List.mem_cons_self
        simp only [Piece.Includes] at hnot
        omega
      obtain ⟨mid, rfl, rfl⟩ := exists_of_append_eq hcs hsize
      refine h.gaps mid d rest rfl fun p hp hold => hgap p (.tail _ hp) ?_
      rwa [byteSize_append, ← Nat.add_assoc]

theorem tiles_iff_scan (file : String) {offset : Nat} {cs : List Char} (ps : List Piece)
    (hsize : offset + byteSize cs < UInt32.size) :
    Tiles offset cs ps ↔ ps = (scan file offset cs).map Token.piece := by
  fun_induction scan file offset cs generalizing ps with
  | case1 offset => exact tiles_nil_iff
  | case2 offset c cs hb ih =>
    rw [byteSize_cons, ← Nat.add_assoc] at hsize
    rw [tiles_blank_iff (isBlank_iff.1 hb), ih ps hsize]
  | case3 offset c cs hb x size ih =>
    have hm : Munch x.kind x.text x.rest := munch_read (mt isBlank_iff.2 hb) cs
    have htext : x.text ++ x.rest = c :: cs := Lexeme.text_append_rest c cs
    rw [← htext, byteSize_append, ← Nat.add_assoc] at hsize
    have hpiece : Token.piece ⟨x.kind, String.ofList x.text, .cover file offset size⟩ =
        ⟨x.kind, offset, offset + size⟩ := by
      have hstart : offset.toUInt32.toNat = offset := UInt32.toNat_ofNat_of_lt' (by omega)
      have hstop : (offset + size).toUInt32.toNat = offset + size :=
        UInt32.toNat_ofNat_of_lt' (by omega)
      rw [Token.piece, Span.cover, hstart, hstop]
    rw [← htext, tiles_token_iff hm, List.map_cons, hpiece]
    constructor
    · rintro ⟨qs, rfl, h⟩
      rw [(ih qs hsize).1 h]
    · rintro rfl
      exact ⟨_, rfl, (ih _ hsize).2 rfl⟩

/-- Every list of kinds and places that tiles a source by the rules of the tokens is the list of its
tokens before the end token, and this list does. -/
theorem tiles_iff_tokenize (source : String) (file : Option String)
    (h : source.utf8ByteSize < UInt32.size) (ps : List Piece) :
    Tiles 0 source.toList ps ↔ ps = (tokenize source file).dropLast.map Token.piece := by
  rw [tokenize, List.dropLast_concat]
  exact tiles_iff_scan _ ps (by rwa [Nat.zero_add, byteSize_toList])

theorem tiles_iff_tokenize_joined :
    "!==12ab letx é".utf8ByteSize < UInt32.size ∧
      Tiles 0 "!==12ab letx é".toList [⟨.notEquals, 0, 2⟩, ⟨.assignment, 2, 3⟩, ⟨.int, 3, 5⟩,
        ⟨.identifier, 5, 7⟩, ⟨.identifier, 8, 12⟩, ⟨.illegal, 13, 15⟩] ∧
      ¬ Tiles 0 "!==12ab letx é".toList [⟨.not, 0, 1⟩, ⟨.equals, 1, 3⟩, ⟨.int, 3, 5⟩,
        ⟨.identifier, 5, 7⟩, ⟨.letWord, 8, 11⟩, ⟨.identifier, 11, 12⟩, ⟨.illegal, 13, 15⟩] := by
  have hsize : "!==12ab letx é".utf8ByteSize < UInt32.size := by decide
  have hpieces : (tokenize "!==12ab letx é" none).dropLast.map Token.piece =
      [⟨.notEquals, 0, 2⟩, ⟨.assignment, 2, 3⟩, ⟨.int, 3, 5⟩, ⟨.identifier, 5, 7⟩,
        ⟨.identifier, 8, 12⟩, ⟨.illegal, 13, 15⟩] := by decide +kernel
  refine ⟨hsize, (tiles_iff_tokenize _ none hsize _).2 hpieces.symm, fun h => ?_⟩
  have hother := (tiles_iff_tokenize _ none hsize _).1 h
  rw [hpieces] at hother
  exact absurd hother (by decide)

end FrontEnd
