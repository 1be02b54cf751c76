import FrontEnd.Proofs.Tiling

namespace FrontEnd

open Text

theorem exists_of_mem_scan {file : String} {offset : Nat} {cs : List Char} {t : Token}
    (ht : t ∈ scan file offset cs) :
    ∃ front back, cs = front ++ (t.text.toList ++ back) ∧
      t.span = .cover file (offset + byteSize front) (byteSize t.text.toList) := by
  fun_induction scan file offset cs with
  | case1 offset => simp at ht
  | case2 offset c cs hb ih =>
    obtain ⟨front, back, hcs, hspan⟩ := ih ht
    exact ⟨c :: front, back, by rw [hcs, List.cons_append], by
      rw [hspan, byteSize_cons, Nat.add_assoc]⟩
  | case3 offset c cs hb x size ih =>
    have htext : x.text ++ x.rest = c :: cs := Lexeme.text_append_rest c cs
    obtain rfl | ht := List.mem_cons.1 ht
    · exact ⟨[], x.rest, by simp [htext], by simp [size]⟩
    · obtain ⟨front, back, hrest, hspan⟩ := ih ht
      refine ⟨x.text ++ front, back, by rw [List.append_assoc, ← hrest, htext], ?_⟩
      rw [hspan, byteSize_append, ← Nat.add_assoc]

theorem getElem_toUTF8 {source : String} {c : Char} {front back : List Char}
    (hcs : source.toList = front ++ c :: back) (hc : c.utf8Size = 1)
    (h : byteSize front < source.toUTF8.size) :
    source.toUTF8[byteSize front] = c.val.toUInt8 := by
  have hbytes : source.toUTF8 =
      front.utf8Encode ++ ([c.val.toUInt8].toByteArray ++ back.utf8Encode) := by
    rw [← String.utf8EncodeChar_eq_singleton hc, ← List.utf8Encode_singleton,
      ← List.utf8Encode_cons, ← List.utf8Encode_append, ← hcs]
    exact String.utf8Encode_toList.symm
  generalize source.toUTF8 = bytes at hbytes h
  subst hbytes
  rw [ByteArray.getElem_append_right (by rw [size_utf8Encode]),
    ByteArray.getElem_append_left (by simp [size_utf8Encode]), List.getElem_toByteArray]
  simp [size_utf8Encode]

/-- The bytes of the blanks: space, tab, carriage return and line feed. -/
def blankBytes : List UInt8 := [32, 9, 13, 10]

/-- The tokens keep all of the source but blanks: each is a nonempty stretch of it between two
boundaries and has that stretch as its text, they stand in order without overlapping, and every byte
that belongs to none of them is a blank. -/
structure Lossless (source : String) (ts : List Token) : Prop where
  proper : ∀ t ∈ ts, t.kind ≠ .eof
  inside : ∀ t ∈ ts, t.span.start < t.span.stop ∧ t.span.stop.toNat ≤ source.utf8ByteSize
  slice : ∀ t ∈ ts, ∃ front back, source = front ++ t.text ++ back ∧
    front.utf8ByteSize = t.span.start.toNat ∧ (front ++ t.text).utf8ByteSize = t.span.stop.toNat
  ordered : ts.Pairwise fun t u => t.span.stop ≤ u.span.start
  gaps : ∀ i (_ : i < source.toUTF8.size), (∀ t ∈ ts, ¬ t.piece.Includes i) →
    source.toUTF8[i] ∈ blankBytes

theorem blank_byte {c : Char} (h : c ∈ blanks) :
    c.utf8Size = 1 ∧ c.val.toUInt8 ∈ blankBytes := by
  simp only [blanks, List.mem_cons, List.not_mem_nil, or_false] at h
  obtain rfl | rfl | rfl | rfl := h <;> exact ⟨rfl, by decide⟩

theorem slice_of_mem_scan {source file : String} {t : Token}
    (hsize : source.utf8ByteSize < UInt32.size) (ht : t ∈ scan file 0 source.toList) :
    ∃ front back, source = front ++ t.text ++ back ∧ front.utf8ByteSize = t.span.start.toNat ∧
      (front ++ t.text).utf8ByteSize = t.span.stop.toNat := by
  obtain ⟨front, back, hcs, hspan⟩ := exists_of_mem_scan ht
  have hsource : source = String.ofList front ++ t.text ++ String.ofList back := by
    rw [← String.toList_inj]
    simpa using hcs
  have hfront : (String.ofList front).utf8ByteSize = byteSize front := by
    rw [← byteSize_toList, String.toList_ofList]
  have hle : byteSize front + byteSize t.text.toList ≤ source.utf8ByteSize := by
    rw [← byteSize_toList source, hcs, byteSize_append, byteSize_append]
    omega
  refine ⟨String.ofList front, String.ofList back, hsource, ?_, ?_⟩
  · rw [hfront, hspan, Nat.zero_add]
    exact (UInt32.toNat_ofNat_of_lt' (by omega)).symm
  · rw [String.utf8ByteSize_append, hfront, ← byteSize_toList t.text, hspan, Nat.zero_add]
    exact (UInt32.toNat_ofNat_of_lt' (by omega)).symm

theorem lossless_scan {source : String} (file : String)
    (hsize : source.utf8ByteSize < UInt32.size) :
    Lossless source (scan file 0 source.toList) := by
  have htiles : Tiles 0 source.toList ((scan file 0 source.toList).map Token.piece) :=
    (tiles_iff_scan file _ (by rwa [Nat.zero_add, byteSize_toList])).2 rfl
  refine ⟨fun t ht => kind_ne_eof_of_mem_scan ht, fun t ht => ⟨?_, ?_⟩,
    fun t ht => slice_of_mem_scan hsize ht, ?_, fun i hi hgap => ?_⟩
  · exact UInt32.lt_iff_toNat_lt.2 (htiles.start_lt_stop (List.mem_map_of_mem ht))
  · obtain ⟨front, back, hsource, -, hstop⟩ := slice_of_mem_scan hsize ht
    have hlen := congrArg String.utf8ByteSize hsource
    rw [String.utf8ByteSize_append, hstop] at hlen
    omega
  · exact (List.pairwise_map.1 htiles.ordered).imp fun h => UInt32.le_iff_toNat_le.2 h
  · have hlt : i < byteSize source.toList := by rwa [byteSize_toList, ← String.size_toByteArray]
    obtain ⟨front, c, back, hcs, hle, hlt⟩ := exists_of_lt_byteSize hlt
    have hblank : c ∈ blanks := by
      refine htiles.gaps front c back hcs fun p hp hold => ?_
      rw [Nat.zero_add] at hold
      obtain ⟨t, ht, rfl⟩ := List.mem_map.1 hp
      exact hgap t ht (htiles.includes hcs hp hold hle hlt)
    obtain ⟨hone, hbyte⟩ := blank_byte hblank
    obtain rfl : i = byteSize front := by omega
    rwa [getElem_toUTF8 hcs hone]

/-- The tokens of a source are lossless, and one end token stands behind them: it has no text and
stands behind the last byte. -/
theorem tokenize_lossless (source : String) (file : Option String)
    (h : source.utf8ByteSize < UInt32.size) :
    ∃ ts stop, stop.toNat = source.utf8ByteSize ∧ Lossless source ts ∧
      tokenize source file = ts ++ [⟨.eof, "", ⟨stop, stop, file.getD defaultFile⟩⟩] := by
  refine ⟨scan (file.getD defaultFile) 0 source.toList, source.utf8ByteSize.toUInt32,
    UInt32.toNat_ofNat_of_lt' h, lossless_scan _ h, ?_⟩
  rw [tokenize, byteSize_toList]
  rfl

theorem tokenize_lossless_wide :
    "\té == 1\n\n".utf8ByteSize < UInt32.size ∧
      ∃ ts stop, stop.toNat = "\té == 1\n\n".utf8ByteSize ∧ Lossless "\té == 1\n\n" ts ∧
        tokenize "\té == 1\n\n" none = ts ++ [⟨.eof, "", ⟨stop, stop, defaultFile⟩⟩] ∧
        ts.map Token.piece = [⟨.illegal, 1, 3⟩, ⟨.equals, 4, 6⟩, ⟨.int, 7, 8⟩] := by
  have hsize : "\té == 1\n\n".utf8ByteSize < UInt32.size := by decide
  obtain ⟨ts, stop, hstop, hts, htokens⟩ := tokenize_lossless "\té == 1\n\n" none hsize
  refine ⟨hsize, ts, stop, hstop, hts, htokens, ?_⟩
  have hdrop : (tokenize "\té == 1\n\n" none).dropLast = ts := by
    rw [htokens, List.dropLast_concat]
  rw [← hdrop]
  decide +kernel

theorem scan_skip_blanks (file : String) (offset : Nat) (cs : List Char) :
    scan file offset cs =
      scan file (offset + byteSize (cs.takeWhile isBlank)) (cs.dropWhile isBlank) := by
  induction cs generalizing offset with
  | nil => rfl
  | cons c cs ih =>
    by_cases hb : isBlank c = true
    · rw [scan, if_pos hb, ih, List.takeWhile_cons_of_pos hb, List.dropWhile_cons_of_pos hb,
        byteSize_cons, Nat.add_assoc]
    · rw [List.takeWhile_cons_of_neg hb, List.dropWhile_cons_of_neg hb, byteSize_nil, Nat.add_zero]

namespace Lexer

/-- Reading token after token gives this list, whose last token is the first end token. -/
inductive ReadsAll : Lexer → List Token → Prop where
  | stop {l l' : Lexer} {t : Token} (next : l.next? = some (t, l')) (kind : t.kind = .eof) :
      ReadsAll l [t]
  | token {l l' : Lexer} {t : Token} {ts : List Token} (next : l.next? = some (t, l'))
      (kind : t.kind ≠ .eof) (rest : ReadsAll l' ts) : ReadsAll l (t :: ts)

theorem byteSize_blanks (cs : List Char) :
    byteSize (cs.takeWhile isBlank) + byteSize (cs.dropWhile isBlank) = byteSize cs := by
  rw [← byteSize_append, List.takeWhile_append_dropWhile]

theorem next?_of_atEnd {l : Lexer} (h : l.atEnd = true) :
    l.next? = some (.eof (l.spanOf 0), l) := by
  simp [next?, unread?, h, spanOf]

theorem atEnd_of_remainder? {l : Lexer} {cs : List Char} (h : l.remainder? = some cs) :
    Lexer.atEnd { l with position := l.position + byteSize cs } = true := by
  obtain ⟨front, hsource, hsize⟩ := dropBytes?_eq_some_iff.1 h
  simp [atEnd, hsource, hsize]

theorem next?_of_blanks {l : Lexer} {cs : List Char} (h : l.remainder? = some cs)
    (hrest : cs.dropWhile isBlank = []) :
    scan l.file l.position cs = [] ∧
      l.next? = some (.eof (.cover l.file (l.position + byteSize cs) 0),
        { l with position := l.position + byteSize cs }) := by
  have hsize := byteSize_blanks cs
  rw [hrest, byteSize_nil, Nat.add_zero] at hsize
  constructor
  · rw [scan_skip_blanks, hrest, scan]
  · simp [next?, unread?_of_remainder? h, hrest, hsize]

theorem next?_of_cons {l : Lexer} {c : Char} {cs ds : List Char} (h : l.remainder? = some cs)
    (hrest : cs.dropWhile isBlank = c :: ds) :
    ∃ t n rest, l.next? = some (t, { l with position := n }) ∧ l.position < n ∧
      Lexer.remainder? { l with position := n } = some rest ∧ rest.length < cs.length ∧
        n + byteSize rest = l.position + byteSize cs ∧
          scan l.file l.position cs = t :: scan l.file n rest := by
  have hb : ¬ isBlank c = true := by
    have hnot := stop_dropWhile isBlank cs
    simpa [hrest] using hnot
  have hsplit : cs.takeWhile isBlank ++ c :: ds = cs := by
    rw [← hrest, List.takeWhile_append_dropWhile]
  let x := Lexeme.read c ds
  let start := l.position + byteSize (cs.takeWhile isBlank)
  have htext : x.text ++ x.rest = c :: ds := Lexeme.text_append_rest c ds
  refine ⟨⟨x.kind, String.ofList x.text, .cover l.file start (byteSize x.text)⟩,
    start + byteSize x.text, x.rest, ?_, ?_, ?_, ?_, ?_, ?_⟩
  · simp [next?, unread?_of_remainder? h, hrest, start, x]
  · have hpos : byteSize x.text ≠ 0 := mt byteSize_eq_zero_iff.1 (Lexeme.text_ne_nil c ds)
    simp only [start]
    omega
  · obtain ⟨front, hsource, hfront⟩ := dropBytes?_eq_some_iff.1 h
    refine dropBytes?_eq_some_iff.2 ⟨front ++ (cs.takeWhile isBlank ++ x.text), ?_, ?_⟩
    · rw [List.append_assoc, List.append_assoc, htext, hsplit, ← hsource]
    · simp [start, hfront, Nat.add_assoc]
  · have hlen := congrArg List.length hsplit
    have hle : x.rest.length ≤ ds.length := Lexeme.length_rest_le c ds
    rw [List.length_append, List.length_cons] at hlen
    omega
  · have hsize := byteSize_blanks cs
    rw [hrest, ← htext, byteSize_append] at hsize
    simp only [start]
    omega
  · rw [scan_skip_blanks, hrest, scan, if_neg hb]

/-- From a boundary of the source on, reading token after token gives all tokens of the rest. -/
theorem readsAll_of_remainder? {l : Lexer} {cs : List Char} (h : l.remainder? = some cs) :
    ReadsAll l (scan l.file l.position cs ++
      [.eof (.cover l.file (l.position + byteSize cs) 0)]) := by
  induction hn : cs.length using Nat.strong_induction_on generalizing l cs with
  | _ n ih =>
    cases hrest : cs.dropWhile isBlank with
    | nil =>
      obtain ⟨hscan, hnext⟩ := next?_of_blanks h hrest
      rw [hscan]
      exact .stop hnext rfl
    | cons c ds =>
      obtain ⟨t, n, rest, hnext, -, hl', hlt, hsize, hscan⟩ := next?_of_cons h hrest
      have hkind : t.kind ≠ .eof := kind_ne_eof_of_mem_scan (hscan ▸ List.mem_cons_self)
      have hy := ih _ (hn ▸ hlt) hl' rfl
      rw [hsize] at hy
      rw [hscan]
      exact .token hnext hkind hy

end Lexer

/-- The tokens of a source are those that are read from its beginning one after the other. -/
theorem readsAll_tokenize (source : String) (file : Option String) :
    (Lexer.ofSource source file).ReadsAll (tokenize source file) := by
  have h : (Lexer.ofSource source file).remainder? = some source.toList := dropBytes?_zero _
  have hy := Lexer.readsAll_of_remainder? h
  rwa [show (Lexer.ofSource source file).position = 0 from rfl, Nat.zero_add] at hy

end FrontEnd
