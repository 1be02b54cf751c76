import FrontEnd.Proofs.Places

namespace FrontEnd.Text

def bytes (cs : List Char) : List UInt8 := cs.flatMap String.utf8EncodeChar

variable {before body after cs ds : List Char} {offset k : Nat}

theorem bytes_append (cs ds : List Char) : bytes (cs ++ ds) = bytes cs ++ bytes ds :=
  List.flatMap_append

theorem length_bytes (cs : List Char) : (bytes cs).length = byteSize cs := by
  induction cs with
  | nil => rfl
  | cons c cs ih =>
    rw [bytes, List.flatMap_cons, List.length_append, String.length_utf8EncodeChar, byteSize_cons]
    exact congrArg _ ih

theorem utf8Encode_eq_bytes (cs : List Char) : cs.utf8Encode.data.toList = bytes cs := by
  rw [List.utf8Encode, List.data_toByteArray]
  rfl

theorem bytes_toList (source : String) : bytes source.toList = source.toUTF8.data.toList := by
  rw [← utf8Encode_eq_bytes, String.utf8Encode_toList]
  rfl

theorem bytes_injective (h : bytes cs = bytes ds) : cs = ds := by
  apply String.ofList_injective
  rw [← String.toByteArray_inj, String.toByteArray_ofList, String.toByteArray_ofList]
  apply ByteArray.ext
  rw [← Array.toList_inj, utf8Encode_eq_bytes, utf8Encode_eq_bytes, h]

def lineFeed : UInt8 := 10

theorem lineFeed_ne_ofNat {n : Nat} (h : 128 ≤ n % 256) : lineFeed ≠ UInt8.ofNat n := by
  intro he
  have hn := congrArg UInt8.toNat he
  rw [UInt8.toNat_ofNat'] at hn
  change 10 = n % 256 at hn
  omega

theorem lineFeed_mem_encode_iff {c : Char} : lineFeed ∈ String.utf8EncodeChar c ↔ c = '\n' := by
  constructor
  · intro h
    unfold String.utf8EncodeChar at h
    dsimp only at h
    split at h
    · have hvalue := congrArg UInt8.toNat (List.mem_singleton.1 h)
      rw [UInt8.toNat_ofNat'] at hvalue
      change 10 = c.val.toNat % 256 at hvalue
      have hten : c.val.toNat = 10 := by omega
      exact Char.ext (UInt32.toNat_inj.1 hten)
    · split at h
      · simp only [List.mem_cons, List.not_mem_nil, or_false] at h
        obtain h | h := h <;> exact absurd h (lineFeed_ne_ofNat (by omega))
      · split at h
        · simp only [List.mem_cons, List.not_mem_nil, or_false] at h
          obtain h | h | h := h <;> exact absurd h (lineFeed_ne_ofNat (by omega))
        · simp only [List.mem_cons, List.not_mem_nil, or_false] at h
          obtain h | h | h | h := h <;> exact absurd h (lineFeed_ne_ofNat (by omega))
  · rintro rfl
    decide

theorem lineFeed_mem_bytes_iff : lineFeed ∈ bytes cs ↔ '\n' ∈ cs := by
  rw [bytes, List.mem_flatMap]
  constructor
  · rintro ⟨c, hc, hbyte⟩
    rwa [← lineFeed_mem_encode_iff.1 hbyte]
  · exact fun h => ⟨_, h, lineFeed_mem_encode_iff.2 rfl⟩

theorem count_lineFeed_bytes (cs : List Char) : (bytes cs).count lineFeed = cs.count '\n' := by
  induction cs with
  | nil => rfl
  | cons c cs ih =>
    rw [bytes, List.flatMap_cons, List.count_append, ← bytes, ih]
    by_cases hc : c = '\n'
    · subst hc
      rw [List.count_cons_self, Nat.add_comm]
      rfl
    · rw [List.count_cons_of_ne hc, List.count_eq_zero.2 (mt lineFeed_mem_encode_iff.1 hc),
        Nat.zero_add]

/-- The offset behind the last line feed before a byte offset, zero if there is none. -/
def lineStart (bs : List UInt8) (offset : Nat) : Nat :=
  offset - (bs.take offset).reverse.idxOf lineFeed

/-- The offset behind the next line feed from a byte offset on, the end if there is none. -/
def lineStop (bs : List UInt8) (offset : Nat) : Nat :=
  min bs.length (offset + (bs.drop offset).idxOf lineFeed + 1)

/-- The place of a byte offset among these bytes. -/
structure Place.At (p : Place) (bs : List UInt8) (offset : Nat) : Prop where
  number : p.number = 1 + (bs.take offset).count lineFeed
  line : bytes p.line = (bs.take (lineStop bs offset)).drop (lineStart bs offset)
  offset : p.offset = offset - lineStart bs offset

theorem idxOf_reverse_bytes (h : ∀ c ∈ before.getLast?, c = '\n') :
    (bytes before).reverse.idxOf lineFeed = 0 := by
  obtain rfl | ⟨front, c, rfl⟩ := List.eq_nil_or_concat before
  · rfl
  · obtain rfl : c = '\n' := h c (by simp)
    rw [List.concat_eq_append, bytes_append, List.reverse_append]
    exact List.idxOf_cons_self

theorem idxOf_bytes (h : ∀ c ∈ after.head?, c = '\n') : (bytes after).idxOf lineFeed = 0 := by
  cases after with
  | nil => rfl
  | cons c cs =>
    obtain rfl : c = '\n' := h c rfl
    exact List.idxOf_cons_self

theorem Place.At.unique {p q : Place} {bs : List UInt8} (hp : p.At bs offset)
    (hq : q.At bs offset) : p = q := by
  obtain ⟨number, line, o⟩ := p
  obtain ⟨number', line', o'⟩ := q
  obtain rfl : number = number' := hp.number.trans hq.number.symm
  obtain rfl : line = line' := bytes_injective (hp.line.trans hq.line.symm)
  obtain rfl : o = o' := hp.offset.trans hq.offset.symm
  rfl

namespace AroundLine

theorem lineFeed_not_mem (h : AroundLine before body after cs) (k : Nat) :
    lineFeed ∉ (bytes body).take k ∧ lineFeed ∉ (bytes body).drop k := by
  have hbody : lineFeed ∉ bytes body := mt lineFeed_mem_bytes_iff.1 h.body
  exact ⟨fun hm => hbody (List.mem_of_mem_take hm), fun hm => hbody (List.mem_of_mem_drop hm)⟩

variable (h : AroundLine before body after cs) (hk : k ≤ byteSize body)

include h hk

theorem bytes_eq :
    (bytes cs).take (byteSize before + k) = bytes before ++ (bytes body).take k ∧
      (bytes cs).drop (byteSize before + k) = (bytes body).drop k ++ bytes after := by
  have hle : k ≤ (bytes body).length := by rwa [length_bytes]
  rw [h.text, bytes_append, bytes_append, ← length_bytes before, List.take_length_add_append,
    List.drop_length_add_append, List.take_append_of_le_length hle,
    List.drop_append_of_le_length hle]
  exact ⟨rfl, rfl⟩

theorem lineStart_eq : lineStart (bytes cs) (byteSize before + k) = byteSize before := by
  have hidx : (bytes before ++ (bytes body).take k).reverse.idxOf lineFeed = k := by
    have hnot := (h.lineFeed_not_mem k).1
    rw [List.reverse_append, List.idxOf_append, if_neg (by simpa using hnot),
      idxOf_reverse_bytes h.before, List.length_reverse, List.length_take, length_bytes]
    omega
  rw [lineStart, (h.bytes_eq hk).1, hidx]
  omega

theorem lineStop_eq : lineStop (bytes cs) (byteSize before + k) =
    byteSize before + byteSize (body ++ after.take 1) := by
  have hidx : ((bytes body).drop k ++ bytes after).idxOf lineFeed = byteSize body - k := by
    rw [List.idxOf_append, if_neg (h.lineFeed_not_mem k).2, idxOf_bytes h.after,
      List.length_drop, length_bytes]
    omega
  rw [lineStop, (h.bytes_eq hk).2, hidx, length_bytes, h.text]
  cases hafter : after with
  | nil =>
    simp only [byteSize_append, List.take_nil, byteSize_nil]
    omega
  | cons c rest =>
    obtain rfl : c = '\n' := h.after c (by rw [hafter]; rfl)
    simp only [byteSize_append, List.take_succ_cons, List.take_zero, byteSize_cons, byteSize_nil,
      utf8Size_lineFeed]
    omega

theorem place_at : Place.At ⟨1 + before.count '\n', body ++ after.take 1, k⟩ (bytes cs)
    (byteSize before + k) := by
  have hcount := List.count_eq_zero.2 (h.lineFeed_not_mem k).1
  refine ⟨?_, ?_, ?_⟩
  · rw [(h.bytes_eq hk).1, List.count_append, count_lineFeed_bytes, hcount, Nat.add_zero]
  · have hsplit : bytes cs =
        bytes before ++ (bytes (body ++ after.take 1) ++ bytes (after.drop 1)) := by
      rw [← bytes_append, ← bytes_append, List.append_assoc, List.take_append_drop, ← h.text]
    rw [h.lineStart_eq hk, h.lineStop_eq hk, hsplit, ← length_bytes before,
      List.take_length_add_append, List.drop_left, ← length_bytes, List.take_left]
  · rw [h.lineStart_eq hk, Nat.add_sub_cancel_left]

end AroundLine

theorem exists_locate_at (h : offset ≤ byteSize cs) :
    ∃ p, locate cs offset = some p ∧ p.At (bytes cs) offset := by
  obtain ⟨before, body, after, k, haround, rfl, hk, hplace⟩ := exists_locateIn cs 1 offset h
  exact ⟨_, hplace, haround.place_at hk⟩

/-- A byte offset beyond the end of a source has no place, and any other has one: the number of line
feeds before it, counted from one, the line between the line feeds around it, and its distance from
the start of that line. The search line after line comes to the same. -/
theorem locate_iff (source : String) (offset : Nat) :
    search source.toList offset = locate source.toList offset ∧
    (locate source.toList offset = none ↔ source.utf8ByteSize < offset) ∧
    ∀ p, locate source.toList offset = some p ↔
      offset ≤ source.utf8ByteSize ∧ p.At source.toUTF8.data.toList offset := by
  refine ⟨search_eq_locate _ _, ?_, fun p => ?_⟩
  · rw [locate_eq_none_iff, byteSize_toList]
  · rw [← bytes_toList, ← byteSize_toList]
    constructor
    · intro hp
      have hle : offset ≤ byteSize source.toList := by
        refine Nat.le_of_not_lt fun hlt => ?_
        cases hp.symm.trans (locate_eq_none_iff.2 hlt)
      obtain ⟨q, hq, hat⟩ := exists_locate_at hle
      cases hp.symm.trans hq
      exact ⟨hle, hat⟩
    · rintro ⟨hle, hat⟩
      obtain ⟨q, hq, hat'⟩ := exists_locate_at hle
      rw [hq, hat'.unique hat]

example : locate "a\né".toList 3 = some ⟨2, ['é'], 1⟩ ∧
    locate "a\n".toList 2 = some ⟨2, [], 0⟩ := by
  decide

end FrontEnd.Text
