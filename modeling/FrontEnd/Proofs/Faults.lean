import FrontEnd.Proofs.Patterns
import Mathlib.Logic.Relation

namespace FrontEnd

open Text

namespace Lexer

variable {l l' : Lexer}

/-- The cursor is before, behind or between characters of the source. -/
def OnBoundary (l : Lexer) : Prop := String.Pos.Raw.IsValid l.source ⟨l.position⟩

theorem onBoundary_iff : l.OnBoundary ↔ ∃ cs, l.remainder? = some cs := by
  simp only [OnBoundary, String.Pos.Raw.isValid_iff_exists_append, remainder?,
    dropBytes?_eq_some_iff]
  constructor
  · rintro ⟨front, back, hsource, hposition⟩
    refine ⟨back.toList, front.toList, by rw [hsource, String.toList_append], ?_⟩
    rw [byteSize_toList]
    exact (congrArg String.Pos.Raw.byteIdx hposition).symm
  · rintro ⟨cs, front, hsource, hsize⟩
    have hfront : l.position = (String.ofList front).utf8ByteSize := by
      rw [← byteSize_toList, String.toList_ofList, hsize]
    refine ⟨String.ofList front, String.ofList cs, ?_, congrArg String.Pos.Raw.mk hfront⟩
    rw [← String.toList_inj, hsource, String.toList_append, String.toList_ofList,
      String.toList_ofList]

theorem remainder?_eq_none_iff : l.remainder? = none ↔ ¬ l.OnBoundary := by
  rw [onBoundary_iff, Option.eq_none_iff_forall_ne_some, not_exists]

theorem OnBoundary.position_le (h : l.OnBoundary) : l.position ≤ l.source.utf8ByteSize :=
  h.le_rawEndPos

theorem atEnd_iff : l.atEnd = true ↔ l.source.utf8ByteSize ≤ l.position := by
  rw [atEnd, decide_eq_true_iff, byteSize_toList]

theorem unread?_eq_none_iff :
    l.unread? = none ↔ l.position < l.source.utf8ByteSize ∧ ¬ l.OnBoundary := by
  unfold unread?
  split
  · next hend => simp [Nat.not_lt.2 (atEnd_iff.1 hend)]
  · next hend =>
    rw [atEnd_iff, Nat.not_le] at hend
    rw [remainder?_eq_none_iff, and_iff_right hend]

theorem onBoundary_pass {cs : List Char} (h : l.remainder? = some cs) : (l.pass cs).OnBoundary :=
  onBoundary_iff.2 ⟨[], remainder?_pass (by rwa [List.append_nil])⟩

theorem next?_inside {t : Token} (hlt : l.position < l.source.utf8ByteSize)
    (h : l.next? = some (t, l')) : ∃ n, l' = { l with position := n } ∧ l'.OnBoundary ∧
      l.position < n ∧ n ≤ l.source.utf8ByteSize := by
  have hboundary : l.OnBoundary := by
    by_contra hoff
    rw [next?, unread?_eq_none_iff.2 ⟨hlt, hoff⟩] at h
    cases h
  obtain ⟨cs, hcs⟩ := onBoundary_iff.1 hboundary
  cases hrest : cs.dropWhile isBlank with
  | nil =>
    obtain ⟨-, hnext⟩ := next?_of_blanks hcs hrest
    cases hnext.symm.trans h
    have hend : (l.pass cs).OnBoundary := onBoundary_pass hcs
    have hpos : byteSize cs ≠ 0 := by
      intro hzero
      rw [byteSize_eq_zero_iff.1 hzero] at hcs
      exact Nat.not_le.2 hlt (atEnd_iff.1 (atEnd_of_remainder? hcs))
    exact ⟨_, rfl, hend, Nat.lt_add_of_pos_right (Nat.pos_of_ne_zero hpos), hend.position_le⟩
  | cons c ds =>
    obtain ⟨t, n, rest, hnext, hn, hl', -⟩ := next?_of_cons hcs hrest
    cases hnext.symm.trans h
    have hboundary' := onBoundary_iff.2 ⟨rest, hl'⟩
    exact ⟨n, rfl, hboundary', hn, hboundary'.position_le⟩

theorem next?_beyond {t : Token} (hle : l.source.utf8ByteSize ≤ l.position)
    (h : l.next? = some (t, l')) : t = .eof (l.spanOf 0) ∧ l' = l := by
  cases (next?_of_atEnd (atEnd_iff.2 hle)).symm.trans h
  exact ⟨rfl, rfl⟩

theorem OnBoundary.next? {t : Token} (h : l.OnBoundary) (hnext : l.next? = some (t, l')) :
    l'.OnBoundary := by
  obtain hlt | hle := Nat.lt_or_ge l.position l.source.utf8ByteSize
  · obtain ⟨n, -, h', -⟩ := next?_inside hlt hnext
    exact h'
  · obtain ⟨-, rfl⟩ := next?_beyond hle hnext
    exact h

theorem OnBoundary.drain? {ts : List Token} (h : l.OnBoundary) (hdrain : l.drain? = some (ts, l')) :
    l'.OnBoundary := by
  obtain ⟨cs, hcs⟩ := onBoundary_iff.1 h
  rw [Lexer.drain?, unread?_of_remainder? hcs] at hdrain
  cases hdrain
  exact onBoundary_pass hcs

namespace Operation

variable {α : Type}

/-- Where an operation fails. Reading does not look at the source once its end is reached. -/
def FailsAt (l : Lexer) : Operation α → Prop
  | .next | .element | .collect => l.position < l.source.utf8ByteSize ∧ ¬ l.OnBoundary
  | .character | .remainder => l.source.utf8ByteSize < l.position ∨ ¬ l.OnBoundary
  | .atEnd | .spanOf _ | .skip _ => False

def IsSkip : Operation α → Prop
  | .skip _ => True
  | _ => False

end Operation

def outcome (l : Lexer) {α : Type} : Operation α → Option (α × Lexer)
  | .next => l.next?
  | .element => l.next?.map (·.map element id)
  | .collect => l.drain?
  | .character => l.character?.map (·, l)
  | .remainder => l.remainder?.map (·, l)
  | .atEnd => some (l.atEnd, l)
  | .spanOf length => some (l.spanOf length, l)
  | .skip n => some ((), l.skip n)

variable {α : Type}

theorem performs_iff (op : Operation α) {o : Option (α × Lexer)} :
    l.Performs op o ↔ o = l.outcome op := by
  cases op with
  | next => exact reads_iff
  | element => exact readsElement_iff
  | collect => exact collects_iff
  | _ => exact Iff.rfl

theorem outcome_eq_none_iff (op : Operation α) : l.outcome op = none ↔ op.FailsAt l := by
  have hbeyond : l.source.utf8ByteSize < l.position → ¬ l.OnBoundary :=
    fun hlt h => Nat.not_lt.2 h.position_le hlt
  cases op with
  | next => simp [outcome, next?, Operation.FailsAt, unread?_eq_none_iff]
  | element => simp [outcome, next?, Operation.FailsAt, unread?_eq_none_iff]
  | collect => simp [outcome, drain?, Operation.FailsAt, unread?_eq_none_iff]
  | character =>
    simpa [outcome, character?, Operation.FailsAt, remainder?_eq_none_iff] using hbeyond
  | remainder => simpa [outcome, Operation.FailsAt, remainder?_eq_none_iff] using hbeyond
  | atEnd | spanOf | skip => simp [outcome, Operation.FailsAt]

theorem OnBoundary.outcome {op : Operation α} {a : α} (h : l.OnBoundary) (hskip : ¬ op.IsSkip)
    (hop : l.outcome op = some (a, l')) : l'.OnBoundary := by
  cases op with
  | next => exact h.next? hop
  | element =>
    obtain ⟨⟨t, u⟩, hnext, hu⟩ := Option.map_eq_some_iff.1 hop
    cases hu
    exact h.next? hnext
  | collect => exact h.drain? hop
  | character | remainder =>
    obtain ⟨a, -, ha⟩ := Option.map_eq_some_iff.1 hop
    cases ha
    exact h
  | atEnd | spanOf =>
    cases hop
    exact h
  | skip => exact absurd trivial hskip

def Step (l l' : Lexer) : Prop :=
  ∃ (α : Type) (op : Operation α) (a : α), ¬ op.IsSkip ∧ l.Performs op (some (a, l'))

theorem OnBoundary.not_failsAt (h : l.OnBoundary) (op : Operation α) : ¬ op.FailsAt l := by
  cases op with
  | next | element | collect => exact fun hfails => hfails.2 h
  | character | remainder =>
    rintro (hlt | hoff)
    · exact Nat.not_lt.2 h.position_le hlt
    · exact hoff h
  | atEnd | spanOf | skip => exact id

theorem onBoundary_of_steps (h : l.OnBoundary) (hsteps : Relation.ReflTransGen Step l l') :
    l'.OnBoundary := by
  induction hsteps with
  | refl => exact h
  | tail _ hstep ih =>
    obtain ⟨α, op, a, hskip, hop⟩ := hstep
    exact ih.outcome hskip ((performs_iff op).1 hop).symm

theorem onBoundary_ofSource (source : String) (file : Option String) :
    (ofSource source file).OnBoundary :=
  onBoundary_iff.2 ⟨source.toList, dropBytes?_zero _⟩

end Lexer

/-- Wherever the cursor of a lexer was left, each operation comes to one end. It fails exactly off
the boundaries of the source, and reading does so only before its end. If it does not fail there, it
moves on to a boundary; at the end or beyond it gives the end token and stays. So no operation fails
on a lexer that was never moved by hand. -/
theorem operations_fail_off_boundary :
    (∀ (l : Lexer) (α : Type) (op : Lexer.Operation α),
      (∃! o, l.Performs op o) ∧ (l.Performs op none ↔ op.FailsAt l)) ∧
    (∀ (l l' : Lexer) (t : Token), l.Reads (some (t, l')) →
      (l.position < l.source.utf8ByteSize → ∃ n, l' = { l with position := n } ∧ l'.OnBoundary ∧
        l.position < n ∧ n ≤ l.source.utf8ByteSize) ∧
      (l.source.utf8ByteSize ≤ l.position → t = .eof (l.spanOf 0) ∧ l' = l)) ∧
    ∀ (source : String) (file : Option String) (l : Lexer),
      Relation.ReflTransGen Lexer.Step (.ofSource source file) l →
        ∀ (α : Type) (op : Lexer.Operation α), ¬ l.Performs op none := by
  refine ⟨fun l α op => ⟨⟨l.outcome op, ?_, ?_⟩, ?_⟩, fun l l' t ht => ⟨?_, ?_⟩, ?_⟩
  · exact (Lexer.performs_iff op).2 rfl
  · exact fun o ho => (Lexer.performs_iff op).1 ho
  · rw [Lexer.performs_iff, ← Lexer.outcome_eq_none_iff, eq_comm]
  · exact fun hlt => Lexer.next?_inside hlt (Lexer.reads_iff.1 ht).symm
  · exact fun hle => Lexer.next?_beyond hle (Lexer.reads_iff.1 ht).symm
  · intro source file l hsteps α op hop
    have h := Lexer.onBoundary_of_steps (Lexer.onBoundary_ofSource source file) hsteps
    rw [Lexer.performs_iff, eq_comm, Lexer.outcome_eq_none_iff] at hop
    exact h.not_failsAt op hop

theorem operations_fail_off_boundary_inside :
    let l (position : Nat) : Lexer := ⟨"\u00e9", "shell", position⟩
    (l 1).Performs .next none ∧ (l 1).Performs .collect none ∧ (l 3).Performs .character none ∧
      ¬ (l 3).Performs .next none ∧ ∃! o, (l 3).Performs .collect o := by
  intro l
  have hoff : ∀ n ∈ [1, 3], ¬ (l n).OnBoundary := by
    intro n hn
    rw [← Lexer.remainder?_eq_none_iff]
    revert n
    decide
  refine ⟨?_, ?_, ?_, ?_, (operations_fail_off_boundary.1 (l 3) _ .collect).1⟩
  · exact (operations_fail_off_boundary.1 (l 1) _ .next).2.2 ⟨by decide, hoff 1 (by simp)⟩
  · exact (operations_fail_off_boundary.1 (l 1) _ .collect).2.2 ⟨by decide, hoff 1 (by simp)⟩
  · exact (operations_fail_off_boundary.1 (l 3) _ .character).2.2 (.inr (hoff 3 (by simp)))
  · intro hfault
    obtain ⟨hlt, -⟩ := (operations_fail_off_boundary.1 (l 3) _ .next).2.1 hfault
    exact absurd hlt (by decide)

end FrontEnd
