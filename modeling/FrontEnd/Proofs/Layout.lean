import FrontEnd.Parse.Program
import FrontEnd.Proofs.Scanning
import FrontEnd.Proofs.Simulation

namespace FrontEnd

/-- The tokens with the same index in two lists. -/
def SameIndex (ts us : List Token) (t u : Token) : Prop :=
  ∃ i : Nat, ts[i]? = some t ∧ us[i]? = some u

def Program.Related (R : Token → Token → Prop) (p q : Program) : Prop :=
  Stmt.RelatedList R p.statements q.statements

theorem kind_text_of_sameIndex {ts us : List Token} (h : ts.map Token.bare = us.map Token.bare)
    {t u : Token} (htu : SameIndex ts us t u) : t.kind = u.kind ∧ t.text = u.text := by
  obtain ⟨i, ht, hu⟩ := htu
  have hbare : t.bare = u.bare := by
    have hi := congrArg (·[i]?) h
    simpa [ht, hu] using hi
  exact ⟨by rw [← t.kind_bare, hbare, u.kind_bare], by rw [← t.text_bare, hbare, u.text_bare]⟩

theorem alike_ofSource {source source' : String} {file file' : Option String}
    (h : (tokenize source file).length = (tokenize source' file').length) :
    State.Alike (SameIndex (tokenize source file) (tokenize source' file')) [] []
      (.ofSource source file) (.ofSource source' file') := by
  let s := State.ofSource source file
  let s' := State.ofSource source' file'
  have hts : tokenize source file = s.rest ++ [.eof s.ending] := rfl
  have hus : tokenize source' file' = s'.rest ++ [.eof s'.ending] := rfl
  have hlen : s.rest.length = s'.rest.length := by simpa [hts, hus] using h
  rw [hts, hus]
  refine ⟨List.forall₂_iff_get.2 ⟨hlen, fun i hi hi' => ⟨i, ?_, ?_⟩⟩, ⟨s.rest.length, ?_, ?_⟩,
    [], [], rfl, rfl, .nil⟩
  · rw [List.getElem?_append_left hi]
    exact List.getElem?_eq_getElem hi
  · rw [List.getElem?_append_left hi']
    exact List.getElem?_eq_getElem hi'
  · exact List.getElem?_concat_length
  · rw [hlen]
    exact List.getElem?_concat_length

/-- Two sources with the same kinds and texts of tokens have programs of one shape, with tokens of
the same index in the same places, and the same errors at tokens of the same index. -/
theorem parse_sameIndex (source source' : String) (file file' : Option String)
    (h : (tokenize source file).map Token.bare = (tokenize source' file').map Token.bare) :
    let R := SameIndex (tokenize source file) (tokenize source' file')
    (parse source file).1.Related R (parse source' file').1 ∧
      List.Forall₂ (SyntaxError.Related R) (parse source file).2 (parse source' file').2 := by
  intro R
  have hlen : (tokenize source file).length = (tokenize source' file').length := by
    simpa using congrArg List.length h
  have L : Parse.Likeness .standard .standard R :=
    .of_kind_text .standard fun _ _ => kind_text_of_sameIndex h
  have C := Parse.Simulates.congruence [] [] L
  obtain ⟨hss, hs⟩ :=
    Parse.Simulates.statements L (C.statement (C.expression maxNesting)) (alike_ofSource hlen)
  obtain ⟨es, es', hes, hes', hrel⟩ := hs.diagnostics
  have hparse : (parse source file).2 = es := hes
  have hparse' : (parse source' file').2 = es' := hes'
  rw [hparse, hparse']
  exact ⟨Stmt.relatedList_of_forall₂ hss, hrel⟩

theorem parse_sameIndex_lines :
    let source := "if(a)\x7b-b\x7delse\x7bf(1)\x7dlet=5"
    let source' := "if (a) \x7b\n\t-b\n\x7d else \x7b\n\tf( 1 )\n\x7d\nlet = 5\n"
    let R := SameIndex (tokenize source (some "one")) (tokenize source' none)
    (tokenize source (some "one")).map Token.bare = (tokenize source' none).map Token.bare ∧
      (parse source (some "one")).1.Related R (parse source' none).1 ∧
        List.Forall₂ (SyntaxError.Related R) (parse source (some "one")).2
          (parse source' none).2 := by
  intro source source' R
  have h : (tokenize source (some "one")).map Token.bare =
      (tokenize source' none).map Token.bare := by decide +kernel
  exact ⟨h, parse_sameIndex source source' (some "one") none h⟩

end FrontEnd
