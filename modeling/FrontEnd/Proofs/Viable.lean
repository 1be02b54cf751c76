import FrontEnd.Proofs.FirstError
import FrontEnd.Proofs.Sentences

namespace FrontEnd.Parse

open Grammar

variable {α β : Type} {p q : Parse α} {s : State} {front rest : List Token}
  {G H : List Token → List Token → Prop}

theorem current_append {s s' : State} {us us' : List Token}
    (h : (s'.on us').current = (s.on us).current) (ts : List Token) :
    (s'.on (ts ++ us')).current = (s.on (ts ++ us)).current := by
  cases ts with
  | nil => exact h
  | cons t ts => rfl

/-- The tokens begin what `G` describes, whatever it says of the tokens behind. -/
def Viable (G : List Token → List Token → Prop) (ts : List Token) : Prop :=
  ∃ more after, G (ts ++ more) after

theorem viable_of {ts : List Token} (after : List Token) (h : G ts after) : Viable G ts :=
  ⟨[], after, by rwa [List.append_nil]⟩

theorem Viable.mono {ts : List Token} (h : Viable G ts)
    (hgh : ∀ us after, G us after → H us after) : Viable H ts := by
  obtain ⟨more, after, hg⟩ := h
  exact ⟨more, after, hgh _ _ hg⟩

/-- From behind the tokens of `front` the parser reads what `G` describes, or it finds its first
error at a token behind a beginning of that. In both cases the other parser does the same wherever
it finds the same tokens up to the next one. -/
structure Obeys (p q : Parse α) (G : List Token → List Token → Prop) (s : State)
    (front rest : List Token) : Prop where
  viable : Viable G []
  errs {e : SyntaxError} : p.Errs (s.on (front ++ rest)) e → e.cause ≠ .tooDeep maxNesting →
    ∃ ts after, rest = ts ++ after ∧ e.position = (s.on after).current.position ∧ Viable G ts ∧
      ∀ (s' : State) after', (s'.on after').current = (s.on after).current →
        q.Errs (s'.on (front ++ (ts ++ after'))) e
  yields {a : α} {u : State} : p.Yields (s.on (front ++ rest)) a u →
    ∃ ts last after, rest = ts ++ after ∧ u = s.on (last :: after) ∧ G ts after ∧
      ∀ (s' : State) after', (s'.on after').current = (s.on after).current →
        q.Yields (s'.on (front ++ (ts ++ after'))) a (s'.on (last :: after'))

namespace Obeys

theorem mono (h : Obeys p q G s front rest) (hgh : ∀ ts after, G ts after → H ts after) :
    Obeys p q H s front rest where
  viable := h.viable.mono hgh
  errs he hd := by
    obtain ⟨ts, after, hr, hpos, hv, hq⟩ := h.errs he hd
    exact ⟨ts, after, hr, hpos, hv.mono hgh, hq⟩
  yields hy := by
    obtain ⟨ts, last, after, hr, hu, hg, hq⟩ := h.yields hy
    exact ⟨ts, last, after, hr, hu, hgh _ _ hg, hq⟩

/-- Parsers that agree with parsers of this kind, as long as the next token is the same. -/
theorem transport {p' q' : Parse α} {front' : List Token} (h : Obeys p q G s front rest)
    (hp : Agrees p' (s.on (front' ++ rest)) p (s.on (front ++ rest)))
    (hq : ∀ (s' : State) rest', (s'.on rest').current = (s.on rest).current →
      Agrees q' (s'.on (front' ++ rest')) q (s'.on (front ++ rest'))) :
    Obeys p' q' G s front' rest where
  viable := h.viable
  errs he hd := by
    obtain ⟨ts, after, rfl, hpos, hv, herrs⟩ := h.errs (hp.errs.1 he) hd
    exact ⟨ts, after, rfl, hpos, hv, fun s' after' hn =>
      (hq s' _ (current_append hn ts)).errs.2 (herrs s' after' hn)⟩
  yields hy := by
    obtain ⟨ts, last, after, rfl, hu, hg, hyields⟩ := h.yields (hp.yields.1 hy)
    exact ⟨ts, last, after, rfl, hu, hg, fun s' after' hn =>
      (hq s' _ (current_append hn ts)).yields.2 (hyields s' after' hn)⟩

theorem current {f g : Token → Parse α} {t : Token} (ht : (s.on (front ++ rest)).current = t)
    (h : Obeys (f t) (g t) G s front rest) :
    Obeys (Parse.current >>= f) (Parse.current >>= g) G s front rest := by
  refine h.transport (agrees_of_run ?_ rfl) fun s' rest' hn => agrees_of_run ?_ rfl
  · rw [run_bind, run_current, ht]
  · rw [run_bind, run_current, current_append hn, ht]

theorem peek {x : Token} {f g : Token → Parse α}
    (h : Obeys (f (s.on rest).current) (g (s.on rest).current) G s [x] rest) :
    Obeys (Parse.peek >>= f) (Parse.peek >>= g) G s [x] rest := by
  refine h.transport (agrees_of_run rfl rfl) fun s' rest' hn => agrees_of_run ?_ rfl
  rw [run_bind, run_peek, List.singleton_append, State.peek_on_cons, hn]

theorem advance {x : Token} {f g : Unit → Parse α} (h : Obeys (f ()) (g ()) G s [] rest) :
    Obeys (Parse.advance >>= f) (Parse.advance >>= g) G s [x] rest :=
  h.transport (agrees_of_run rfl rfl) fun _ _ _ => agrees_of_run rfl rfl

theorem push {t : Token} (h : Obeys p q (fun ts => G (t :: ts)) s [t] rest) :
    Obeys p q G s [] (t :: rest) where
  viable := by
    obtain ⟨more, after, hg⟩ := h.viable
    exact ⟨t :: more, after, hg⟩
  errs he hd := by
    obtain ⟨ts, after, rfl, hpos, hv, hq⟩ := h.errs he hd
    exact ⟨t :: ts, after, rfl, hpos, hv, hq⟩
  yields hy := by
    obtain ⟨ts, last, after, rfl, hu, hg, hq⟩ := h.yields hy
    exact ⟨t :: ts, last, after, rfl, hu, hg, hq⟩

theorem bind {f g : α → Parse β} (h : Obeys p q G s front rest)
    (hv : ∀ ts after, G ts after → Viable H ts)
    (k : ∀ a ts last after, rest = ts ++ after → G ts after →
      Obeys (f a) (g a) (fun us => H (ts ++ us)) s [last] after) :
    Obeys (p >>= f) (q >>= g) H s front rest where
  viable := by
    obtain ⟨ts, after, hg⟩ := h.viable
    obtain ⟨more, after', hh⟩ := hv _ _ hg
    exact ⟨ts ++ more, after', by simpa using hh⟩
  errs he hd := by
    obtain he | ⟨a, u, hy, he⟩ := errs_bind.1 he
    · obtain ⟨ts, after, rfl, hpos, ⟨more, after₀, hg⟩, hq⟩ := h.errs he hd
      obtain ⟨more', after₁, hh⟩ := hv _ _ hg
      refine ⟨ts, after, rfl, hpos, ⟨more ++ more', after₁, by simpa using hh⟩, ?_⟩
      exact fun s' after' hn => errs_bind.2 (.inl (hq s' after' hn))
    · obtain ⟨ts, last, after, rfl, rfl, hg, hq⟩ := h.yields hy
      obtain ⟨us, after, rfl, hpos, ⟨more, after₀, hh⟩, hq'⟩ :=
        (k a ts last after rfl hg).errs he hd
      refine ⟨ts ++ us, after, by simp, hpos, ⟨more, after₀, by simpa using hh⟩, ?_⟩
      intro s' after' hn
      rw [List.append_assoc ts]
      exact errs_bind.2 (.inr ⟨a, _, hq s' _ (current_append hn us), hq' s' after' hn⟩)
  yields hy := by
    obtain ⟨a, u, hy, hy'⟩ := yields_bind.1 hy
    obtain ⟨ts, last, after, rfl, rfl, hg, hq⟩ := h.yields hy
    obtain ⟨us, last', after, rfl, rfl, hh, hq'⟩ := (k a ts last after rfl hg).yields hy'
    refine ⟨ts ++ us, last', after, by simp, rfl, hh, ?_⟩
    intro s' after' hn
    rw [List.append_assoc ts]
    exact yields_bind.2 ⟨a, _, hq s' _ (current_append hn us), hq' s' after' hn⟩

/-- What the second part needs to go on is what the first one leaves, whatever comes next. -/
theorem seq [Nonempty α] {f g : α → Parse β} (h : Obeys p q G s front rest)
    (k : ∀ a ts last after, G ts after →
      Obeys (f a) (g a) (fun us => H (ts ++ us)) s [last] after) :
    Obeys (p >>= f) (q >>= g) H s front rest := by
  refine h.bind (fun ts after hg => ?_) fun a ts last after _ hg => k a ts last after hg
  obtain ⟨a⟩ := ‹Nonempty α›
  obtain ⟨more, after', hh⟩ := (k a ts (.eof s.ending) after hg).viable
  exact ⟨more, after', hh⟩

end Obeys

theorem obeys_pure {x : Token} {a : α} (h : G [] rest) : Obeys (pure a) (pure a) G s [x] rest where
  viable := viable_of rest h
  errs he _ := absurd he not_errs_pure
  yields hy := by
    obtain ⟨rfl, rfl⟩ := yields_pure.1 hy
    exact ⟨[], x, rest, rfl, rfl, h, fun s' after' _ => yields_pure.2 ⟨rfl, rfl⟩⟩

theorem obeys_fail {t : Token} (c : Cause) (hv : Viable G []) (ht : (s.on rest).current = t) :
    Obeys (fail c t.position : Parse α) (fail c t.position) G s [] rest where
  viable := hv
  errs he _ := by
    obtain rfl := errs_fail.1 he
    exact ⟨[], rest, rfl, by rw [ht], hv, fun s' after' _ => errs_fail.2 rfl⟩
  yields hy := absurd hy not_yields_fail

theorem obeys_refuse (hv : Viable G []) : Obeys (refuse : Parse α) refuse G s [] rest := by
  refine .current rfl ?_
  split
  · exact obeys_fail _ hv rfl
  · exact obeys_fail _ hv rfl

def sample (k : TokenKind) : Token := ⟨k, "", ⟨0, 0, ""⟩⟩

theorem Obeys.expectPeek {x : Token} {k : TokenKind} {f g : Token → Parse α} (hk : k ≠ .eof)
    (h : ∀ t more, t.kind = k → Obeys (f t) (g t) (fun ts => G (t :: ts)) s [t] more) :
    Obeys (expectPeek k >>= f) (expectPeek k >>= g) G s [x] rest := by
  by_cases hcur : (s.on rest).current.kind = k
  · obtain ⟨t, more, rfl, ht⟩ := State.eq_cons_of_current hcur hk
    have hstep {s' : State} {rest' : List Token} (hn : (s'.on rest').current = t)
        (f : Token → Parse α) :
        Agrees (Parse.expectPeek k >>= f) (s'.on ([x] ++ rest')) (f t) (s'.on ([] ++ rest')) := by
      have hpeek : (s'.on ([x] ++ rest')).peek = t := hn
      exact agrees_of_run
        (run_bind_ok (yields_expectPeek.2 ⟨by rw [hpeek, ht], hpeek.symm, rfl⟩).1 f) rfl
    exact (h t more ht).push.transport (hstep rfl f) fun s' rest' hn => hstep hn g
  · have hv : Viable G [] := by
      obtain ⟨more, after, hg⟩ := (h (sample k) [] rfl).viable
      exact ⟨sample k :: more, after, hg⟩
    refine ⟨hv, fun he _ => ?_, fun hy => ?_⟩
    · obtain ⟨-, rfl⟩ | ⟨hk', -⟩ := errs_expectPeek.1 he
      · refine ⟨[], rest, rfl, rfl, hv, fun s' after' hn => errs_expectPeek.2 (.inl ?_)⟩
        have hpeek : (s'.on ([x] ++ ([] ++ after'))).peek = (s.on rest).current := hn
        rw [hpeek]
        exact ⟨hcur, rfl⟩
      · exact absurd hk' hcur
    · obtain ⟨t, u, hy, -⟩ := yields_bind.1 hy
      exact absurd (yields_expectPeek.1 hy).1 hcur

end FrontEnd.Parse
