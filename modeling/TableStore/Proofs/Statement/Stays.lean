import TableStore.Proofs.Statement.Barrier

namespace TableStore.Phrase

variable {α : Type}

/-- A phrase that reads no further than the end of the input. Tokens after that are left where they are
and make no difference. -/
structure Ends (p : Phrase α) (tokens : List Token) : Prop where
  run : ∀ more, p (tokens ++ more) = (p tokens).map fun found ↦ (found.1, found.2 ++ more)
  rest : ∀ {a rest}, p tokens = .ok (a, rest) → rest.getLast? = some .endOfInput ∧ rest <:+ tokens

/-- A phrase that ends before the end of the input, when it starts at a token with a property. -/
def StaysAt (first : Token → Prop) (p : Phrase α) : Prop :=
  ∀ tokens, tokens.getLast? = some .endOfInput → first (tokens.headD .endOfInput) → p.Ends tokens

def Stays (p : Phrase α) : Prop := p.StaysAt fun _ ↦ True

theorem Barred.stays {p : Phrase α} (h : p.Barred) : p.Stays := by
  intro tokens hend _
  obtain ⟨front, rfl⟩ := List.getLast?_eq_some_iff.mp hend
  obtain ⟨hrun, hrest, -⟩ := h front trivial
  refine ⟨fun more ↦ ?_, fun hfound ↦ ?_⟩
  · rw [List.append_assoc, List.singleton_append, hrun, hrun]
    cases p front with
    | error e => rfl
    | ok found => simp
  · rw [hrun] at hfound
    obtain ⟨⟨a, rest⟩, hfront, hfound⟩ := map_eq_ok.mp hfound
    obtain ⟨rfl, rfl⟩ := Prod.mk.inj hfound
    obtain ⟨before, rfl⟩ := hrest hfront
    exact ⟨List.getLast?_concat, before, by rw [List.append_assoc]⟩

theorem Stays.statement : Phrase.statement.Stays := Barred.statement.stays

end TableStore.Phrase
