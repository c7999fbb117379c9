import TableStore.Proofs.Statement.Expression

namespace TableStore.Phrase

variable {α β : Type}

theorem bind_congr_run {p q : Phrase α} {f g : α → Phrase β} {tokens : List Token}
    (h : p tokens = q tokens) (hf : ∀ a rest, q tokens = .ok (a, rest) → f a rest = g a rest) :
    (p >>= f) tokens = (q >>= g) tokens := by
  rw [run_bind, run_bind, h]
  cases hrun : q tokens with
  | error e => rfl
  | ok found => exact hf found.1 found.2 hrun

theorem length_le_of_operandWithin {fuel : Nat} {tokens rest : List Token} {e : Expr}
    (h : operandWithin fuel tokens = .ok (e, rest)) : rest.length ≤ tokens.length := by
  obtain ⟨front, rfl, -⟩ := (within_sound fuel).2.1 tokens e rest h
  simp

/-- Two units of fuel for each token and two more are enough, and more of it makes no difference. -/
theorem within_enough (fuel : Nat) :
    (∀ fuel' tokens, 2 * tokens.length + 2 ≤ fuel → 2 * tokens.length + 2 ≤ fuel' →
      expressionWithin fuel tokens = expressionWithin fuel' tokens) ∧
    (∀ fuel' tokens, 2 * tokens.length + 1 ≤ fuel → 2 * tokens.length + 1 ≤ fuel' →
      operandWithin fuel tokens = operandWithin fuel' tokens) ∧
    ∀ fuel' left tokens, 2 * tokens.length + 1 ≤ fuel → 2 * tokens.length + 1 ≤ fuel' →
      chainWithin fuel left tokens = chainWithin fuel' left tokens := by
  induction fuel with
  | zero => exact ⟨fun _ _ h ↦ by omega, fun _ _ h ↦ by omega, fun _ _ _ h ↦ by omega⟩
  | succ fuel ih =>
    obtain ⟨hexpression, hoperand, hchain⟩ := ih
    refine ⟨fun fuel' tokens h h' ↦ ?_, fun fuel' tokens h h' ↦ ?_, fun fuel' left tokens h h' ↦ ?_⟩
    all_goals obtain ⟨fuel', rfl⟩ : ∃ less, fuel' = less + 1 := ⟨fuel' - 1, by omega⟩
    · rw [expressionWithin, expressionWithin]
      refine bind_congr_run (hoperand fuel' tokens (by omega) (by omega)) fun e rest hrun ↦ ?_
      have hrest := length_le_of_operandWithin hrun
      exact hchain fuel' e rest (by omega) (by omega)
    · rw [operandWithin, operandWithin, run_current_bind, run_current_bind]
      cases tokens with
      | nil => rfl
      | cons t ts =>
        rw [List.length_cons] at h h'
        have hnested := hexpression fuel' ts (by omega) (by omega)
        rw [List.headD_cons]
        split
        · rw [run_advance_bind, run_advance_bind]
          exact bind_congr_run hnested fun _ _ _ ↦ rfl
        · rw [run_advance_bind, run_advance_bind]
          exact bind_congr_run hnested fun _ _ _ ↦ rfl
        · rfl
        · rfl
    · rw [chainWithin, chainWithin, run_current_bind, run_current_bind]
      cases tokens with
      | nil => rfl
      | cons t ts =>
        rw [List.length_cons] at h h'
        rw [List.headD_cons]
        cases operator? t with
        | none => rfl
        | some op =>
          dsimp only
          rw [run_advance_bind, run_advance_bind, List.tail_cons]
          refine bind_congr_run (hoperand fuel' ts (by omega) (by omega)) fun e rest hrun ↦ ?_
          have hrest := length_le_of_operandWithin hrun
          exact hchain fuel' _ rest (by omega) (by omega)

/-- A phrase to which the end of these tokens is that of the input. Tokens after it are left where they
are and make no difference. The phrase takes some of the tokens before it, or expects something else. Only
one that ran out of steps would expect nothing. -/
structure Stops (p : Phrase α) (tokens : List Token) : Prop where
  run : ∀ more, p (tokens ++ .endOfInput :: more) =
    (p tokens).map fun found ↦ (found.1, found.2 ++ .endOfInput :: more)
  rest : ∀ {a rest}, p tokens = .ok (a, rest) → rest <:+ tokens
  expects : ∀ {e}, p tokens = .error e → e.expected ≠ []

/-- A phrase that stops at the end of all tokens whose first one has a property. -/
def StopsAt (first : Token → Prop) (p : Phrase α) : Prop :=
  ∀ tokens, first (tokens.headD .endOfInput) → p.Stops tokens

def Barred (p : Phrase α) : Prop := p.StopsAt fun _ ↦ True

section

variable {p : Phrase α} {f : α → Phrase β} {tokens : List Token}

theorem headD_append_end (tokens more : List Token) :
    (tokens ++ .endOfInput :: more).headD .endOfInput = tokens.headD .endOfInput := by
  cases tokens <;> rfl

namespace Stops

theorem pure (a : α) (tokens : List Token) : (Pure.pure a : Phrase α).Stops tokens where
  run _ := rfl
  rest hrun := (run_pure_eq_ok.mp hrun).2 ▸ List.suffix_refl _
  expects := nofun

theorem throw {e : SyntaxError} (h : e.expected ≠ []) (tokens : List Token) :
    (MonadExcept.throw e : Phrase α).Stops tokens where
  run _ := rfl
  rest := nofun
  expects hrun := Except.error.inj hrun ▸ h

theorem unexpected {expected : List Expectation} (h : expected ≠ []) (tokens : List Token) :
    (Phrase.unexpected expected : Phrase α).Stops tokens where
  run more := by
    rw [run_unexpected, run_unexpected, headD_append_end]
    rfl
  rest := nofun
  expects hrun := Except.error.inj hrun ▸ h

theorem bind (h : p.Stops tokens) (hf : ∀ a rest, p tokens = .ok (a, rest) → (f a).Stops rest) :
    (p >>= f).Stops tokens := by
  refine ⟨fun more ↦ ?_, fun hboth ↦ ?_, fun hboth ↦ ?_⟩
  · rw [run_bind, run_bind, h.run]
    cases hp : p tokens with
    | error e => rfl
    | ok found => exact (hf found.1 found.2 hp).run more
  · obtain ⟨a, middle, hp, hboth⟩ := run_bind_eq_ok.mp hboth
    exact ((hf a middle hp).rest hboth).trans (h.rest hp)
  · rcases bind_eq_error.mp hboth with hp | ⟨⟨a, middle⟩, hp, hboth⟩
    · exact h.expects hp
    · exact (hf a middle hp).expects hboth

theorem map (h : p.Stops tokens) (g : α → β) : (p >>= fun a ↦ Pure.pure (g a)).Stops tokens :=
  h.bind fun _ _ _ ↦ .pure _ _

theorem current_bind {f : Token → Phrase β} (h : (f (tokens.headD .endOfInput)).Stops tokens) :
    (current >>= f).Stops tokens where
  run more := by
    rw [run_current_bind, headD_append_end]
    exact h.run more
  rest := h.rest
  expects := h.expects

theorem advance_bind {f : Unit → Phrase β} (h : (f ()).Stops tokens) (t : Token) :
    (advance >>= f).Stops (t :: tokens) where
  run := h.run
  rest hrun := (h.rest hrun).trans (List.suffix_cons t tokens)
  expects := h.expects

end Stops

namespace StopsAt

variable {first : Token → Prop}

theorem pure (a : α) : (Pure.pure a : Phrase α).StopsAt first := fun tokens _ ↦ .pure a tokens

theorem throw {e : SyntaxError} (h : e.expected ≠ []) :
    (MonadExcept.throw e : Phrase α).StopsAt first :=
  fun tokens _ ↦ .throw h tokens

theorem unexpected {expected : List Expectation} (h : expected ≠ []) :
    (Phrase.unexpected expected : Phrase α).StopsAt first :=
  fun tokens _ ↦ .unexpected h tokens

theorem current_bind {f : Token → Phrase β} (hf : ∀ t, first t → (f t).StopsAt (· = t)) :
    (current >>= f).StopsAt first :=
  fun tokens hfirst ↦ .current_bind (hf _ hfirst tokens rfl)

theorem advance_bind {t : Token} (ht : t ≠ .endOfInput) {f : Unit → Phrase β} (hf : (f ()).Barred) :
    (advance >>= f).StopsAt (· = t) := by
  intro tokens hfirst
  cases tokens with
  | nil => exact absurd hfirst.symm ht
  | cons t' ts => exact .advance_bind (hf ts trivial) t'

theorem advance {t : Token} (ht : t ≠ .endOfInput) : Phrase.advance.StopsAt (· = t) :=
  advance_bind ht (pure ())

end StopsAt

end

def openConstraints (column : ColumnDefinition) : Nat :=
  (!column.primaryKey).toNat + (!column.unique).toNat + column.nullability.isNone.toNat

theorem Barred.at {p : Phrase α} (h : p.Barred) (first : Token → Prop) : p.StopsAt first :=
  fun tokens _ ↦ h tokens trivial

namespace Barred

variable {p : Phrase α} {f : α → Phrase β}

theorem pure (a : α) : (Pure.pure a : Phrase α).Barred := StopsAt.pure a

theorem bind (h : p.Barred) (hf : ∀ a, (f a).Barred) : (p >>= f).Barred :=
  fun tokens _ ↦ (h tokens trivial).bind fun a rest _ ↦ hf a rest trivial

theorem map (h : p.Barred) (g : α → β) : (p >>= fun a ↦ Pure.pure (g a)).Barred :=
  h.bind fun _ ↦ .pure _

theorem consume {t : Token} (ht : t ≠ .endOfInput) : (Phrase.consume t).Barred := by
  refine StopsAt.current_bind fun t' _ ↦ ?_
  split
  · rename_i heq
    exact .advance (heq ▸ ht)
  · exact .unexpected (by simp)

theorem accept {t : Token} (ht : t ≠ .endOfInput) : (Phrase.accept t).Barred := by
  refine StopsAt.current_bind fun t' _ ↦ ?_
  split
  · rename_i heq
    exact .advance_bind (heq ▸ ht) (pure true)
  · exact .pure false

theorem keyword (k : Keyword) : (Phrase.keyword k).Barred := consume (by simp)

theorem symbol (s : Symbol) : (Phrase.symbol s).Barred := consume (by simp)

theorem identifier : Phrase.identifier.Barred := by
  refine StopsAt.current_bind fun t _ ↦ ?_
  split
  · exact .advance_bind (by simp) (pure _)
  · exact .unexpected (by simp)

theorem dataType : Phrase.dataType.Barred := by
  refine StopsAt.current_bind fun t _ ↦ ?_
  split
  · rename_i type htype
    refine .advance_bind ?_ (pure _)
    rintro rfl
    cases htype
  · exact .unexpected (by simp)

theorem negative : Phrase.negative.Barred := by
  refine StopsAt.current_bind fun t _ ↦ ?_
  split
  · split
    · exact .advance_bind (by simp) (pure _)
    · exact .throw (by simp)
  · exact .advance_bind (by simp) (pure _)
  · exact .unexpected (by simp)

theorem literal : Phrase.literal.Barred := by
  refine StopsAt.current_bind fun t _ ↦ ?_
  split
  · split
    · exact .advance_bind (by simp) (pure _)
    · exact .throw (by simp)
  · exact .advance_bind (by simp) (pure _)
  · exact .advance_bind (by simp) (pure _)
  · exact .advance_bind (by simp) (pure _)
  · exact .advance_bind (by simp) (pure _)
  · exact .advance_bind (by simp) (pure _)
  · exact .advance_bind (by simp) negative
  · exact .unexpected (by simp)

theorem within (fuel : Nat) :
    (∀ tokens : List Token, 2 * tokens.length + 2 ≤ fuel →
      (expressionWithin fuel).Stops tokens) ∧
    (∀ tokens : List Token, 2 * tokens.length + 1 ≤ fuel → (operandWithin fuel).Stops tokens) ∧
    ∀ left (tokens : List Token), 2 * tokens.length + 1 ≤ fuel →
      (chainWithin fuel left).Stops tokens := by
  induction fuel with
  | zero => exact ⟨fun _ h ↦ by omega, fun _ h ↦ by omega, fun _ _ h ↦ by omega⟩
  | succ fuel ih =>
    obtain ⟨hexpression, hoperand, hchain⟩ := ih
    refine ⟨fun tokens h ↦ ?_, fun tokens h ↦ ?_, fun left tokens h ↦ ?_⟩
    · rw [expressionWithin]
      have hfirst := hoperand tokens (by omega)
      refine hfirst.bind fun e rest hrun ↦ hchain e rest ?_
      have hlength := (hfirst.rest hrun).length_le
      omega
    · rw [operandWithin]
      refine .current_bind ?_
      cases tokens with
      | nil => exact .unexpected (by simp) _
      | cons t ts =>
        rw [List.length_cons] at h
        have hnested := hexpression ts (by omega)
        rw [List.headD_cons]
        split
        · exact .advance_bind (hnested.map _) _
        · refine .advance_bind (hnested.bind fun inner rest _ ↦ ?_) _
          exact (map (symbol .rightParen) _) rest trivial
        · refine .advance_bind ?_ _
          exact .pure _ _
        · split
          · exact (map literal _) (t :: ts) trivial
          · exact .unexpected (by simp) _
    · rw [chainWithin]
      refine .current_bind ?_
      cases tokens with
      | nil => exact .pure _ _
      | cons t ts =>
        rw [List.length_cons] at h
        rw [List.headD_cons]
        split
        · exact .pure _ _
        · have hright := hoperand ts (by omega)
          refine .advance_bind (hright.bind fun e rest hrun ↦ hchain _ rest ?_) _
          have hlength := (hright.rest hrun).length_le
          omega

theorem expression : Phrase.expression.Barred := by
  intro tokens _
  obtain ⟨hrun, hrest, hexpects⟩ := (within (2 * tokens.length + 2)).1 tokens (Nat.le_refl _)
  refine ⟨fun more ↦ ?_, hrest, hexpects⟩
  have hlength : tokens.length ≤ (tokens ++ .endOfInput :: more).length := by simp
  have hstops := (within (2 * (tokens ++ .endOfInput :: more).length + 2)).1 tokens (by omega)
  rw [Phrase.expression, hstops.run,
    (within_enough _).1 (2 * tokens.length + 2) tokens (by omega) (by omega)]
  rfl

/-- One unit of fuel for each token and one more are enough, since each item but the last takes a
comma. -/
theorem separatedWithin_enough {item : Phrase α} (h : item.Barred) (fuel fuel' : Nat)
    (tokens : List Token) (hfuel : tokens.length + 1 ≤ fuel) (hfuel' : tokens.length + 1 ≤ fuel') :
    Phrase.separatedWithin item fuel tokens = Phrase.separatedWithin item fuel' tokens := by
  induction fuel generalizing fuel' tokens with
  | zero => omega
  | succ fuel ih =>
    obtain ⟨fuel', rfl⟩ : ∃ less, fuel' = less + 1 := ⟨fuel' - 1, by omega⟩
    rw [Phrase.separatedWithin, Phrase.separatedWithin]
    refine bind_congr_run rfl fun first middle hfirst ↦ ?_
    refine bind_congr_run rfl fun found rest hfound ↦ ?_
    rcases acceptSymbol_eq_ok.mp hfound with ⟨rfl, rfl, -⟩ | ⟨rfl, -, -⟩
    · have hlength := ((h tokens trivial).rest hfirst).length_le
      rw [List.length_cons] at hlength
      exact bind_congr_run (ih fuel' rest (by omega) (by omega)) fun _ _ _ ↦ rfl
    · rfl

theorem separatedWithin {item : Phrase α} (h : item.Barred) (fuel : Nat) (tokens : List Token)
    (hfuel : tokens.length + 1 ≤ fuel) : (Phrase.separatedWithin item fuel).Stops tokens := by
  induction fuel generalizing tokens with
  | zero => omega
  | succ fuel ih =>
    rw [Phrase.separatedWithin]
    refine (h tokens trivial).bind fun first middle hfirst ↦ ?_
    refine (accept (by simp) middle trivial).bind fun found rest hfound ↦ ?_
    rcases acceptSymbol_eq_ok.mp hfound with ⟨rfl, rfl, -⟩ | ⟨rfl, -, -⟩
    · have hlength := ((h tokens trivial).rest hfirst).length_le
      rw [List.length_cons] at hlength
      exact (ih rest (by omega)).map _
    · exact .pure _ _

theorem separated {item : Phrase α} (h : item.Barred) : (Phrase.separated item).Barred := by
  intro tokens _
  obtain ⟨hrun, hrest, hexpects⟩ := separatedWithin h (tokens.length + 1) tokens (Nat.le_refl _)
  refine ⟨fun more ↦ ?_, hrest, hexpects⟩
  have hlength : tokens.length ≤ (tokens ++ .endOfInput :: more).length := by simp
  have hstops := separatedWithin h ((tokens ++ .endOfInput :: more).length + 1) tokens (by omega)
  rw [Phrase.separated, hstops.run,
    separatedWithin_enough h _ (tokens.length + 1) tokens (by omega) (by omega)]
  rfl

theorem parenthesized (h : p.Barred) : (Phrase.parenthesized p).Barred :=
  bind (symbol .leftParen) fun _ ↦ bind h fun _ ↦ map (symbol .rightParen) _

theorem condition : Phrase.condition.Barred := by
  refine bind (accept (by simp)) fun found ↦ ?_
  split
  · exact map expression _
  · exact pure _

theorem newName : Phrase.newName.Barred := by
  refine StopsAt.current_bind fun t _ ↦ ?_
  split
  · exact .advance_bind (by simp) (map identifier _)
  · exact .advance_bind (by simp) (pure _)
  · exact .pure _

theorem selectItem : Phrase.selectItem.Barred := bind identifier fun _ ↦ map newName _

theorem selection : Phrase.selection.Barred := by
  refine StopsAt.current_bind fun t _ ↦ ?_
  split
  · exact .advance_bind (by simp) (pure _)
  · exact (map (separated selectItem) _).at _
  · exact .unexpected (by simp)

theorem columnList : Phrase.columnList.Barred := by
  refine StopsAt.current_bind fun t _ ↦ ?_
  split
  · exact (map (parenthesized (separated identifier)) _).at _
  · exact .pure _

/-- Each constraint that is read is one less to come, so that fuel for one more is enough. -/
theorem constraints (fuel : Nat) (column : ColumnDefinition) (h : openConstraints column < fuel) :
    (Phrase.constraints fuel column).Barred := by
  induction fuel generalizing column with
  | zero => omega
  | succ fuel ih =>
    rw [Phrase.constraints]
    refine StopsAt.current_bind fun t _ ↦ ?_
    split
    · rename_i hprimary
      have hless : openConstraints { column with primaryKey := true } < fuel := by
        simp [openConstraints, hprimary.2] at h ⊢
        omega
      exact .advance_bind (hprimary.1 ▸ nofun) (bind (keyword .key) fun _ ↦ ih _ hless)
    split
    · rename_i hunique
      have hless : openConstraints { column with unique := true } < fuel := by
        simp [openConstraints, hunique.2] at h ⊢
        omega
      exact .advance_bind (hunique.1 ▸ nofun) (ih _ hless)
    split
    · rename_i hnull
      have hless : openConstraints { column with nullability := some .null } < fuel := by
        simp [openConstraints, hnull.2] at h ⊢
        omega
      exact .advance_bind (hnull.1 ▸ nofun) (ih _ hless)
    split
    · rename_i hnot
      have hless : openConstraints { column with nullability := some .notNull } < fuel := by
        simp [openConstraints, hnot.2] at h ⊢
        omega
      exact .advance_bind (hnot.1 ▸ nofun) (bind (keyword .null) fun _ ↦ ih _ hless)
    split
    · exact .pure column
    · exact .unexpected (by simp [columnExpectations])

theorem columnDefinition : Phrase.columnDefinition.Barred :=
  bind identifier fun _ ↦ bind dataType fun _ ↦ constraints 4 _ (by simp [openConstraints])

theorem change : Phrase.change.Barred :=
  bind identifier fun _ ↦ bind (symbol .equal) fun _ ↦ map literal _

theorem select : Phrase.select.Barred := by
  refine bind (keyword .select) fun _ ↦ bind (accept (by simp)) fun distinct ↦ ?_
  refine bind selection fun selection ↦ bind (keyword .from) fun _ ↦ ?_
  exact bind identifier fun table ↦ map condition _

theorem insert : Phrase.insert.Barred := by
  refine bind (keyword .insert) fun _ ↦ bind (keyword .into) fun _ ↦ bind identifier fun table ↦ ?_
  refine bind columnList fun columns ↦ bind (keyword .values) fun _ ↦ ?_
  exact map (parenthesized (separated literal)) _

theorem createTable : Phrase.createTable.Barred := by
  refine bind (keyword .create) fun _ ↦ bind (keyword .table) fun _ ↦ bind identifier fun table ↦ ?_
  exact map (parenthesized (separated columnDefinition)) _

theorem update : Phrase.update.Barred := by
  refine bind (keyword .update) fun _ ↦ bind identifier fun table ↦ bind (keyword .set) fun _ ↦ ?_
  exact bind (separated change) fun changes ↦ map condition _

theorem delete : Phrase.delete.Barred := by
  refine bind (keyword .delete) fun _ ↦ bind (keyword .from) fun _ ↦ bind identifier fun table ↦ ?_
  exact map condition _

theorem dropTable : Phrase.dropTable.Barred :=
  bind (keyword .drop) fun _ ↦ bind (keyword .table) fun _ ↦ map identifier _

theorem body : Phrase.body.Barred := by
  refine StopsAt.current_bind fun t _ ↦ ?_
  split
  · exact select.at _
  · exact insert.at _
  · exact createTable.at _
  · exact update.at _
  · exact delete.at _
  · exact dropTable.at _
  · exact .unexpected (by simp)

theorem endOfInput : Phrase.endOfInput.Barred := by
  refine StopsAt.current_bind fun t _ ↦ ?_
  split
  · exact .pure ()
  · exact .unexpected (by simp)

theorem statement : Phrase.statement.Barred :=
  bind body fun _ ↦ bind (accept (by simp)) fun _ ↦ map endOfInput _

end Barred

end TableStore.Phrase
