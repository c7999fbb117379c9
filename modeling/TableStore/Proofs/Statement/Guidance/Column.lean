import TableStore.Proofs.Statement.Guidance.List

namespace TableStore

namespace Constraint

def first : Constraint → Token
  | .primaryKey => .keyword .primary
  | .unique => .keyword .unique
  | .nullability .null => .keyword .null
  | .nullability .notNull => .keyword .not

def others : Constraint → Phrase Unit
  | .primaryKey => .keyword .key
  | .nullability .notNull => .keyword .null
  | _ => pure ()

theorem exists_iff {p : Constraint → Prop} : (∃ c, p c) ↔
    p .primaryKey ∨ p .unique ∨ p (.nullability .null) ∨ p (.nullability .notNull) := by
  constructor
  · rintro ⟨_ | _ | _ | _, h⟩ <;> simp [h]
  · rintro (h | h | h | h) <;> exact ⟨_, h⟩

end Constraint

namespace Phrase

variable {β : Type} {tokens rest : List Token} {t k : Token} {column : ColumnDefinition} {fuel : Nat}
  {f : ColumnDefinition → Phrase β}

theorem isAmong_columnExpectations :
    k.IsAmong (columnExpectations column) ↔
      (k = .symbol .comma ∨ k = .symbol .rightParen) ∨ ∃ c, column.IsOpen c ∧ k = c.first := by
  obtain ⟨name, type, primaryKey, unique, nullability⟩ := column
  cases primaryKey <;> cases unique <;> cases nullability <;>
    simp [columnExpectations, Expectation.covers, Constraint.exists_iff, ColumnDefinition.IsOpen,
      Constraint.first, or_assoc]

theorem run_constraints_open {c : Constraint} (hopen : column.IsOpen c) (more : List Token) :
    (constraints (fuel + 1) column >>= f) (c.first :: more) =
      (c.others >>= fun _ ↦ constraints fuel (column.constrained c) >>= f) more := by
  have hrun : constraints (fuel + 1) column (c.first :: more) =
      (c.others >>= fun _ ↦ constraints fuel (column.constrained c)) more := by
    rw [constraints, run_current_bind]
    cases c with
    | primaryKey =>
      have hopen : column.primaryKey = false := hopen
      rw [if_pos (by simp [Constraint.first, hopen])]
      rfl
    | unique =>
      have hopen : column.unique = false := hopen
      rw [if_neg (by simp [Constraint.first]), if_pos (by simp [Constraint.first, hopen])]
      rfl
    | nullability n =>
      have hnone : column.nullability = none := hopen
      cases n with
      | null =>
        rw [if_neg (by simp [Constraint.first]), if_neg (by simp [Constraint.first]),
          if_pos (by simp [Constraint.first, hnone])]
        rfl
      | notNull =>
        rw [if_neg (by simp [Constraint.first]), if_neg (by simp [Constraint.first]),
          if_neg (by simp [Constraint.first]), if_pos (by simp [Constraint.first, hnone])]
        rfl
  rw [run_bind, hrun, ← run_bind, bind_assoc]

theorem run_constraints_end (h : tokens.headD .endOfInput = .symbol .comma ∨
      tokens.headD .endOfInput = .symbol .rightParen) :
    (constraints (fuel + 1) column >>= f) tokens = f column tokens := by
  have hends : EndsColumn tokens := by
    cases tokens with
    | nil => rcases h with h | h <;> cases h
    | cons t rest => exact h.imp (congrArg some) (congrArg some)
  rw [run_bind, constraints_succ_of_ends hends]
  rfl

theorem awaits_constraints :
    (constraints (fuel + 1) column >>= f).Awaits (columnExpectations column) := by
  intro tokens h
  rw [isAmong_columnExpectations, not_or] at h
  have hclosed : ∀ c, column.IsOpen c → tokens.headD .endOfInput ≠ c.first :=
    fun c hopen hc ↦ h.2 ⟨c, hopen, hc⟩
  have hrun : constraints (fuel + 1) column tokens =
      .error ⟨columnExpectations column, (tokens.headD .endOfInput).display⟩ := by
    rw [constraints, run_current_bind,
      if_neg fun hif ↦ hclosed .primaryKey (eq_false_of_ne_true hif.2) hif.1,
      if_neg fun hif ↦ hclosed .unique (eq_false_of_ne_true hif.2) hif.1,
      if_neg fun hif ↦ hclosed (.nullability .null) hif.2 hif.1,
      if_neg fun hif ↦ hclosed (.nullability .notNull) hif.2 hif.1, if_neg h.1]
    rfl
  rw [run_bind, hrun]
  rfl

theorem constraints_live (hfuel : column.openKinds < fuel)
    (hlive : ∀ column, (f column).GoesOn [] (.symbol .rightParen)) :
    (constraints fuel column >>= f).Live := by
  obtain ⟨fuel, rfl⟩ : ∃ less, fuel = less + 1 := ⟨fuel - 1, by omega⟩
  obtain ⟨more, found, hrun⟩ := hlive column
  exact ⟨.symbol .rightParen :: more, found, (run_constraints_end (.inr rfl)).trans hrun⟩

theorem others_live {q : Phrase β} (c : Constraint) (h : q.Live) : (c.others >>= fun _ ↦ q).Live := by
  match c with
  | .primaryKey => exact (goesOn_consume h).live
  | .nullability .notNull => exact (goesOn_consume h).live
  | .unique => exact h
  | .nullability .null => exact h

theorem constraints_goesOn (hfuel : column.openKinds < fuel + 1)
    (hlive : ∀ column t, t = .symbol .comma ∨ t = .symbol .rightParen → (f column).GoesOn [] t)
    (k : Token) (hk : k.IsAmong (columnExpectations column)) :
    (constraints (fuel + 1) column >>= f).GoesOn [] k := by
  rcases isAmong_columnExpectations.mp hk with hend | ⟨c, hopen, rfl⟩
  · obtain ⟨more, found, hrun⟩ := hlive column k hend
    have hsame : (constraints (fuel + 1) column >>= f) (k :: more) = f column (k :: more) :=
      run_constraints_end hend
    exact ⟨more, found, hsame.trans hrun⟩
  · have hkinds := ColumnDefinition.openKinds_constrained hopen
    have hconstrained : (column.constrained c).openKinds < fuel := by omega
    obtain ⟨more, found, hrun⟩ := others_live c <|
      constraints_live hconstrained fun column ↦ hlive column _ (.inr rfl)
    exact ⟨more, found, (run_constraints_open hopen more).trans hrun⟩

theorem Guided.others {q : Phrase β} (c : Constraint) (hlive : q.Live)
    (h : ∀ rest : List Token, rest.length ≤ tokens.length → q.Guided NoToken rest) :
    (c.others >>= fun _ ↦ q).Guided NoToken tokens := by
  match c with
  | .primaryKey =>
    exact .consume (by simp) hlive (.single _) fun rest hrest ↦ h rest (Nat.le_of_lt hrest)
  | .nullability .notNull =>
    exact .consume (by simp) hlive (.single _) fun rest hrest ↦ h rest (Nat.le_of_lt hrest)
  | .unique => exact h tokens (Nat.le_refl _)
  | .nullability .null => exact h tokens (Nat.le_refl _)

/-- By induction on the fuel, of which each constraint takes one unit and closes one kind. -/
theorem Guided.constraints (hfuel : column.openKinds < fuel)
    (hlive : ∀ column t, t = .symbol .comma ∨ t = .symbol .rightParen → (f column).GoesOn [] t)
    (h : ∀ column (rest : List Token), rest.length ≤ tokens.length →
      (f column).Guided NoToken rest) :
    (Phrase.constraints fuel column >>= f).Guided NoToken tokens := by
  induction fuel generalizing column tokens with
  | zero => omega
  | succ fuel ih =>
    by_cases hhead : (tokens.headD .endOfInput).IsAmong (columnExpectations column)
    · rcases isAmong_columnExpectations.mp hhead with hend | ⟨c, hopen, hc⟩
      · refine .enter (fun rest hrest ↦ ?_) (hlive column _ hend) (h column tokens (Nat.le_refl _))
        exact run_constraints_end (hrest ▸ hend)
      · obtain ⟨rest, rfl⟩ := eq_cons_of_headD hc (by rcases c with _ | _ | _ | _ <;> simp [Constraint.first])
        have hkinds := ColumnDefinition.openKinds_constrained hopen
        have hconstrained : (column.constrained c).openKinds < fuel := by omega
        rw [List.length_cons] at h
        refine .next (run_constraints_open hopen) (.others c ?_ fun rest' hrest' ↦ ?_)
        · exact constraints_live hconstrained fun column ↦ hlive column _ (.inr rfl)
        · exact ih hconstrained fun column after hafter ↦ h column after (by omega)
    · refine .awaited awaits_constraints (constraints_goesOn hfuel hlive) hhead (.all ?_)
      exact ⟨.symbol .comma, isAmong_columnExpectations.mpr (.inl (.inl rfl))⟩

theorem listed_columnDefinition :
    Listed columnDefinition (fun _ ↦ NoToken) (.symbol .rightParen) where
  barred := .columnDefinition
  sample := ⟨[.identifier "x", .keyword .int], ⟨"x", .int, false, false, none⟩, by
    rintro t rest (rfl | rfl) <;> rfl⟩
  guided {_ f tokens} hlive h := by
    have hrun : columnDefinition >>= f = identifier >>= fun name ↦ dataType >>= fun type ↦
        constraints 4 { name, type } >>= f := by
      simp only [columnDefinition, bind_assoc]
    have hconstraints : ∀ name type, (constraints 4 { name, type } >>= f).Live := fun name type ↦
      constraints_live (Nat.lt_succ_self 3) fun column ↦ hlive column _ (.inr rfl)
    rw [hrun]
    refine .identifier (fun name ↦ ?_) fun name rest hrest ↦ ?_
    · obtain ⟨more, found, hfound⟩ := hconstraints name .int
      exact ⟨.keyword .int :: more, found, hfound⟩
    · refine .dataType (hconstraints name) fun type rest' hrest' ↦ ?_
      refine .constraints (Nat.lt_succ_self 3) hlive fun column after hafter ↦ ?_
      exact h column after (by omega)

end Phrase

end TableStore
