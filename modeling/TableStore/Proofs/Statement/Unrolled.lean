import TableStore.Proofs.Statement.Barrier

namespace TableStore.Phrase

variable {α β : Type}

def further (item : Phrase α) (first : α) : Phrase (List α) := do
  if ← accept (.symbol .comma) then return first :: (← separated item)
  else return [first]

theorem separated_eq {item : Phrase α} (h : item.Barred) :
    separated item = item >>= further item := by
  funext tokens
  rw [separated, separatedWithin]
  refine bind_congr_run rfl fun first middle hfirst ↦ ?_
  refine bind_congr_run rfl fun found rest hfound ↦ ?_
  rcases acceptSymbol_eq_ok.mp hfound with ⟨rfl, rfl, -⟩ | ⟨rfl, -, -⟩
  · have hlength := ((h tokens trivial).rest hfirst).length_le
    rw [List.length_cons] at hlength
    exact bind_congr_run (h.separatedWithin_enough _ _ rest (by omega) (by omega)) fun _ _ _ ↦ rfl
  · rfl

def operand : Phrase Expr := fun tokens ↦ operandWithin (2 * tokens.length + 1) tokens

def chain (left : Expr) : Phrase Expr :=
  fun tokens ↦ chainWithin (2 * tokens.length + 1) left tokens

theorem expressionWithin_eq {fuel : Nat} {tokens : List Token} (h : 2 * tokens.length + 2 ≤ fuel) :
    expressionWithin fuel tokens = expression tokens :=
  (within_enough fuel).1 _ tokens h (Nat.le_refl _)

theorem operandWithin_eq {fuel : Nat} {tokens : List Token} (h : 2 * tokens.length + 1 ≤ fuel) :
    operandWithin fuel tokens = operand tokens :=
  (within_enough fuel).2.1 _ tokens h (Nat.le_refl _)

theorem chainWithin_eq {fuel : Nat} {tokens : List Token} (h : 2 * tokens.length + 1 ≤ fuel)
    (left : Expr) : chainWithin fuel left tokens = chain left tokens :=
  (within_enough fuel).2.2 _ left tokens h (Nat.le_refl _)

theorem expression_eq : expression = operand >>= chain := by
  funext tokens
  rw [expression, expressionWithin]
  refine bind_congr_run rfl fun e rest hrun ↦ ?_
  have hlength := length_le_of_operandWithin hrun
  exact chainWithin_eq (by omega) e

section

variable (f : Expr → Phrase β) (rest : List Token)

theorem run_operand_not : (operand >>= f) (.keyword .not :: rest) =
    (expression >>= fun inner ↦ f (.not inner)) rest := by
  have hrun : operand (.keyword .not :: rest) =
      (expression >>= fun inner ↦ pure (.not inner)) rest := by
    rw [operand, operandWithin, List.length_cons]
    show (expressionWithin (2 * (rest.length + 1)) >>= fun inner ↦ pure (Expr.not inner)) rest = _
    exact bind_congr_run (expressionWithin_eq (by omega)) fun _ _ _ ↦ rfl
  rw [run_bind, hrun, ← run_bind, bind_assoc]
  simp only [pure_bind]

theorem run_operand_leftParen : (operand >>= f) (.symbol .leftParen :: rest) =
    (expression >>= fun inner ↦ symbol .rightParen >>= fun _ ↦ f (.nested inner)) rest := by
  have hrun : operand (.symbol .leftParen :: rest) =
      (expression >>= fun inner ↦ symbol .rightParen >>= fun _ ↦ pure (.nested inner)) rest := by
    rw [operand, operandWithin, List.length_cons]
    show (expressionWithin (2 * (rest.length + 1)) >>= fun inner ↦
      symbol .rightParen >>= fun _ ↦ pure (Expr.nested inner)) rest = _
    exact bind_congr_run (expressionWithin_eq (by omega)) fun _ _ _ ↦ rfl
  rw [run_bind, hrun, ← run_bind, bind_assoc]
  simp only [bind_assoc, pure_bind]

theorem run_operand_identifier (name : String) :
    (operand >>= f) (.identifier name :: rest) = f (.column name) rest := rfl

theorem run_operand_literal {t : Token} (h : startsLiteral t = true) :
    (operand >>= f) (t :: rest) = (literal >>= fun v ↦ f (.literal v)) (t :: rest) := by
  have hrun : operand (t :: rest) = (literal >>= fun v ↦ pure (.literal v)) (t :: rest) := by
    rw [operand, operandWithin, run_current_bind, List.headD_cons]
    split
    · cases h
    · cases h
    · cases h
    · rw [if_pos h]
  rw [run_bind, hrun, ← run_bind, bind_assoc]
  simp only [pure_bind]

theorem run_chain_operator (left : Expr) (op : Operator) :
    (chain left >>= f) (.symbol op.symbol :: rest) =
      (operand >>= fun right ↦ chain (.binary left op right) >>= f) rest := by
  have hrun : chain left (.symbol op.symbol :: rest) =
      (operand >>= fun right ↦ chain (.binary left op right)) rest := by
    rw [chain, List.length_cons, run_chainWithin_operator]
    refine bind_congr_run (operandWithin_eq (by omega)) fun right after hright ↦ ?_
    have hlength := length_le_of_operandWithin hright
    exact chainWithin_eq (by omega) _
  rw [run_bind, hrun, ← run_bind, bind_assoc]

theorem run_chain_end {tokens : List Token} (left : Expr)
    (h : operator? (tokens.headD .endOfInput) = none) : (chain left >>= f) tokens = f left tokens := by
  have hrun : chain left tokens = .ok (left, tokens) := by
    rw [chain, chainWithin, run_current_bind, h]
    rfl
  rw [run_bind, hrun, ok_bind]

end

end TableStore.Phrase
