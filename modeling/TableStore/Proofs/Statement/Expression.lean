import TableStore.Proofs.Statement.Reads

namespace TableStore

open Grammar (Operand Expression Literal)

def Phrase.EndsChain (rest : List Token) : Prop :=
  ∀ op : Operator, rest.head? ≠ some (.symbol op.symbol)

namespace Grammar

theorem Literal.pos {front : List Token} {v : Value} (h : Literal front v) : 0 < front.length := by
  cases h <;> simp

theorem Operand.pos {front : List Token} {e : Expr} (h : Operand front e) : 0 < front.length := by
  cases h with
  | literal h => exact h.pos
  | _ => simp [parenthesized]

end Grammar

namespace Phrase

variable {tokens rest : List Token} {e : Expr}

theorem run_expressionWithin (fuel : Nat) (tokens : List Token) :
    expressionWithin (fuel + 1) tokens =
      (operandWithin fuel >>= chainWithin fuel) tokens := by
  rw [expressionWithin]

theorem run_chainWithin_operator (op : Operator) (fuel : Nat) (left : Expr) (tokens : List Token) :
    chainWithin (fuel + 1) left (.symbol op.symbol :: tokens) =
      (operandWithin fuel >>= fun right ↦ chainWithin fuel (.binary left op right)) tokens := by
  rw [chainWithin, run_current_bind, List.headD_cons, operator?_eq_some.mpr rfl]
  rfl

theorem run_chainWithin_end (h : EndsChain rest) (fuel : Nat) (left : Expr) :
    chainWithin (fuel + 1) left rest = .ok (left, rest) := by
  have hnone : operator? (rest.headD .endOfInput) = none := by
    rw [Option.eq_none_iff_forall_ne_some]
    intro op hop
    rw [operator?_eq_some] at hop
    cases rest with
    | nil => cases hop
    | cons t ts => exact h op (congrArg some hop)
  rw [chainWithin, run_current_bind, hnone]
  rfl

theorem endsChain_rightParen (rest : List Token) : EndsChain (.symbol .rightParen :: rest) := by
  intro op
  cases op <;> exact nofun

theorem operandWithin_cases {fuel : Nat} (h : operandWithin (fuel + 1) tokens = .ok (e, rest)) :
    (∃ after inner, tokens = .keyword .not :: after ∧
        expressionWithin fuel after = .ok (inner, rest) ∧ e = .not inner) ∨
      (∃ after inner, tokens = .symbol .leftParen :: after ∧
        expressionWithin fuel after = .ok (inner, .symbol .rightParen :: rest) ∧
          e = .nested inner) ∨
      (∃ name, tokens = .identifier name :: rest ∧ e = .column name) ∨
      ∃ v, literal tokens = .ok (v, rest) ∧ e = .literal v := by
  have hliteral : ∀ token expected,
      (if startsLiteral token then (do return Expr.literal (← literal)) else unexpected expected :
        Phrase Expr) tokens = .ok (e, rest) →
      ∃ v, literal tokens = .ok (v, rest) ∧ e = .literal v := by
    intro token expected h
    split at h
    · obtain ⟨v, middle, hv, hpure⟩ := run_bind_eq_ok.mp h
      obtain ⟨rfl, rfl⟩ := run_pure_eq_ok.mp hpure
      exact ⟨v, hv, rfl⟩
    · cases h
  rw [operandWithin, run_current_bind] at h
  rcases tokens with _ | ⟨t, ts⟩
  · cases h
  rw [List.headD_cons] at h
  cases t with
  | keyword k =>
    cases k with
    | not =>
      have hrun : (expressionWithin fuel >>= fun inner ↦ pure (.not inner)) ts = .ok (e, rest) := h
      obtain ⟨inner, middle, hinner, hpure⟩ := run_bind_eq_ok.mp hrun
      obtain ⟨rfl, rfl⟩ := run_pure_eq_ok.mp hpure
      exact .inl ⟨ts, inner, rfl, hinner, rfl⟩
    | _ => exact .inr (.inr (.inr (hliteral _ _ h)))
  | symbol s =>
    cases s with
    | leftParen =>
      have hrun : (do
        let inner ← expressionWithin fuel
        symbol .rightParen
        return .nested inner : Phrase Expr) ts = .ok (e, rest) := h
      obtain ⟨inner, middle, hinner, hrest⟩ := run_bind_eq_ok.mp hrun
      obtain ⟨after, rfl, hpure⟩ := symbol_bind_eq_ok.mp hrest
      obtain ⟨rfl, rfl⟩ := run_pure_eq_ok.mp hpure
      exact .inr (.inl ⟨ts, inner, rfl, hinner, rfl⟩)
    | _ => exact .inr (.inr (.inr (hliteral _ _ h)))
  | identifier name =>
    cases h
    exact .inr (.inr (.inl ⟨name, rfl, rfl⟩))
  | _ => exact .inr (.inr (.inr (hliteral _ _ h)))

/-- By induction on the fuel. The chain after a first operand is read from what that operand spells,
which grows with each operator. -/
theorem within_sound (fuel : Nat) :
    (∀ tokens e rest, expressionWithin fuel tokens = .ok (e, rest) →
      ∃ front, tokens = front ++ rest ∧ Expression front e ∧ EndsChain rest) ∧
    (∀ tokens e rest, operandWithin fuel tokens = .ok (e, rest) →
      ∃ front, tokens = front ++ rest ∧ Operand front e ∧
        (e.endsInNot = true → EndsChain rest)) ∧
    ∀ front left tokens e rest, Expression front left →
      (left.endsInNot = true → EndsChain tokens) →
      chainWithin fuel left tokens = .ok (e, rest) →
        ∃ back, tokens = back ++ rest ∧ Expression (front ++ back) e ∧ EndsChain rest := by
  induction fuel with
  | zero =>
    refine ⟨?_, ?_, ?_⟩
    · intro tokens e rest h
      cases h
    · intro tokens e rest h
      cases h
    · intro front left tokens e rest _ _ h
      cases h
  | succ fuel ih =>
    obtain ⟨ihExpression, ihOperand, ihChain⟩ := ih
    refine ⟨?_, ?_, ?_⟩
    · intro tokens e rest h
      rw [run_expressionWithin] at h
      obtain ⟨first, middle, hfirst, hchain⟩ := run_bind_eq_ok.mp h
      obtain ⟨front, rfl, hspells, hends⟩ := ihOperand _ _ _ hfirst
      obtain ⟨back, rfl, hall, hrest⟩ := ihChain front first _ _ _ (.operand hspells) hends hchain
      exact ⟨front ++ back, by simp, hall, hrest⟩
    · intro tokens e rest h
      rcases operandWithin_cases h with ⟨after, inner, rfl, hinner, rfl⟩ |
        ⟨after, inner, rfl, hinner, rfl⟩ | ⟨name, rfl, rfl⟩ | ⟨v, hv, rfl⟩
      · obtain ⟨front, rfl, hspells, hends⟩ := ihExpression _ _ _ hinner
        exact ⟨.keyword .not :: front, rfl, .not hspells, fun _ ↦ hends⟩
      · obtain ⟨front, rfl, hspells, -⟩ := ihExpression _ _ _ hinner
        exact ⟨Grammar.parenthesized front, by simp [Grammar.parenthesized], .nested hspells,
          fun hnot ↦ absurd hnot Bool.false_ne_true⟩
      · exact ⟨_, rfl, .column name, fun hnot ↦ absurd hnot Bool.false_ne_true⟩
      · obtain ⟨front, rfl, hspells, -⟩ := (literal_reads _ _ _).mp hv
        exact ⟨front, rfl, .literal hspells, fun hnot ↦ absurd hnot Bool.false_ne_true⟩
    · intro front left tokens e rest hleft hends h
      by_cases hop : ∃ op after, tokens = .symbol (Operator.symbol op) :: after
      · obtain ⟨op, after, rfl⟩ := hop
        rw [run_chainWithin_operator] at h
        obtain ⟨right, middle, hright, hchain⟩ := run_bind_eq_ok.mp h
        obtain ⟨us, rfl, hspells, hmiddle⟩ := ihOperand _ _ _ hright
        have hleft' : left.endsInNot = false := by
          cases hnot : left.endsInNot with
          | false => rfl
          | true => exact absurd rfl (hends hnot op)
        obtain ⟨back, rfl, hall, hrest⟩ :=
          ihChain _ _ _ _ _ (.binary hleft hleft' op hspells) hmiddle hchain
        exact ⟨.symbol op.symbol :: (us ++ back), by simp, by simpa using hall, hrest⟩
      · have hnone : EndsChain tokens := by
          intro op hhead
          cases tokens with
          | nil => cases hhead
          | cons t ts => exact hop ⟨op, ts, by rw [← Option.some.inj hhead]⟩
        rw [run_chainWithin_end hnone] at h
        obtain ⟨rfl, rfl⟩ := Prod.mk.inj (Except.ok.inj h)
        exact ⟨[], rfl, by simpa using hleft, hnone⟩

theorem run_operandWithin_literal {front : List Token} {v : Value} (h : Literal front v)
    (fuel : Nat) (rest : List Token) :
    operandWithin (fuel + 1) (front ++ rest) = .ok (.literal v, rest) := by
  have hstep : operandWithin (fuel + 1) (front ++ rest) =
      (literal >>= fun v ↦ pure (.literal v)) (front ++ rest) := by
    rw [operandWithin]
    cases h <;> rfl
  rw [hstep, run_bind_eq_ok]
  exact ⟨v, rest, (literal_reads _ _ _).mpr ⟨front, rfl, h, trivial⟩, rfl⟩

-- each operand takes a token at least, and there are two units of fuel for each token
mutual

theorem run_operandWithin {front : List Token} {e : Expr} (h : Operand front e) (fuel : Nat)
    (rest : List Token) (hfuel : 2 * front.length ≤ fuel)
    (hends : e.endsInNot = true → EndsChain rest) :
    operandWithin fuel (front ++ rest) = .ok (e, rest) := by
  have hpos := h.pos
  obtain ⟨fuel, rfl⟩ : ∃ left, fuel = left + 1 := ⟨fuel - 1, by omega⟩
  cases h with
  | literal h => exact run_operandWithin_literal h fuel rest
  | column name =>
    rw [operandWithin]
    rfl
  | @nested ts inner h =>
    simp only [Grammar.parenthesized, List.length_cons, List.length_append] at hfuel
    obtain ⟨spare, -, hinner⟩ := exists_run_expressionWithin h fuel
      (.symbol .rightParen :: rest) (by omega) fun _ ↦ endsChain_rightParen rest
    rw [run_chainWithin_end (endsChain_rightParen rest)] at hinner
    have hstep : operandWithin (fuel + 1) (Grammar.parenthesized ts ++ rest) = (do
        let inner ← expressionWithin fuel
        symbol .rightParen
        return .nested inner : Phrase Expr) (ts ++ .symbol .rightParen :: rest) := by
      rw [operandWithin, Grammar.parenthesized, List.cons_append, List.append_assoc]
      rfl
    rw [hstep, run_bind_eq_ok]
    exact ⟨inner, _, hinner, symbol_bind_eq_ok.mpr ⟨rest, rfl, rfl⟩⟩
  | @not ts inner h =>
    simp only [List.length_cons] at hfuel
    have hrest := hends rfl
    obtain ⟨spare, -, hinner⟩ :=
      exists_run_expressionWithin h fuel rest (by omega) fun _ ↦ hrest
    rw [run_chainWithin_end hrest] at hinner
    have hstep : operandWithin (fuel + 1) (.keyword .not :: ts ++ rest) =
        (expressionWithin fuel >>= fun inner ↦ pure (.not inner)) (ts ++ rest) := by
      rw [operandWithin]
      rfl
    rw [hstep, run_bind_eq_ok]
    exact ⟨inner, rest, hinner, rfl⟩

theorem exists_run_expressionWithin {front : List Token} {e : Expr} (h : Expression front e)
    (fuel : Nat) (rest : List Token) (hfuel : 2 * front.length + 1 ≤ fuel)
    (hends : e.endsInNot = true → EndsChain rest) :
    ∃ spare, fuel ≤ spare + 2 * front.length ∧
      expressionWithin fuel (front ++ rest) = chainWithin (spare + 1) e rest := by
  obtain ⟨fuel, rfl⟩ : ∃ left, fuel = left + 1 := ⟨fuel - 1, by omega⟩
  cases h with
  | operand h =>
    have hpos := h.pos
    have hfirst := run_operandWithin h fuel rest (by omega) hends
    obtain ⟨spare, rfl⟩ : ∃ spare, fuel = spare + 1 := ⟨fuel - 1, by omega⟩
    refine ⟨spare, by omega, ?_⟩
    rw [run_expressionWithin, run_bind, hfirst]
    rfl
  | @binary ts us left right hleft hnot op hright =>
    have hpos := hright.pos
    simp only [List.length_append, List.length_cons] at hfuel ⊢
    obtain ⟨spare, hspare, hrun⟩ := exists_run_expressionWithin hleft (fuel + 1)
      (.symbol op.symbol :: us ++ rest) (by omega) fun hends ↦ by simp [hnot] at hends
    have hsecond := run_operandWithin hright spare rest (by omega) hends
    obtain ⟨spare, rfl⟩ : ∃ left, spare = left + 1 := ⟨spare - 1, by omega⟩
    refine ⟨spare, by omega, ?_⟩
    rw [List.append_assoc, hrun, List.cons_append, run_chainWithin_operator, run_bind, hsecond]
    rfl

end

theorem expression_reads : expression.Reads Expression fun _ rest ↦ EndsChain rest := by
  intro tokens e rest
  rw [expression]
  constructor
  · exact (within_sound _).1 tokens e rest
  · rintro ⟨front, rfl, hspells, hrest⟩
    have hlength : front.length ≤ (front ++ rest).length := by simp
    obtain ⟨spare, -, hrun⟩ := exists_run_expressionWithin hspells
      (2 * (front ++ rest).length + 2) rest (by omega) fun _ ↦ hrest
    rw [hrun, run_chainWithin_end hrest]

end Phrase

end TableStore
