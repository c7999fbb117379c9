import TableStore.Proofs.Statement.Guidance.Token

namespace TableStore.Phrase

variable {β : Type} {tokens : List Token} {t : Token} {pre : Token → Prop}

def IsOperator (k : Token) : Prop := ∃ op : Operator, k = .symbol op.symbol

theorem operator?_eq_none_of_not (h : ¬IsOperator t) : operator? t = none := by
  cases hop : operator? t with
  | none => rfl
  | some op => exact absurd ⟨op, operator?_eq_some.mp hop⟩ h

/-- A phrase that can go on with a token that is no operator. -/
def Closes (q : Phrase β) : Prop := ∃ k, ¬IsOperator k ∧ q.GoesOn [] k

theorem Closes.live {q : Phrase β} (h : q.Closes) : q.Live := by
  obtain ⟨k, -, hgoes⟩ := h
  exact hgoes.live

theorem chain_closes {c : Expr → Phrase β} {left : Expr} (h : (c left).Closes) :
    (chain left >>= c).Closes := by
  obtain ⟨k, hk, more, found, hrun⟩ := h
  have hend : operator? ((k :: more).headD .endOfInput) = none := operator?_eq_none_of_not hk
  exact ⟨k, hk, more, found, (run_chain_end c left hend).trans hrun⟩

theorem operand_live {f : Expr → Phrase β} (h : ∀ e, (f e).Live) : (operand >>= f).Live := by
  obtain ⟨more, found, hrun⟩ := h (.column "x")
  exact ⟨.identifier "x" :: more, found, hrun⟩

theorem expression_live {c : Expr → Phrase β} (h : ∀ e, (c e).Closes) :
    (expression >>= c).Live := by
  rw [expression_eq, bind_assoc]
  exact operand_live fun e ↦ (chain_closes (h e)).live

def operandExpectations : List Expectation :=
  [.token (.keyword .not), .token (.symbol .leftParen), .identifier, .literal]

theorem startsLiteral_of_covers (h : Expectation.literal.covers t = true) :
    startsLiteral t = true := by
  cases t with
  | number n => rfl
  | _ => exact h

theorem operand_cases (t : Token) :
    t = .keyword .not ∨ t = .symbol .leftParen ∨ (∃ name, t = .identifier name) ∨
      startsLiteral t = true ∨ ¬t.IsAmong operandExpectations ∧
        ∀ rest : List Token, rest.headD .endOfInput = t →
          operand rest = .error ⟨operandExpectations, t.display⟩ := by
  by_cases hlit : startsLiteral t = true
  · exact .inr (.inr (.inr (.inl hlit)))
  by_cases hnot : t = .keyword .not
  · exact .inl hnot
  by_cases hparen : t = .symbol .leftParen
  · exact .inr (.inl hparen)
  by_cases hname : ∃ name, t = .identifier name
  · exact .inr (.inr (.inl hname))
  refine .inr (.inr (.inr (.inr ⟨?_, fun rest hrest ↦ ?_⟩)))
  · simp [operandExpectations, hnot, hparen, hname, mt startsLiteral_of_covers hlit]
  · rw [operand, operandWithin, run_current_bind, hrest]
    split
    · exact absurd rfl hnot
    · exact absurd rfl hparen
    · exact absurd ⟨_, rfl⟩ hname
    · rw [if_neg hlit, run_unexpected, hrest]
      rfl

theorem isAmong_operandExpectations (h : startsLiteral t = true) :
    t.IsAmong operandExpectations ↔ Expectation.literal.covers t = true := by
  have hnot : t ≠ .keyword .not := by
    rintro rfl
    cases h
  have hparen : t ≠ .symbol .leftParen := by
    rintro rfl
    cases h
  have hname : ∀ name, t ≠ .identifier name := by
    rintro name rfl
    cases h
  simp [operandExpectations, hnot, hparen, hname]

theorem not_isOperator_rightParen : ¬IsOperator (.symbol .rightParen) := by
  rintro ⟨op, h⟩
  cases op <;> cases h

theorem operand_goesOn_iff {f : Expr → Phrase β} (h : ∀ e, (f e).Closes) {k : Token} :
    (operand >>= f).GoesOn [] k ↔ k.IsAmong operandExpectations := by
  rcases operand_cases k with rfl | rfl | ⟨name, rfl⟩ | hlit | ⟨hother, hrun⟩
  · obtain ⟨more, found, hrun⟩ := expression_live fun inner ↦ h (.not inner)
    refine iff_of_true ⟨more, found, ?_⟩ (by simp [operandExpectations])
    exact (run_operand_not f more).trans hrun
  · have hclose : ∀ inner, (symbol .rightParen >>= fun _ ↦ f (.nested inner)).Closes := fun inner ↦
      ⟨_, not_isOperator_rightParen, goesOn_consume (h (.nested inner)).live⟩
    obtain ⟨more, found, hrun⟩ := expression_live hclose
    refine iff_of_true ⟨more, found, ?_⟩ (by simp [operandExpectations])
    exact (run_operand_leftParen f more).trans hrun
  · obtain ⟨more, found, hrun⟩ := (h (.column name)).live
    exact iff_of_true ⟨more, found, hrun⟩ (by simp [operandExpectations])
  · have hsame : (operand >>= f).GoesOn [] k ↔
        (literal >>= fun v ↦ f (.literal v)).GoesOn [] k := by
      simp only [GoesOn, List.nil_append, run_operand_literal f _ hlit]
    rw [hsame, literal_goesOn_iff fun v ↦ (h (.literal v)).live, isAmong_operandExpectations hlit]
  · refine iff_of_false ?_ hother
    rintro ⟨more, found, hfound⟩
    rw [List.nil_append, run_bind, hrun (k :: more) rfl] at hfound
    cases hfound

theorem chain_goesOn_iff {c : Expr → Phrase β} (h : ∀ e, (c e).Closes) (left : Expr) {k : Token} :
    (chain left >>= c).GoesOn [] k ↔ (c left).GoesOn [] k ∧ ¬IsOperator k ∨ IsOperator k := by
  by_cases hk : IsOperator k
  · obtain ⟨op, rfl⟩ := hk
    obtain ⟨more, found, hrun⟩ :=
      operand_live fun right ↦ (chain_closes (h (.binary left op right))).live
    refine iff_of_true ⟨more, found, ?_⟩ (.inr ⟨op, rfl⟩)
    exact (run_chain_operator c more left op).trans hrun
  · have hrun : ∀ more, (chain left >>= c) (k :: more) = c left (k :: more) :=
      fun more ↦ run_chain_end c left (operator?_eq_none_of_not hk)
    simp [GoesOn, hrun, hk]

section

variable (β : Type) (tokens : List Token)

-- The three readers of a condition are followed together. After an operand nothing has been looked for
-- yet, or else all the operators: a negation ends only where there are none.
def GuidedExpression : Prop :=
  ∀ c : Expr → Phrase β, (∀ e, (c e).Closes) →
    (∀ e (rest : List Token), rest.length < tokens.length → (c e).Guided IsOperator rest) →
      (expression >>= c).Guided NoToken tokens

def GuidedOperand : Prop :=
  ∀ f : Expr → Phrase β, (∀ e, (f e).Closes) →
    (∀ e (rest : List Token) (pre : Token → Prop), rest.length < tokens.length →
      (∀ k, pre k → IsOperator k) → (f e).Guided pre rest) →
        (operand >>= f).Guided NoToken tokens

def GuidedChain : Prop :=
  ∀ (c : Expr → Phrase β) (left : Expr) (pre : Token → Prop), (∀ e, (c e).Closes) →
    (∀ k, pre k → IsOperator k) →
      (∀ e (rest : List Token), rest.length ≤ tokens.length → (c e).Guided IsOperator rest) →
        (chain left >>= c).Guided pre tokens

end

theorem exists_number_of_plain? (h : startsLiteral t = true) (hplain : plain? t = none)
    (hminus : t ≠ .symbol .minus) : ∃ n, t = .number n := by
  cases t with
  | number n => exact ⟨n, rfl⟩
  | keyword k => cases k <;> simp_all [startsLiteral, plain?]
  | symbol s => cases s <;> simp_all [startsLiteral]
  | _ => simp_all [startsLiteral, plain?]

theorem Guided.operand_literal {f : Expr → Phrase β}
    (hlit : startsLiteral (tokens.headD .endOfInput) = true) (hlive : ∀ e, (f e).Closes)
    (h : ∀ v (rest : List Token), rest.length < tokens.length →
      (f (.literal v)).Guided NoToken rest) : (operand >>= f).Guided NoToken tokens := by
  have hlive' : ∀ v, (f (.literal v)).Live := fun v ↦ (hlive (.literal v)).live
  refine .same (Phrase.literal >>= fun v ↦ f (.literal v))
    (fun k ↦ k.IsAmong [.token (.keyword .not), .token (.symbol .leftParen), .identifier])
    (fun rest hrest ↦ ?_) (fun k ↦ ?_) (.literal hlive' (fun hplain hminus ↦ ?_) h)
  · rw [← hrest] at hlit
    cases rest with
    | nil => cases hlit
    | cons t rest => exact run_operand_literal f rest hlit
  · rw [operand_goesOn_iff hlive, literal_goesOn_iff hlive']
    simp only [operandExpectations, Token.isAmong_cons, Token.isAmong_nil, or_false]
    grind
  · obtain ⟨n, hn⟩ := exists_number_of_plain? hlit hplain hminus
    rw [hn]
    refine ⟨⟨.keyword .null, .inl rfl⟩, _, .integerOperand, fun k ↦ ?_⟩
    have hinteger : Expectation.integerWord.covers k = true →
        Expectation.literal.covers k = true := by
      cases k <;> simp [Expectation.covers]
    simp only [plainError, Token.isAmong_append, Token.isAmong_cons, Token.isAmong_nil, or_false]
    grind

theorem guidedExpression_of (hoperand : GuidedOperand β tokens)
    (hchain : ∀ rest : List Token, rest.length < tokens.length → GuidedChain β rest) :
    GuidedExpression β tokens := by
  intro c hlive h
  rw [expression_eq, bind_assoc]
  refine hoperand _ (fun e ↦ chain_closes (hlive e)) fun e rest pre hrest hpre ↦ ?_
  exact hchain rest hrest c e pre hlive hpre fun e' rest' hrest' ↦ h e' rest' (by omega)

theorem guidedOperand_of
    (hexpression : ∀ rest : List Token, rest.length < tokens.length → GuidedExpression β rest) :
    GuidedOperand β tokens := by
  intro f hlive h
  rcases operand_cases (tokens.headD .endOfInput) with
    hhead | hhead | ⟨name, hhead⟩ | hlit | ⟨-, hrun⟩
  · -- the negated expression ends where all operators were looked for, and the operand ends there too
    obtain ⟨rest, rfl⟩ := eq_cons_of_headD hhead (by simp)
    refine .next (run_operand_not f) ?_
    refine hexpression rest (Nat.lt_succ_self _) _ (fun e ↦ hlive (.not e)) fun e rest' hrest' ↦ ?_
    exact h (.not e) rest' IsOperator (Nat.lt_succ_of_lt hrest') fun _ ↦ id
  · obtain ⟨rest, rfl⟩ := eq_cons_of_headD hhead (by simp)
    refine .next (run_operand_leftParen f) ?_
    refine hexpression rest (Nat.lt_succ_self _) _ (fun e ↦ ?_) fun e rest' hrest' ↦ ?_
    · exact ⟨_, not_isOperator_rightParen, goesOn_consume (hlive (.nested e)).live⟩
    · refine .consume (by simp) (hlive (.nested e)).live ?_ fun after hafter ↦ ?_
      · exact ⟨⟨_, .inl rfl⟩, _, .operand, fun k ↦ by simp [IsOperator, Token.isAmong_operators]⟩
      · rw [List.length_cons] at h
        exact h (.nested e) after NoToken (by omega) fun _ ↦ False.elim
  · obtain ⟨rest, rfl⟩ := eq_cons_of_headD hhead (by simp)
    refine .next (run_operand_identifier f · name) ?_
    exact h (.column name) rest NoToken (Nat.lt_succ_self _) fun _ ↦ False.elim
  · refine .operand_literal hlit hlive fun v rest hrest ↦ ?_
    exact h (.literal v) rest NoToken hrest fun _ ↦ False.elim
  · refine .here (e := ⟨operandExpectations, (tokens.headD .endOfInput).display⟩) ?_ (.inl rfl) ?_
    · intro rest hrest
      rw [run_bind, hrun rest hrest]
      rfl
    · simp only [operand_goesOn_iff hlive, or_false]
      exact .exact ⟨.keyword .not, by simp [operandExpectations]⟩ fun _ ↦ Iff.rfl

theorem guidedChain_of
    (hoperand : ∀ rest : List Token, rest.length < tokens.length → GuidedOperand β rest)
    (hchain : ∀ rest : List Token, rest.length < tokens.length → GuidedChain β rest) :
    GuidedChain β tokens := by
  intro c left pre hlive hpre h
  by_cases hhead : IsOperator (tokens.headD .endOfInput)
  · obtain ⟨op, hop⟩ := hhead
    obtain ⟨rest, rfl⟩ := eq_cons_of_headD hop (by simp)
    rw [List.length_cons] at hoperand hchain h
    refine .next (run_chain_operator c · left op) ?_
    refine hoperand rest (Nat.lt_succ_self _) _ (fun e ↦ chain_closes (hlive _)) ?_
    intro e rest' pre' hrest' hpre'
    exact hchain rest' (by omega) c _ pre' hlive hpre' fun e' after hafter ↦ h e' after (by omega)
  · refine .same (c left) IsOperator ?_ (fun k ↦ ?_) (h left tokens (Nat.le_refl _))
    · exact fun rest hrest ↦ run_chain_end c left (operator?_eq_none_of_not (hrest ▸ hhead))
    · rw [chain_goesOn_iff hlive]
      have hk := hpre k
      grind

theorem guided_within (tokens : List Token) :
    GuidedExpression β tokens ∧ GuidedOperand β tokens ∧ GuidedChain β tokens := by
  -- on the number of tokens: only the first operand of an expression is read from all of them
  induction hlength : tokens.length using Nat.strongRecOn generalizing tokens with
  | ind n ih =>
    subst hlength
    have hchain : ∀ rest : List Token, rest.length < tokens.length → GuidedChain β rest :=
      fun rest hrest ↦ (ih _ hrest rest rfl).2.2
    have hoperand : GuidedOperand β tokens :=
      guidedOperand_of fun rest hrest ↦ (ih _ hrest rest rfl).1
    refine ⟨guidedExpression_of hoperand hchain, hoperand, guidedChain_of ?_ hchain⟩
    exact fun rest hrest ↦ (ih _ hrest rest rfl).2.1

theorem not_isOperator_end : ¬IsOperator .endOfInput := by
  rintro ⟨op, h⟩
  cases h

theorem Guided.condition {c : Option Expr → Phrase β} (hlive : ∀ e, (c (some e)).Closes)
    (h : ∀ e (rest : List Token), rest.length < tokens.length →
      (c (some e)).Guided IsOperator rest)
    (hpassed : (c none).Guided (fun k ↦ k = .keyword .where ∨ pre k) tokens) :
    (Phrase.condition >>= c).Guided pre tokens := by
  have hrun : Phrase.condition >>= c = Phrase.accept (.keyword .where) >>= fun found ↦
      if found then expression >>= fun e ↦ c (some e) else c none := by
    simp only [Phrase.condition, bind_assoc, apply_ite (· >>= c), pure_bind]
  rw [hrun]
  refine .accept (by simp) (expression_live hlive) (fun rest hrest ↦ ?_) hpassed
  refine (guided_within rest).1 _ hlive fun e rest' hrest' ↦ h e rest' (by omega)

end TableStore.Phrase
