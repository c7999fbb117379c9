import TableStore.Proofs.Statement.Forms

namespace TableStore

open Grammar (Condition Expression Form Operand Sentence)

namespace Grammar

theorem Operand.ne_binary {ts : List Token} {e : Expr} (h : Operand ts e) (left right : Expr)
    (op : Operator) : e ≠ .binary left op right := by
  cases h <;> exact nofun

mutual

theorem Operand.leftGrouped : ∀ {ts : List Token} {e : Expr}, Operand ts e → e.LeftGrouped
  | _, _, .literal _ => trivial
  | _, _, .column _ => trivial
  | _, _, .nested h => h.leftGrouped
  | _, _, .not h => h.leftGrouped

theorem Expression.leftGrouped : ∀ {ts : List Token} {e : Expr}, Expression ts e → e.LeftGrouped
  | _, _, .operand h => h.leftGrouped
  | _, _, .binary hleft hends op hright => by
    refine ⟨fun l op r ↦ hright.ne_binary l r op, ?_, ?_, hleft.leftGrouped, hright.leftGrouped⟩
    · rintro e rfl
      cases hends
    · rintro l op e rfl
      cases hends

end

theorem Condition.leftGrouped {ts : List Token} {condition : Option Expr}
    (h : Condition ts condition) : ∀ e ∈ condition, e.LeftGrouped := by
  cases h with
  | none => exact nofun
  | some h =>
    rintro e ⟨⟩
    exact h.leftGrouped

theorem Form.leftGrouped {ts : List Token} {s : Statement} (h : Form ts s) :
    ∀ e ∈ s.condition?, e.LeftGrouped := by
  cases h with
  | select _ _ _ h => exact h.leftGrouped
  | update _ _ h => exact h.leftGrouped
  | delete _ h => exact h.leftGrouped
  | _ => exact nofun

end Grammar

namespace Phrase

variable {tokens rest : List Token} {s : Statement}

theorem endsStatement_of_closes (s : Statement)
    (h : rest = [] ∨ rest = [.symbol .semicolon]) : EndsStatement s rest := by
  have hcondition : ∀ condition, EndsCondition condition rest := by
    intro condition
    cases condition with
    | none => rcases h with rfl | rfl <;> exact nofun
    | some e =>
      intro op
      rcases h with rfl | rfl
      · exact nofun
      · cases op <;> exact nofun
  cases s with
  | select => exact hcondition _
  | update =>
    refine ⟨fun _ ↦ ?_, hcondition _⟩
    rcases h with rfl | rfl <;> exact nofun
  | delete => exact hcondition _
  | _ => trivial

theorem endOfInput_eq_ok (h : .endOfInput ∉ tokens) {u : Unit} :
    endOfInput tokens = .ok (u, rest) ↔ tokens = [] ∧ rest = [] := by
  rw [endOfInput, run_current_bind]
  rcases tokens with _ | ⟨t, ts⟩
  · simp [run_pure, eq_comm]
  · rw [List.headD_cons]
    refine ⟨fun hrun ↦ ?_, fun hnil ↦ by cases hnil.1⟩
    cases t with
    | endOfInput => exact absurd List.mem_cons_self h
    | _ => cases hrun

theorem statement_eq_ok (h : .endOfInput ∉ tokens) :
    statement tokens = .ok (s, rest) ↔
      rest = [] ∧ (body tokens = .ok (s, []) ∨ body tokens = .ok (s, [.symbol .semicolon])) := by
  rw [statement, run_bind_eq_ok]
  constructor
  · rintro ⟨s', middle, hbody, hrun⟩
    obtain ⟨found, after, haccept, hrun'⟩ := run_bind_eq_ok.mp hrun
    obtain ⟨⟨⟩, last, hend, hpure⟩ := run_bind_eq_ok.mp hrun'
    obtain ⟨rfl, rfl⟩ := run_pure_eq_ok.mp hpure
    obtain ⟨front, rfl, -, -⟩ := (body_reads _ _ _).mp hbody
    have hmiddle : .endOfInput ∉ middle := fun hmem ↦ h (List.mem_append_right front hmem)
    rcases acceptSymbol_eq_ok.mp haccept with ⟨-, rfl⟩ | ⟨-, -, rfl⟩
    · have hafter : .endOfInput ∉ after := fun hmem ↦ hmiddle (List.mem_cons_of_mem _ hmem)
      obtain ⟨rfl, rfl⟩ := (endOfInput_eq_ok hafter).mp hend
      exact ⟨rfl, .inr hbody⟩
    · obtain ⟨rfl, rfl⟩ := (endOfInput_eq_ok hmiddle).mp hend
      exact ⟨rfl, .inl hbody⟩
  · rintro ⟨rfl, hbody | hbody⟩
    · exact ⟨s, [], hbody, rfl⟩
    · exact ⟨s, [.symbol .semicolon], hbody, rfl⟩

end Phrase

theorem Statement.ofTokens_eq_ok {tokens : List Token} (h : .endOfInput ∉ tokens)
    {s : Statement} : ofTokens tokens = .ok s ↔ Sentence tokens s := by
  have hrun : ofTokens tokens = .ok s ↔ Phrase.statement tokens = .ok (s, []) := by
    rw [ofTokens, bind_eq_ok]
    constructor
    · rintro ⟨⟨s', rest⟩, hs, hpure⟩
      obtain rfl := Except.ok.inj hpure
      rwa [((Phrase.statement_eq_ok h).mp hs).1] at hs
    · exact fun hs ↦ ⟨_, hs, rfl⟩
  rw [hrun, Phrase.statement_eq_ok h]
  constructor
  · rintro ⟨-, hbody | hbody⟩
    · obtain ⟨front, rfl, hform, -⟩ := (Phrase.body_reads _ _ _).mp hbody
      rw [List.append_nil]
      exact .bare hform
    · obtain ⟨front, rfl, hform, -⟩ := (Phrase.body_reads _ _ _).mp hbody
      exact .closed hform
  · intro hsentence
    refine ⟨rfl, ?_⟩
    cases hsentence with
    | bare hform =>
      have hends := Phrase.endsStatement_of_closes s (.inl rfl)
      exact .inl ((Phrase.body_reads _ _ _).mpr ⟨_, (List.append_nil _).symm, hform, hends⟩)
    | closed hform =>
      have hends := Phrase.endsStatement_of_closes s (.inr rfl)
      exact .inr ((Phrase.body_reads _ _ _).mpr ⟨_, rfl, hform, hends⟩)

theorem Grammar.Sentence.leftGrouped {ts : List Token} {s : Statement} (h : Sentence ts s) :
    ∀ e ∈ s.condition?, e.LeftGrouped := by
  cases h with
  | bare h => exact h.leftGrouped
  | closed h => exact h.leftGrouped

/-- Of a list of tokens without an end in it, the reader makes a statement exactly if the list,
perhaps but for a semicolon after it, spells this statement. There is at most one such statement, and
its condition is grouped to the left. -/
theorem Statement.ofTokens_exact {tokens : List Token} (h : .endOfInput ∉ tokens) :
    (∀ s, ofTokens tokens = .ok s ↔ Sentence tokens s) ∧
    (∀ s s', Sentence tokens s → Sentence tokens s' → s = s') ∧
    ∀ s, ofTokens tokens = .ok s → ∀ e ∈ s.condition?, e.LeftGrouped := by
  refine ⟨fun s ↦ ofTokens_eq_ok h, fun s s' hs hs' ↦ ?_, fun s hs ↦ ?_⟩
  · rw [← ofTokens_eq_ok h] at hs hs'
    exact Except.ok.inj (hs.symm.trans hs')
  · exact ((ofTokens_eq_ok h).mp hs).leftGrouped

/-- `SELECT a b, c FROM t WHERE NOT a = -1;` -/
def Token.negatedSelection : List Token :=
  [.keyword .select, .identifier "a", .identifier "b", .symbol .comma, .identifier "c",
    .keyword .from, .identifier "t", .keyword .where, .keyword .not, .identifier "a",
    .symbol .equal, .symbol .minus, .number 1, .symbol .semicolon]

theorem Statement.ofTokens_exact_negation :
    .endOfInput ∉ Token.negatedSelection ∧
    Sentence Token.negatedSelection (.select false (.items [⟨"a", some "b"⟩, ⟨"c", none⟩]) "t"
      (some (.not (.binary (.column "a") .eq (.literal (.int (-1))))))) := by
  have hend : .endOfInput ∉ Token.negatedSelection := by simp [Token.negatedSelection]
  exact ⟨hend, ((ofTokens_exact hend).1 _).mp rfl⟩

end TableStore
