import TableStore.Proofs.Span
import TableStore.Proofs.Statement.Parsed
import TableStore.Proofs.Statement.Stays

namespace TableStore

open Grammar (Sentence)

namespace Token

def beforeEnd (tokens : List Token) : List Token := tokens.takeWhile (· ≠ .endOfInput)

def fromEnd (tokens : List Token) : List Token := tokens.dropWhile (· ≠ .endOfInput)

def closed (tokens : List Token) : List Token :=
  if tokens.getLast? = some .endOfInput then tokens else tokens ++ [.endOfInput]

variable (tokens : List Token)

theorem beforeEnd_append_fromEnd : beforeEnd tokens ++ fromEnd tokens = tokens :=
  List.takeWhile_append_dropWhile

theorem not_mem_beforeEnd : .endOfInput ∉ beforeEnd tokens := by
  intro hmem
  have hne := List.mem_takeWhile_imp hmem
  exact of_decide_eq_true hne rfl

theorem fromEnd_cases : fromEnd tokens = [] ∨ ∃ more, fromEnd tokens = .endOfInput :: more := by
  cases h : fromEnd tokens with
  | nil => exact .inl rfl
  | cons t more =>
    have hend : decide (t ≠ .endOfInput) = false :=
      head?_dropWhile_eq_false t (by rw [← fromEnd, h]; rfl)
    exact .inr ⟨more, by rw [Decidable.not_not.mp (of_decide_eq_false hend)]⟩

theorem getLast?_closed : (closed tokens).getLast? = some .endOfInput := by
  rw [closed]
  split
  · assumption
  · exact List.getLast?_concat

theorem exists_closed_eq : ∃ more, closed tokens = beforeEnd tokens ++ .endOfInput :: more := by
  have hsplit := beforeEnd_append_fromEnd tokens
  rw [closed]
  rcases fromEnd_cases tokens with hnone | ⟨more, hfrom⟩
  · rw [hnone, List.append_nil] at hsplit
    have hopen : tokens.getLast? ≠ some .endOfInput := by
      intro hlast
      have hmem := List.mem_of_getLast? hlast
      exact not_mem_beforeEnd tokens (by rwa [hsplit])
    exact ⟨[], by rw [if_neg hopen, hsplit]⟩
  · rw [hfrom] at hsplit
    split
    · exact ⟨more, hsplit.symm⟩
    · refine ⟨more ++ [.endOfInput], ?_⟩
      rw [← List.cons_append, ← List.append_assoc, hsplit]

end Token

namespace Statement

open Token (beforeEnd fromEnd closed)

theorem ofTokens_append_end (front more : List Token) :
    ofTokens (front ++ .endOfInput :: more) = ofTokens front := by
  rw [ofTokens, ofTokens, (Phrase.Barred.statement front trivial).run]
  cases Phrase.statement front <;> rfl

theorem ofTokens_beforeEnd (tokens : List Token) : ofTokens (beforeEnd tokens) = ofTokens tokens := by
  conv => rhs; rw [← Token.beforeEnd_append_fromEnd tokens]
  rcases Token.fromEnd_cases tokens with hfrom | ⟨more, hfrom⟩
  · rw [hfrom, List.append_nil]
  · rw [hfrom, ofTokens_append_end]

theorem ofTokens_closed (tokens : List Token) : ofTokens (closed tokens) = ofTokens tokens := by
  obtain ⟨more, hclosed⟩ := Token.exists_closed_eq tokens
  rw [hclosed, ofTokens_append_end, ofTokens_beforeEnd]

theorem statement_of_ofTokens_eq_ok {tokens : List Token} {s : Statement}
    (h : ofTokens tokens = .ok s) : Phrase.statement tokens = .ok (s, fromEnd tokens) := by
  rw [← ofTokens_beforeEnd, ofTokens, bind_eq_ok] at h
  obtain ⟨⟨s', rest⟩, hrun, hpure⟩ := h
  obtain rfl := Except.ok.inj hpure
  obtain ⟨rfl, -⟩ := (Phrase.statement_eq_ok (Token.not_mem_beforeEnd tokens)).mp hrun
  conv => lhs; rw [← Token.beforeEnd_append_fromEnd tokens]
  rcases Token.fromEnd_cases tokens with hfrom | ⟨more, hfrom⟩
  · rw [hfrom, List.append_nil, hrun]
  · rw [hfrom, (Phrase.Barred.statement _ trivial).run, hrun]
    rfl

theorem expected_ne_nil_of_ofTokens {tokens : List Token} {e : SyntaxError}
    (h : ofTokens tokens = .error e) : e.expected ≠ [] := by
  rw [ofTokens, bind_eq_error] at h
  rcases h with hrun | ⟨found, -, hpure⟩
  · exact (Phrase.Barred.statement tokens trivial).expects hrun
  · cases hpure

/-- What is read from tokens is what is read from those before the first end of the input. The reader
never looks behind the last end, which is there even if it was left out, and does not run out of steps: an
error always expects something. A statement takes every token before the first end. -/
theorem ofTokens_barrier (tokens : List Token) :
    ofTokens tokens = ofTokens (beforeEnd tokens) ∧
    ofTokens tokens = ofTokens (closed tokens) ∧ Phrase.statement.Ends (closed tokens) ∧
    (∀ e, ofTokens tokens = .error e → e.expected ≠ []) ∧
    ∀ s, ofTokens tokens = .ok s →
      Sentence (beforeEnd tokens) s ∧ Phrase.statement tokens = .ok (s, fromEnd tokens) := by
  refine ⟨(ofTokens_beforeEnd tokens).symm, (ofTokens_closed tokens).symm,
    Phrase.Stays.statement _ (Token.getLast?_closed tokens) trivial,
    fun e ↦ expected_ne_nil_of_ofTokens, fun s hs ↦ ⟨?_, statement_of_ofTokens_eq_ok hs⟩⟩
  rw [← ofTokens_beforeEnd] at hs
  exact (ofTokens_eq_ok (Token.not_mem_beforeEnd tokens)).mp hs

/-- `DROP TABLE t;` with an end of the input after it, and a comma between that end and another one. -/
def twiceEnded : List Token :=
  [.keyword .drop, .keyword .table, .identifier "t", .symbol .semicolon, .endOfInput, .symbol .comma,
    .endOfInput]

theorem ofTokens_barrier_twice :
    ofTokens twiceEnded = .ok (.dropTable "t") ∧
    Sentence [.keyword .drop, .keyword .table, .identifier "t", .symbol .semicolon]
      (.dropTable "t") ∧
    Phrase.statement twiceEnded =
      .ok (.dropTable "t", [.endOfInput, .symbol .comma, .endOfInput]) ∧
    ∃ e, ofTokens (.endOfInput :: twiceEnded) = .error e ∧ e.expected ≠ [] := by
  have hread : ofTokens twiceEnded = .ok (.dropTable "t") := rfl
  obtain ⟨-, -, -, -, hall⟩ := ofTokens_barrier twiceEnded
  obtain ⟨hsentence, hrun⟩ := hall _ hread
  obtain ⟨e, hfail⟩ : ∃ e, ofTokens (.endOfInput :: twiceEnded) = .error e := ⟨_, rfl⟩
  obtain ⟨-, -, -, hexpects, -⟩ := ofTokens_barrier (.endOfInput :: twiceEnded)
  exact ⟨hread, hsentence, hrun, e, hfail, hexpects e hfail⟩

end Statement

end TableStore
