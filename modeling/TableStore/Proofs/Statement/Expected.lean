import TableStore.Proofs.Statement.Guidance.Column
import TableStore.Proofs.Statement.Guidance.Condition

namespace TableStore

open Expectation (Omits Settle)

namespace Phrase

variable {β : Type} {tokens : List Token} {k t : Token} {pre : Token → Prop}

/-- The end of a statement. -/
def closing (s : Statement) : Phrase Statement := do
  let _ ← accept (.symbol .semicolon)
  endOfInput
  return s

theorem statement_eq : statement = body >>= closing := rfl

theorem closing_goesOn (s : Statement) : (closing s).GoesOn [] .endOfInput := ⟨[], _, rfl⟩

def filtered (s : Option Expr → Statement) : Phrase Statement := condition >>= fun e? ↦ closing (s e?)

theorem filtered_goesOn (s : Option Expr → Statement) : (filtered s).GoesOn [] .endOfInput :=
  ⟨[], _, rfl⟩

theorem awaits_end (s : Statement) :
    (endOfInput >>= fun _ ↦ pure s).Awaits [.token .endOfInput] := by
  intro tokens h
  cases tokens with
  | nil => exact absurd (by simp) h
  | cons t rest => cases t <;> first | rfl | exact absurd (by simp) h

theorem Guided.ending (s : Statement)
    (hsettle : Settle [.token .endOfInput] fun k ↦ k = .endOfInput ∨ pre k) :
    (endOfInput >>= fun _ ↦ pure s).Guided pre tokens := by
  by_cases hhead : tokens.headD .endOfInput = .endOfInput
  · have hend : (endOfInput >>= fun _ ↦ pure s) tokens = .ok (s, tokens) := by
      cases tokens with
      | nil => rfl
      | cons t rest =>
        obtain rfl : t = .endOfInput := hhead
        rfl
    intro e he
    cases hend.symm.trans he
  · refine .awaited (awaits_end s) (fun k hk ↦ ?_) (by simpa using hhead) (by simpa using hsettle)
    obtain rfl : k = .endOfInput := by simpa using hk
    exact ⟨[], _, rfl⟩

/-- A phrase that can be led to its end, and whose errors settle what could come next. -/
structure Leads (q : Phrase Statement) (pre : Token → Prop) : Prop where
  live : q.Live
  guided : ∀ tokens, q.Guided pre tokens

namespace Leads

variable {q : Phrase Statement}

theorem consume (ht : t ≠ .endOfInput) (h : q.Leads NoToken)
    (hsettle : Settle [.token t] fun k ↦ k = t ∨ pre k) :
    (Phrase.consume t >>= fun _ ↦ q).Leads pre where
  live := (goesOn_consume h.live).live
  guided _ := .consume ht h.live hsettle fun rest _ ↦ h.guided rest

theorem word (ht : t ≠ .endOfInput) (h : q.Leads NoToken) :
    (Phrase.consume t >>= fun _ ↦ q).Leads NoToken :=
  .consume ht h (.single t)

theorem accept {f : Bool → Phrase Statement} (ht : t ≠ .endOfInput) (htaken : (f true).Leads NoToken)
    (hpassed : (f false).Leads fun k ↦ k = t ∨ pre k) : (Phrase.accept t >>= f).Leads pre where
  live := by
    obtain ⟨more, found, hrun⟩ := htaken.live
    exact ⟨t :: more, found, (run_accept_taken t f more).trans hrun⟩
  guided tokens := .accept ht htaken.live (fun rest _ ↦ htaken.guided rest) (hpassed.guided tokens)

theorem identifier {f : String → Phrase Statement} (h : ∀ name, (f name).Leads NoToken) :
    (Phrase.identifier >>= f).Leads NoToken where
  live := by
    obtain ⟨more, found, hrun⟩ := (h "x").live
    exact ⟨.identifier "x" :: more, found, hrun⟩
  guided _ := .identifier (fun name ↦ (h name).live) fun name rest _ ↦ (h name).guided rest

theorem elements {α : Type} {item : Phrase α}
    (hitem : Listed item (fun _ ↦ NoToken) (.symbol .rightParen)) {c : List α → Phrase Statement}
    (h : ∀ as, (c as).Leads NoToken) :
    (Phrase.separated item >>= fun as ↦ symbol .rightParen >>= fun _ ↦ c as).Leads NoToken where
  live := elements_live hitem fun as ↦ (h as).live
  guided _ := .elements hitem (fun as ↦ (h as).live) fun as rest _ ↦ (h as).guided rest

theorem closing (s : Statement)
    (hsettle : Settle [.token .endOfInput] fun k ↦ k = .endOfInput ∨ k = .symbol .semicolon ∨ pre k) :
    (Phrase.closing s).Leads pre :=
  .accept (by simp) ⟨⟨[], _, rfl⟩, fun _ ↦ .ending s (.single _)⟩
    ⟨⟨[], _, rfl⟩, fun _ ↦ .ending s hsettle⟩

theorem closed (s : Statement) : (Phrase.closing s).Leads NoToken :=
  .closing s ⟨⟨_, .inl rfl⟩, _, .statement, by simp⟩

theorem filtered (s : Option Expr → Statement) (hsettle : Settle [.token .endOfInput] fun k ↦
      k = .endOfInput ∨ k = .symbol .semicolon ∨ k = .keyword .where ∨ pre k) :
    (Phrase.filtered s).Leads pre where
  live := (filtered_goesOn s).live
  guided tokens := by
    refine .condition (fun e ↦ ⟨_, not_isOperator_end, closing_goesOn _⟩) (fun e rest _ ↦ ?_)
      ((closing _ hsettle).guided tokens)
    refine (closing _ ⟨⟨_, .inl rfl⟩, _, .condition, fun k ↦ ?_⟩).guided rest
    simp [IsOperator, Token.isAmong_operators]

theorem table (s : String → Option Expr → Statement) :
    (Phrase.identifier >>= fun table ↦ Phrase.filtered (s table)).Leads NoToken :=
  .identifier fun table ↦ .filtered (s table) ⟨⟨_, .inl rfl⟩, _, .table, by simp⟩

theorem selected (s : Selection → String → Option Expr → Statement)
    (hsettle : Settle selectionExpectations fun k ↦ k.IsAmong selectionExpectations ∨ pre k) :
    (selection >>= fun selection ↦ keyword .from >>= fun _ ↦ Phrase.identifier >>= fun table ↦
      Phrase.filtered (s selection table)).Leads pre := by
  have hfrom : ∀ selection, (keyword .from >>= fun _ ↦ Phrase.identifier >>= fun table ↦
      Phrase.filtered (s selection table)).GoesOn [] (.keyword .from) :=
    fun selection ↦ goesOn_consume (table (s selection)).live
  refine ⟨(selection_goesOn hfrom (.symbol .star) (by simp [selectionExpectations])).live,
    fun tokens ↦ .selection hfrom hsettle (fun rest _ ↦ ?_) fun items item rest _ ↦ ?_⟩
  · exact (word (by simp) (table (s .all))).guided rest
  · have hitems := table (s (.items items))
    refine (consume (by simp) hitems ⟨⟨_, .inl rfl⟩, ?_⟩).guided rest
    cases item.newName with
    | none => exact ⟨_, .item, by simp [OpensName]⟩
    | some name => exact ⟨_, .renamedItem, by simp⟩

theorem values (s : List Value → Statement)
    (hsettle : Settle [.token (.keyword .values)] fun k ↦ k = .keyword .values ∨ pre k) :
    (keyword .values >>= fun _ ↦ symbol .leftParen >>= fun _ ↦ separated literal >>= fun values ↦
      symbol .rightParen >>= fun _ ↦ Phrase.closing (s values)).Leads pre :=
  .consume (by simp)
    (.word (by simp) (.elements (listed_literal _) fun values ↦ .closed (s values))) hsettle

theorem changes (s : List (String × Value) → Option Expr → Statement) :
    (separated change >>= fun changes ↦ Phrase.filtered (s changes)).Leads NoToken where
  live := (listed_change .endOfInput).separated_live (by simp) fun changes ↦ filtered_goesOn (s changes)
  guided _ := by
    refine (listed_change .endOfInput).separated (by simp) (fun changes ↦ filtered_goesOn (s changes))
      fun changes _ rest _ ↦ ?_
    exact (filtered (s changes) ⟨⟨_, .inl rfl⟩, _, .change, by simp⟩).guided rest

end Leads

def Opens (form : Phrase Statement) (word : Keyword) : Prop :=
  ∃ tail : Phrase Statement, form >>= closing = (keyword word >>= fun _ ↦ tail) ∧ tail.Leads NoToken

theorem select_opens : select.Opens .select := by
  refine ⟨accept (.keyword .distinct) >>= fun distinct ↦ selection >>= fun selection ↦
    keyword .from >>= fun _ ↦ identifier >>= fun table ↦ filtered (.select distinct selection table),
    ?_, .accept (by simp) ?_ ?_⟩
  · simp only [select, filtered, bind_assoc, pure_bind]
  · exact .selected (.select true) (.all ⟨.symbol .star, by simp [selectionExpectations]⟩)
  · refine .selected (.select false) ⟨⟨.keyword .distinct, by simp⟩, _, .distinct, fun k ↦ ?_⟩
    simp [selectionExpectations, or_assoc]

theorem insert_opens : insert.Opens .insert := by
  refine ⟨keyword .into >>= fun _ ↦ identifier >>= fun table ↦ columnList >>= fun columns ↦
    keyword .values >>= fun _ ↦ symbol .leftParen >>= fun _ ↦ separated literal >>= fun values ↦
      symbol .rightParen >>= fun _ ↦ closing (.insert table columns values), ?_, ?_⟩
  · simp only [insert, parenthesized, bind_assoc, pure_bind]
  · refine .word (by simp) (.identifier fun table ↦ ?_)
    rw [columnList_bind]
    refine .accept (by simp) (.elements (listed_identifier _) fun columns ↦ ?_) ?_
    · exact .values (.insert table (some columns)) (.single _)
    · exact .values (.insert table none) ⟨⟨_, .inl rfl⟩, _, .columnList, by simp⟩

theorem createTable_opens : createTable.Opens .create := by
  refine ⟨keyword .table >>= fun _ ↦ identifier >>= fun table ↦ symbol .leftParen >>= fun _ ↦
    separated columnDefinition >>= fun columns ↦ symbol .rightParen >>= fun _ ↦
      closing (.createTable table columns), ?_, ?_⟩
  · simp only [createTable, parenthesized, bind_assoc, pure_bind]
  · refine .word (by simp) (.identifier fun table ↦ .word (by simp) ?_)
    exact .elements listed_columnDefinition fun columns ↦ .closed (.createTable table columns)

theorem update_opens : update.Opens .update := by
  refine ⟨identifier >>= fun table ↦ keyword .set >>= fun _ ↦ separated change >>= fun changes ↦
    filtered (.update table changes), ?_, ?_⟩
  · simp only [update, filtered, bind_assoc, pure_bind]
  · exact .identifier fun table ↦ .word (by simp) (.changes (.update table))

theorem delete_opens : delete.Opens .delete := by
  refine ⟨keyword .from >>= fun _ ↦ identifier >>= fun table ↦ filtered (.delete table), ?_, ?_⟩
  · simp only [delete, filtered, bind_assoc, pure_bind]
  · exact .word (by simp) (.table .delete)

theorem dropTable_opens : dropTable.Opens .drop := by
  refine ⟨keyword .table >>= fun _ ↦ identifier >>= fun table ↦ closing (.dropTable table), ?_, ?_⟩
  · simp only [dropTable, bind_assoc, pure_bind]
  · exact .word (by simp) (.identifier fun table ↦ .closed (.dropTable table))

def statementExpectations : List Expectation :=
  [.token (.keyword .select), .token (.keyword .insert), .token (.keyword .create),
    .token (.keyword .update), .token (.keyword .delete), .token (.keyword .drop)]

theorem awaits_body (f : Statement → Phrase β) : (body >>= f).Awaits statementExpectations := by
  intro tokens h
  have hrun : body tokens =
      .error ⟨statementExpectations, (tokens.headD .endOfInput).display⟩ := by
    rw [body, run_current_bind]
    generalize hhead : tokens.headD .endOfInput = t at h ⊢
    split
    all_goals first
      | rw [run_unexpected, hhead]; rfl
      | exact absurd (by simp [statementExpectations]) h
  rw [run_bind, hrun]
  rfl

theorem exists_form (hk : k.IsAmong statementExpectations) :
    ∃ (form : Phrase Statement) (word : Keyword), k = .keyword word ∧ form.Opens word ∧
      ∀ more, body (.keyword word :: more) = form (.keyword word :: more) := by
  simp only [statementExpectations, Token.isAmong_cons, Token.isAmong_nil, or_false,
    Expectation.covers_token] at hk
  rcases hk with rfl | rfl | rfl | rfl | rfl | rfl
  · exact ⟨select, .select, rfl, select_opens, fun _ ↦ rfl⟩
  · exact ⟨insert, .insert, rfl, insert_opens, fun _ ↦ rfl⟩
  · exact ⟨createTable, .create, rfl, createTable_opens, fun _ ↦ rfl⟩
  · exact ⟨update, .update, rfl, update_opens, fun _ ↦ rfl⟩
  · exact ⟨delete, .delete, rfl, delete_opens, fun _ ↦ rfl⟩
  · exact ⟨dropTable, .drop, rfl, dropTable_opens, fun _ ↦ rfl⟩

theorem exists_tail (hk : k.IsAmong statementExpectations) : ∃ tail : Phrase Statement,
    (∀ more, statement (k :: more) = tail more) ∧ tail.Leads NoToken := by
  obtain ⟨form, word, rfl, ⟨tail, hform, htail⟩, hbody⟩ := exists_form hk
  refine ⟨tail, fun more ↦ ?_, htail⟩
  rw [statement_eq, run_bind, hbody, ← run_bind, hform]
  exact (single_consume (by simp)).run_some (if_pos rfl) more

theorem guided_statement (tokens : List Token) : statement.Guided NoToken tokens := by
  by_cases hhead : (tokens.headD .endOfInput).IsAmong statementExpectations
  · cases tokens with
    | nil => simp [statementExpectations] at hhead
    | cons t rest =>
      obtain ⟨tail, hrun, htail⟩ := exists_tail hhead
      exact .next hrun (htail.guided rest)
  · refine .awaited (awaits_body closing) (fun k hk ↦ ?_) hhead (.all ⟨.keyword .select, ?_⟩)
    · obtain ⟨tail, hrun, htail⟩ := exists_tail hk
      obtain ⟨more, found, hfound⟩ := htail.live
      exact ⟨more, found, (hrun more).trans hfound⟩
    · simp [statementExpectations]

end Phrase

namespace Statement

/-- With a token after these ones, and some more, there is a statement. -/
def Accepts (front : List Token) (k : Token) : Prop :=
  ∃ more s, ofTokens (front ++ k :: more) = .ok s

variable {tokens front : List Token} {k : Token} {e : SyntaxError}

theorem ofTokens_eq_error : ofTokens tokens = .error e ↔ Phrase.statement tokens = .error e := by
  rw [ofTokens]
  cases Phrase.statement tokens <;> simp [bind, Except.bind, pure, Except.pure]

theorem accepts_iff : Accepts front k ↔ Phrase.statement.GoesOn front k := by
  refine exists_congr fun more ↦ ?_
  rw [ofTokens]
  cases Phrase.statement (front ++ k :: more) <;> simp [bind, Except.bind, pure, Except.pure]

/-- Reading stops at the first token with which no statement goes on, whatever comes after it, and the
error reports that token. The tokens that could stand in its place are exactly those that the error
expects, together with those that such expectations may leave out. -/
theorem expected_exact (h : ofTokens tokens = .error e) :
    ∃ front rest passed, tokens = front ++ rest ∧ e.Reports (rest.headD .endOfInput) ∧
      (∀ rest' : List Token, rest'.headD .endOfInput = rest.headD .endOfInput →
        ofTokens (front ++ rest') = .error e) ∧
      (∃ k, Accepts front k) ∧ Omits e.expected passed ∧
      ∀ k, Accepts front k ↔ k.IsAmong (e.expected ++ passed) := by
  have hguided : Phrase.statement.Guided Phrase.NoToken tokens := Phrase.guided_statement tokens
  obtain ⟨front, rest, rfl, hrun, hreports, ⟨k, hk⟩, passed, homits, hopens⟩ :=
    hguided e (ofTokens_eq_error.mp h)
  simp only [and_false, or_false, ← accepts_iff] at hk hopens
  refine ⟨front, rest, passed, rfl, hreports, fun rest' hrest' ↦ ?_, ⟨k, hk⟩, homits, hopens⟩
  exact ofTokens_eq_error.mpr (hrun rest' hrest')

/-- `SELECT a )`, where a comma, another name or `FROM` could follow the `a`. -/
def strayParenthesis : List Token :=
  [.keyword .select, .identifier "a", .symbol .rightParen]

theorem expected_exact_stray :
    ofTokens strayParenthesis = .error ⟨[.token (.keyword .from)], "')'"⟩ ∧
    ∃ passed, Omits [.token (.keyword .from)] passed ∧
      ∀ k, Accepts [.keyword .select, .identifier "a"] k ↔
        k.IsAmong (.token (.keyword .from) :: passed) := by
  have hfail : ofTokens strayParenthesis = .error ⟨[.token (.keyword .from)], "')'"⟩ := rfl
  obtain ⟨front, rest, passed, heq, hreports, hrun, -, homits, haccepts⟩ := expected_exact hfail
  refine ⟨hfail, passed, homits, ?_⟩
  -- only after two tokens does nothing that begins with the next one make a statement
  match front, heq with
  | [], heq =>
    obtain rfl : rest = strayParenthesis := heq.symm
    have hok : ofTokens [.keyword .select, .symbol .star, .keyword .from, .identifier "t"] =
        .ok (.select false .all "t" none) := rfl
    cases hok.symm.trans (hrun _ rfl)
  | [_], heq =>
    obtain ⟨rfl, rfl⟩ := List.cons.inj heq
    have hok : ofTokens [.keyword .select, .identifier "a", .keyword .from, .identifier "t"] =
        .ok (.select false (.items [⟨"a", none⟩]) "t" none) := rfl
    cases hok.symm.trans (hrun [.identifier "a", .keyword .from, .identifier "t"] rfl)
  | [_, _], heq =>
    obtain ⟨rfl, hrest⟩ := List.cons.inj heq
    obtain ⟨rfl, rfl⟩ := List.cons.inj hrest
    exact haccepts
  | _ :: _ :: _ :: front, heq =>
    have hlength := congrArg List.length heq
    simp only [strayParenthesis, List.length_append, List.length_cons, List.length_nil] at hlength
    obtain rfl : rest = [] := List.eq_nil_of_length_eq_zero (by omega)
    rcases hreports with hfound | ⟨n, hn, -⟩
    · exact absurd hfound (by decide)
    · cases hn

/-- After the name of a table that takes a row there can be a list of columns, of which an error at
that place says nothing. -/
theorem exists_columns_unexpected : ∃ e,
    ofTokens ([.keyword .insert, .keyword .into, .identifier "t"] ++ [.symbol .rightParen]) =
      .error e ∧
    e.found = (Token.symbol .rightParen).display ∧
    Accepts [.keyword .insert, .keyword .into, .identifier "t"] (.symbol .leftParen) ∧
    ¬(Token.symbol .leftParen).IsAmong e.expected := by
  refine ⟨_, rfl, rfl, ⟨[.identifier "a", .symbol .rightParen, .keyword .values, .symbol .leftParen,
    .keyword .null, .symbol .rightParen], _, rfl⟩, ?_⟩
  simp

end Statement

end TableStore
