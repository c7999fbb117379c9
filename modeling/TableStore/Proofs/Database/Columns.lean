import TableStore.Proofs.Database.Rows
import TableStore.Proofs.Statement.Parsed
import TableStore.Proofs.Store.Closed
import TableStore.Proofs.Store.Quiet

namespace TableStore

open Grammar (Expression)

def Token.name? : Token → Option String
  | .identifier name => some name
  | _ => none

namespace Grammar

theorem Literal.names_eq_nil {ts : List Token} {v : Value} (h : Literal ts v) :
    ts.filterMap Token.name? = [] := by
  cases h <;> rfl

theorem names_parenthesized (ts : List Token) :
    (parenthesized ts).filterMap Token.name? = ts.filterMap Token.name? := by
  rw [parenthesized, List.filterMap_cons_none rfl, List.filterMap_append]
  exact List.append_nil _

mutual

theorem Operand.columns : ∀ {ts : List Token} {e : Expr}, Operand ts e →
    e.columns = ts.filterMap Token.name?
  | _, _, .literal h => h.names_eq_nil.symm
  | _, _, .column _ => rfl
  | _, _, .nested h => h.columns.trans (names_parenthesized _).symm
  | _, _, .not h => h.columns

theorem Expression.columns : ∀ {ts : List Token} {e : Expr}, Expression ts e →
    e.columns = ts.filterMap Token.name?
  | _, _, .operand h => h.columns
  | _, _, .binary hleft _ op hright => by
    rw [Expr.columns, hleft.columns, hright.columns, List.filterMap_append]
    rfl

end

end Grammar

theorem Value.integer_ne_notInRow (value : Value) (name : String) :
    value.integer ≠ .error (.notInRow name) := by
  rw [Value.integer]
  cases value.integer? <;> exact nofun

theorem Operator.apply_ne_notInRow (op : Operator) (left right : Value) (name : String) :
    op.apply left right ≠ .error (.notInRow name) := by
  have hcompare : ∀ comparison : Comparison,
      (do return comparison.holds (← left.integer) (← right.integer)) ≠
        Except.error (ConditionFault.notInRow name) := by
    intro comparison h
    rcases bind_eq_error.mp h with hleft | ⟨m, -, h⟩
    · exact left.integer_ne_notInRow name hleft
    · rcases bind_eq_error.mp h with hright | ⟨n, -, h⟩
      · exact right.integer_ne_notInRow name hright
      · cases h
  cases op with
  | eq =>
    rw [Operator.apply]
    cases left.sameValue right <;> exact nofun
  | ne =>
    rw [Operator.apply]
    cases left.sameValue right <;> exact nofun
  | lt => exact hcompare .lt
  | le => exact hcompare .le
  | gt => exact hcompare .gt
  | ge => exact hcompare .ge
  | _ => exact nofun

namespace Expr

variable {row : Row} {name : String}

theorem columns_unnested (e : Expr) : e.unnested.columns = e.columns := by
  induction e with
  | nested inner ih => exact ih
  | _ => rfl

theorem lookup_eq_notInRow {column : String}
    (h : lookup row column = .error (.notInRow name)) :
    name ∈ [column] ∧ row.contains name = false := by
  rw [lookup] at h
  cases hfound : row.get? column with
  | some value =>
    rw [hfound] at h
    cases h
  | none =>
    rw [hfound] at h
    cases h
    exact ⟨List.mem_singleton_self _, by rw [Row.contains, hfound]; rfl⟩

theorem operand_eq_notInRow {e : Expr} {truth : Except ConditionFault Bool}
    (h : operand row e truth = .error (.notInRow name)) :
    (name ∈ e.columns ∧ row.contains name = false) ∨ truth = .error (.notInRow name) := by
  rw [operand] at h
  rw [← columns_unnested]
  cases hshape : e.unnested with
  | literal value =>
    rw [hshape] at h
    cases h
  | column column =>
    rw [hshape] at h
    exact .inl (lookup_eq_notInRow h)
  | _ =>
    rw [hshape] at h
    exact .inr (map_eq_error.mp h)

theorem literalOperand_ne_notInRow (op : Operator) (e : Expr) :
    literalOperand op e ≠ .error (.notInRow name) := by
  rw [literalOperand]
  cases e.unnested <;> exact nofun

theorem mem_columns_of_evaluate {e : Expr} (h : e.evaluate row = .error (.notInRow name)) :
    name ∈ e.columns ∧ row.contains name = false := by
  induction e with
  | literal value => cases value <;> cases h
  | column column =>
    rw [evaluate] at h
    cases hfound : lookup row column with
    | ok value =>
      rw [hfound] at h
      cases value <;> cases h
    | error fault =>
      rw [hfound] at h
      exact lookup_eq_notInRow (hfound.trans (congrArg Except.error (Except.error.inj h)))
  | binary left op right ihleft =>
    rcases bind_eq_error.mp h with hensure | ⟨⟨⟩, -, h⟩
    · cases hop : !op.isArithmetic <;> rw [hop] at hensure <;> cases hensure
    · rcases bind_eq_error.mp h with hleft | ⟨leftValue, -, h⟩
      · obtain ⟨hmem, habsent⟩ := (operand_eq_notInRow hleft).elim id ihleft
        exact ⟨List.mem_append_left _ hmem, habsent⟩
      · rcases bind_eq_error.mp h with hright | ⟨rightValue, -, h⟩
        · exact absurd hright (literalOperand_ne_notInRow op right)
        · exact absurd h (op.apply_ne_notInRow leftValue rightValue name)
  | not inner ih => exact ih (map_eq_error.mp h)
  | nested inner ih => exact ih h

end Expr

theorem head?_toList_append {s : String} {c : Char} (h : s.toList.head? = some c) (t : String) :
    (s ++ t).toList.head? = some c := by
  rw [String.toList_append, List.head?_append, h]
  rfl

theorem take_reverse_toList_append (s : String) {t : String} {n : Nat} {ending : List Char}
    (h : n ≤ t.toList.length) (hending : t.toList.reverse.take n = ending) :
    (s ++ t).toList.reverse.take n = ending := by
  rw [String.toList_append, List.reverse_append,
    List.take_append_of_le_length (by rwa [List.length_reverse]), hending]

/-- The message tells this fault from all others. -/
theorem ConditionFault.eq_notInRow_of_message {fault : ConditionFault} {name : String}
    (h : fault.message = "Column " ++ name ++ " is not part of the row.") :
    ∃ column, fault = .notInRow column := by
  have hstart : fault.message.toList.head? = some 'C' :=
    h ▸ head?_toList_append (head?_toList_append rfl _) _
  have hend : fault.message.toList.reverse.take 2 = ['.', 'w'] :=
    h ▸ take_reverse_toList_append _ (by decide) (by decide)
  have hinitial : ∀ c, fault.message.toList.head? = some c → c = 'C' :=
    fun c hc ↦ Option.some.inj (hc.symm.trans hstart)
  cases fault with
  | notInRow column => exact ⟨column, rfl⟩
  | columnNotBoolean column value =>
    have hown : (ConditionFault.columnNotBoolean column value).message.toList.reverse.take 2 =
        ['.', 'n'] := take_reverse_toList_append _ (by decide) (by decide)
    exact absurd (hown.symm.trans hend) (by decide)
  | cell fault =>
    cases fault with
    | nullNotAllowed column =>
      have hown : (CellFault.nullNotAllowed column).message.toList.reverse.take 2 = ['.', 'L'] :=
        take_reverse_toList_append _ (by decide) (by decide)
      exact absurd (hown.symm.trans hend) (by decide)
    | notFinite x =>
      exact absurd (hinitial 'V' (head?_toList_append (head?_toList_append rfl _) _)) (by decide)
    | wrongType value type =>
      refine absurd (hinitial 'V' ?_) (by decide)
      iterate 4 apply head?_toList_append
      rfl
  | literalNotBoolean value =>
    exact absurd (hinitial 'L' (head?_toList_append (head?_toList_append rfl _) _)) (by decide)
  | arithmetic op =>
    exact absurd (hinitial 'O' (head?_toList_append (head?_toList_append rfl _) _)) (by decide)
  | rightOperand op =>
    exact absurd (hinitial 'R' (head?_toList_append (head?_toList_append rfl _) _)) (by decide)
  | noInteger value =>
    exact absurd (hinitial 'V' (head?_toList_append (head?_toList_append rfl _) _)) (by decide)

/-- A statement on a table with this schema that has this condition and is refused for nothing else
before it reads a row. -/
inductive Statement.Filters (table : String) (schema : Schema) (condition : Expr) : Statement → Prop
  | select (distinct : Bool) {selection : Selection}
    (h : ∀ item ∈ Database.items schema selection, item.column ∈ schema.names) :
    Filters table schema condition (.select distinct selection table (some condition))
  | update {changes fitted : List (String × Value)}
    (h : changes.mapM (Database.fittedChange table schema) = .ok fitted) :
    Filters table schema condition (.update table changes (some condition))
  | delete : Filters table schema condition (.delete table (some condition))

section

variable {table name : String} {schema : Schema} {store : Store} {statement : Statement}
  {condition : Expr}

theorem Schema.contains_of_decodeRow {record : Record} {row : Row}
    (h : schema.decodeRow record = .ok row) (hname : name ∈ schema.names) :
    row.contains name = true := by
  rw [← names_of_decodeRow h] at hname
  exact Row.contains_of_mem hname

namespace Database

theorem checkColumns_eq_error {names : List String}
    (h : names.find? (· ∉ schema.names) = some name) :
    Store.checkColumns table schema names = .error (.columnNotFound table name) := by
  induction names with
  | nil => cases h
  | cons first names ih =>
    rw [Store.checkColumns, List.forM_eq_forM, List.forM_cons, Store.checkColumn]
    rw [List.find?_cons] at h
    by_cases hmem : first ∈ schema.names
    · have hcontains := Schema.mem_names_iff.mp hmem
      obtain ⟨column, hcolumn⟩ := Option.isSome_iff_exists.mp hcontains
      rw [hcolumn]
      simp only [hmem, not_true_eq_false, decide_false] at h
      exact ih h
    · have hcontains := Schema.mem_names_iff.not.mp hmem
      have hcolumn : schema.column? first = none := by simpa [Schema.contains] using hcontains
      rw [hcolumn]
      simp only [hmem, not_false_eq_true, decide_true, Option.some.injEq] at h
      rw [h]
      rfl

theorem run_of_unknown_column (hschema : store.schema table = .ok schema)
    (hstatement : statement.Filters table schema condition)
    (hname : condition.columns.find? (· ∉ schema.names) = some name) :
    (run statement).run store = (.error (.columnNotFound table name), store) := by
  have hcheck : Store.checkColumns table schema condition.columns =
      .error (.columnNotFound table name) := checkColumns_eq_error hname
  cases hstatement with
  | select distinct h =>
    have hitems : ∀ column ∈ (items schema _).map SelectItem.column, column ∈ schema.names :=
      List.forall_mem_map.mpr h
    exact (Operation.run_ask_bind_of_ok _ hschema).trans <|
      (Operation.run_ask_bind_of_ok _ (checkColumns_eq_ok.mpr hitems)).trans <|
        Operation.run_ask_bind_of_error _ hcheck
  | update h =>
    exact (Operation.run_ask_bind_of_ok _ hschema).trans <|
      (Operation.run_ask_bind_of_ok _ h).trans <|
        (Operation.run_ask_bind_of_ok (a := condition) _ rfl).trans <|
          Operation.run_ask_bind_of_error _ hcheck
  | delete =>
    exact (Operation.run_ask_bind_of_ok _ hschema).trans <|
      (Operation.run_ask_bind_of_ok (a := condition) _ rfl).trans <|
        Operation.run_ask_bind_of_error _ hcheck

/-- The columns of a condition are settled before a row is read. Of those that its words name, the
first that the schema does not have is what the statement fails with, whatever the rows are. If the
schema has them all, no row of the table lacks one when the condition is evaluated. -/
theorem columns_settled {document : TableDocument}
    (hdocument : store.document table = .ok (document, schema))
    (hstatement : statement.Filters table schema condition) :
    (∀ tokens, Expression tokens condition →
      condition.columns = tokens.filterMap Token.name?) ∧
    (∀ name, condition.columns.find? (· ∉ schema.names) = some name →
      (run statement).run store = (.error (.columnNotFound table name), store) ∧
      ∀ text, Statement.ofText text = .ok statement →
        (execute text).run store = (.error (.columnNotFound table name), store)) ∧
    ((∀ name ∈ condition.columns, name ∈ schema.names) →
      ∀ record row, schema.decodeRow record = .ok row →
        ∀ fault, condition.evaluate row = .error fault →
          ∀ name, fault.message ≠ "Column " ++ name ++ " is not part of the row.") := by
  have hschema : store.schema table = .ok schema := by
    rw [Store.schema, hdocument]
    rfl
  refine ⟨fun tokens htokens ↦ htokens.columns, fun name hname ↦ ?_, ?_⟩
  · have hrun := run_of_unknown_column hschema hstatement hname
    refine ⟨hrun, fun text htext ↦ ?_⟩
    rw [execute_eq_run htext]
    exact hrun
  · intro hall record row hrow fault hfault name hmessage
    obtain ⟨column, rfl⟩ := ConditionFault.eq_notInRow_of_message hmessage
    obtain ⟨hmem, habsent⟩ := Expr.mem_columns_of_evaluate hfault
    rw [Schema.contains_of_decodeRow hrow (hall column hmem)] at habsent
    cases habsent

def hollowTable : Store :=
  ⟨{}, ⟨[(["data"], .directory), (["data", "t.json"], .text ("\x7b\"TableName\":\"t\"," ++
    "\"Columns\":[\x7b\"Name\":\"n\",\"Type\":\"int\"\x7d],\"Data\":[\x7b\x7d]\x7d"))]⟩, []⟩

/-- `NOT (n < z)` -/
def negatedOrder : Expr := .not (.nested (.binary (.column "n") .lt (.column "z")))

theorem columns_settled_right : ∃ document schema,
    hollowTable.document "t" = .ok (document, schema) ∧
    Statement.Filters "t" schema negatedOrder (.delete "t" (some negatedOrder)) ∧
    (hollowTable.decodeRows document schema).toOption = none ∧
    (execute "DELETE FROM t WHERE NOT (n < z)").run hollowTable =
      (.error (.columnNotFound "t" "z"), hollowTable) := by
  have hloads : (hollowTable.document "t").toOption.map (fun found ↦
      (found.2.names, (hollowTable.decodeRows found.1 found.2).toOption)) = some (["n"], none) := by
    decide +kernel
  obtain ⟨⟨document, schema⟩, hfound, hloaded⟩ := Option.map_eq_some_iff.mp hloads
  have hdocument := toOption_eq_some.mp hfound
  obtain ⟨hnames, hrows⟩ := Prod.mk.inj hloaded
  have hparse : Statement.ofText "DELETE FROM t WHERE NOT (n < z)" =
      .ok (.delete "t" (some negatedOrder)) := by decide +kernel
  refine ⟨document, schema, hdocument, .delete, hrows, ?_⟩
  have hfirst : negatedOrder.columns.find? (· ∉ schema.names) = some "z" := by
    rw [hnames]
    decide
  exact ((columns_settled hdocument .delete).2.1 "z" hfirst).2 _ hparse

end Database

end

end TableStore
