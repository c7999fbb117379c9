import TableStore.Database
import TableStore.Proofs.Hint

namespace TableStore

namespace Expr

/-- The expression without any parentheses, neither around it nor within. -/
def bare : Expr → Expr
  | .literal value => .literal value
  | .column name => .column name
  | .binary left op right => .binary left.bare op right.bare
  | .not inner => .not inner.bare
  | .nested inner => inner.bare

def IsBare : Expr → Prop
  | .literal _ => True
  | .column _ => True
  | .binary left _ right => left.IsBare ∧ right.IsBare
  | .not inner => inner.IsBare
  | .nested _ => False

theorem isBare_bare (e : Expr) : e.bare.IsBare := by
  induction e with
  | literal value => trivial
  | column name => trivial
  | binary left op right ihLeft ihRight => exact ⟨ihLeft, ihRight⟩
  | not inner ih => exact ih
  | nested inner ih => exact ih

theorem unnested_ne_nested (e inner : Expr) : e.unnested ≠ .nested inner := by
  induction e with
  | nested e ih => exact ih
  | _ => exact nofun

theorem unnested_bare (e : Expr) : e.bare.unnested = e.unnested.bare := by
  induction e with
  | nested inner ih => exact ih
  | _ => rfl

theorem columns_bare (e : Expr) : e.bare.columns = e.columns := by
  induction e with
  | literal value => rfl
  | column name => rfl
  | binary left op right ihLeft ihRight => rw [bare, columns, columns, ihLeft, ihRight]
  | not inner ih => exact ih
  | nested inner ih => exact ih

theorem literalOperand_bare (op : Operator) (e : Expr) :
    literalOperand op e.bare = literalOperand op e := by
  rw [literalOperand, literalOperand, unnested_bare]
  cases h : e.unnested with
  | nested inner => exact absurd h (unnested_ne_nested e inner)
  | _ => rfl

theorem operand_bare (row : Row) (e : Expr) (truth : Except ConditionFault Bool) :
    operand row e.bare truth = operand row e truth := by
  rw [operand, operand, unnested_bare]
  cases h : e.unnested with
  | nested inner => exact absurd h (unnested_ne_nested e inner)
  | _ => rfl

/-- By induction on the expression. A left operand that is a condition of its own is evaluated with its
parentheses, every other operand is looked at within them. -/
theorem evaluate_bare (row : Row) (e : Expr) : e.bare.evaluate row = e.evaluate row := by
  induction e with
  | literal value => rfl
  | column name => rfl
  | binary left op right ihLeft _ =>
    rw [bare, evaluate, evaluate, ihLeft, operand_bare, literalOperand_bare]
  | not inner ih => rw [bare, evaluate, evaluate, ih]
  | nested inner ih => exact ih

theorem hint?_bare (e : Expr) : e.bare.hint? = e.hint? := by
  rw [hint?, hint?, unnested_bare]
  cases h : e.unnested with
  | nested inner => exact absurd h (unnested_ne_nested e inner)
  | binary left op right =>
    simp only [bare, unnested_bare]
    cases hleft : left.unnested with
    | nested inner => exact absurd hleft (unnested_ne_nested left inner)
    | column name =>
      cases hright : right.unnested with
      | nested inner => exact absurd hright (unnested_ne_nested right inner)
      | _ => rfl
    | _ => rfl
  | _ => rfl

end Expr

theorem Predicate.ofExpr_bare (e : Expr) : ofExpr e.bare = ofExpr e := by
  simp only [ofExpr, Expr.evaluate_bare, Expr.hint?_bare]

def Statement.withCondition (e : Expr) : Statement → Statement
  | .select distinct selection table _ => .select distinct selection table (some e)
  | .update table changes _ => .update table changes (some e)
  | .delete table _ => .delete table (some e)
  | s => s

theorem Database.run_withCondition_bare (e : Expr) (s : Statement) :
    run (s.withCondition e.bare) = run (s.withCondition e) := by
  cases s with
  | select distinct selection table condition =>
    simp only [Statement.withCondition, run, select, Option.map_some, Predicate.ofCondition,
      Expr.columns_bare, Predicate.ofExpr_bare]
  | update table changes condition =>
    simp only [Statement.withCondition, run, update, required, checkCondition,
      Operation.ofResult_ok_bind, Expr.columns_bare, Predicate.ofExpr_bare]
  | delete table condition =>
    simp only [Statement.withCondition, run, delete, required, checkCondition,
      Operation.ofResult_ok_bind, Expr.columns_bare, Predicate.ofExpr_bare]
  | _ => rfl

/-- Nothing that is done with a condition tells whether parentheses were erased from it. Two conditions
that only differ in parentheses are planned and scanned for alike, and statements with them do the same. -/
theorem Expr.bare_unnoticed (e : Expr) :
    e.bare.IsBare ∧ (∀ row, e.bare.evaluate row = e.evaluate row) ∧ e.bare.columns = e.columns ∧
    e.bare.hint? = e.hint? ∧
    ∀ e' : Expr, e'.bare = e.bare →
      (∀ (store : Store) table, store.plan table e'.hint? = store.plan table e.hint?) ∧
      (∀ table, Operation.scan table (.ofExpr e') = Operation.scan table (.ofExpr e)) ∧
      ∀ s : Statement, Database.run (s.withCondition e') = Database.run (s.withCondition e) := by
  refine ⟨e.isBare_bare, fun row ↦ evaluate_bare row e, e.columns_bare, e.hint?_bare,
    fun e' hsame ↦ ⟨fun store table ↦ ?_, fun table ↦ ?_, fun s ↦ ?_⟩⟩
  · rw [← e'.hint?_bare, hsame, e.hint?_bare]
  · rw [← Predicate.ofExpr_bare e', hsame, Predicate.ofExpr_bare]
  · rw [← Database.run_withCondition_bare e', hsame, Database.run_withCondition_bare]

/-- `((Id) > (1))` and `Id > 1` -/
theorem Expr.bare_unnoticed_hinted :
    (nested (binary (nested (column "Id")) .gt (nested (literal (.int 1))))).bare =
      (binary (column "Id") .gt (literal (.int 1))).bare ∧
    ∀ table, Operation.scan table
        (.ofExpr (nested (binary (nested (column "Id")) .gt (nested (literal (.int 1)))))) =
      Operation.scan table (.ofExpr (binary (column "Id") .gt (literal (.int 1)))) := by
  have hsame : (nested (binary (nested (column "Id")) .gt (nested (literal (.int 1))))).bare =
      (binary (column "Id") .gt (literal (.int 1))).bare := rfl
  obtain ⟨-, -, -, -, halike⟩ := bare_unnoticed (binary (column "Id") .gt (literal (.int 1)))
  exact ⟨hsame, (halike _ hsame).2.1⟩

end TableStore
