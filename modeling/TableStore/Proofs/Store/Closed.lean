import TableStore.Proofs.Store.Damage

namespace TableStore

def Statement.table : Statement → String
  | .select _ _ table _ => table
  | .insert table _ _ => table
  | .createTable table _ => table
  | .update table _ _ => table
  | .delete table _ => table
  | .dropTable table => table

/-- A property of operations that holds of each that a statement about one table calls, of its checks,
and of two in a row. -/
structure ClosedAt (table : String) (P : {α : Type} → Operation α → Prop) : Prop where
  pure {α : Type} (a : α) : P (Pure.pure a : Operation α)
  ofResult {α : Type} {result : Except Error α} (hresult : Avoids Error.isDamage result) :
    P (Operation.ofResult result)
  schema : P (Operation.ask fun store ↦ store.schema table)
  bind {α β : Type} {op : Operation α} {f : α → Operation β} (h : P op) (hf : ∀ a, P (f a)) :
    P (op >>= f)
  scan (condition : Option Expr) : P (Operation.scan table (.ofCondition condition))
  insert (row : Row) : P (Operation.insert table row)
  update (position : Nat) (row : Row) : P (Operation.update table position row)
  delete (position : Nat) : P (Operation.delete table position)
  createTable (schema : Schema) : P (Operation.createTable table schema)
  dropTable : P (Operation.dropTable table)
  createIndex (column : String) : P (Operation.createIndex table column)

/-- A property of operations that holds of each that a statement calls, of its checks, and of two in a
row. -/
structure Closed (P : {α : Type} → Operation α → Prop) : Prop where
  pure {α : Type} (a : α) : P (Pure.pure a : Operation α)
  ofResult {α : Type} {result : Except Error α} (hresult : Avoids Error.isDamage result) :
    P (Operation.ofResult result)
  schema (table : String) : P (Operation.ask fun store ↦ store.schema table)
  bind {α β : Type} {op : Operation α} {f : α → Operation β} (h : P op) (hf : ∀ a, P (f a)) :
    P (op >>= f)
  scan (table : String) (condition : Option Expr) :
    P (Operation.scan table (.ofCondition condition))
  insert (table : String) (row : Row) : P (Operation.insert table row)
  update (table : String) (position : Nat) (row : Row) : P (Operation.update table position row)
  delete (table : String) (position : Nat) : P (Operation.delete table position)
  createTable (table : String) (schema : Schema) : P (Operation.createTable table schema)
  dropTable (table : String) : P (Operation.dropTable table)
  createIndex (table column : String) : P (Operation.createIndex table column)

namespace ClosedAt

variable {P : {α : Type} → Operation α → Prop} {table : String} (h : ClosedAt table P)

include h

theorem forM {α : Type} {xs : List α} {f : α → Operation Unit} (hf : ∀ x, P (f x)) :
    P (xs.forM f) := by
  induction xs with
  | nil => exact h.pure ()
  | cons x xs ih => exact h.bind (hf x) fun _ ↦ ih

theorem query {predicate : Predicate} (hscan : P (Operation.scan table predicate)) :
    P (Operation.query table predicate) :=
  h.bind hscan fun _ ↦ h.pure _

theorem queryColumns {predicate : Predicate} (hscan : P (Operation.scan table predicate))
    (columns : List String) : P (Operation.queryColumns table columns predicate) := by
  apply h.bind h.schema
  intro schema
  apply h.bind (h.ofResult (.checkColumns table schema columns))
  intro _
  exact h.bind hscan fun _ ↦ h.pure _

theorem select (distinct : Bool) (selection : Selection) (condition : Option Expr) :
    P (Database.select distinct selection table condition) := by
  apply h.bind h.schema
  intro schema
  apply h.bind (h.ofResult (.checkColumns table schema _))
  intro _
  apply h.bind (h.ofResult (.checkColumns table schema _))
  intro _
  apply h.bind (h.query (h.scan condition))
  intro rows
  exact h.bind (h.ofResult (.mapError fun _ ↦ rfl)) fun _ ↦ h.pure _

theorem insertStatement (columns : Option (List String)) (values : List Value) :
    P (Database.insert table columns values) := by
  apply h.bind h.schema
  intro schema
  apply h.bind (h.ofResult (.insertedRow table schema columns values))
  intro row
  exact h.bind (h.insert row) fun _ ↦ h.pure _

theorem createTableStatement (columns : List ColumnDefinition) :
    P (Database.createTable table columns) := by
  apply h.bind (h.ofResult (.mapError fun _ ↦ rfl))
  intro schema
  apply h.bind (h.createTable schema)
  intro _
  refine h.bind ?_ fun _ ↦ h.pure _
  apply h.forM
  exact fun column ↦ h.createIndex column.name

theorem updateStatement (changes : List (String × Value)) (condition : Option Expr) :
    P (Database.update table changes condition) := by
  apply h.bind h.schema
  intro schema
  apply h.bind (h.ofResult (.mapM (.fittedChange table schema)))
  intro changes
  apply h.bind (h.ofResult (.required condition))
  intro condition
  apply h.bind (h.ofResult (.checkColumns table schema _))
  intro _
  apply h.bind (h.scan (some _))
  intro found
  refine h.bind ?_ fun _ ↦ h.pure _
  apply h.forM
  rintro ⟨position, row⟩
  exact h.update position _

theorem deleteStatement (condition : Option Expr) : P (Database.delete table condition) := by
  apply h.bind h.schema
  intro schema
  apply h.bind (h.ofResult (.required condition))
  intro condition
  apply h.bind (h.ofResult (.checkColumns table schema _))
  intro _
  apply h.bind (h.scan (some _))
  intro found
  refine h.bind ?_ fun _ ↦ h.pure _
  apply h.forM
  rintro ⟨position, row⟩
  exact h.delete position

omit h

theorem run {statement : Statement} (h : ClosedAt statement.table P) :
    P (Database.run statement) := by
  cases statement with
  | select distinct selection table condition => exact h.select distinct selection condition
  | insert table columns values => exact h.insertStatement columns values
  | createTable table columns => exact h.createTableStatement columns
  | update table changes condition => exact h.updateStatement changes condition
  | delete table condition => exact h.deleteStatement condition
  | dropTable table => exact h.bind h.dropTable fun _ ↦ h.pure _

end ClosedAt

namespace Database

theorem execute_eq_run {text : String} {statement : Statement}
    (h : Statement.ofText text = .ok statement) : execute text = run statement := by
  rw [execute, h]
  rfl

theorem execute_eq_error {text : String} {e : SyntaxError} (h : Statement.ofText text = .error e) :
    execute text = Operation.ofResult (.error (.invalidStatement e)) := by
  rw [execute, h]
  rfl

end Database

namespace Closed

variable {P : {α : Type} → Operation α → Prop} (h : Closed P)

include h

theorem on (table : String) : ClosedAt table P where
  pure := h.pure
  ofResult := h.ofResult
  schema := h.schema table
  bind := h.bind
  scan := h.scan table
  insert := h.insert table
  update := h.update table
  delete := h.delete table
  createTable := h.createTable table
  dropTable := h.dropTable table
  createIndex := h.createIndex table

theorem run (statement : Statement) : P (Database.run statement) := (h.on statement.table).run

theorem execute (text : String) : P (Database.execute text) :=
  h.bind (h.ofResult (.mapError fun _ ↦ rfl)) fun statement ↦ h.run statement

end Closed

end TableStore
