import TableStore.Statement.Phrase
import TableStore.Store.Rows
import TableStore.Store.Scan
import TableStore.Store.Tables

namespace TableStore

inductive Outcome
  | rows (records : List Record)
  | status (text : String)

def Outcome.text : Outcome → String
  | .rows records => (Json.array (records.map .object)).compactText
  | .status text => text

namespace Database

/-- Result objects with this member are left out. -/
def reservedName : String := "TableName"

/-- Fits a literal to the column that is to hold it. An integer becomes a float, a timestamp the
text that spelled it, and a text in a timestamp column has to spell a timestamp. -/
def fit (column : Column) (value : Value) : Except Error Value :=
  match column.type, value with
  | .float, .int n => .ok (.float (.ofInt n.toInt))
  | .string, .datetime t => .ok (.text t.text)
  | .datetime, .text s =>
    match Timestamp.ofText? s with
    | some t => .ok (.datetime t)
    | none => .error (.cell (.wrongType value .datetime))
  | _, value => .ok value

def starItems (schema : Schema) : List SelectItem :=
  schema.names.map fun name ↦ ⟨name, none⟩

def items (schema : Schema) : Selection → List SelectItem
  | .all => starItems schema
  | .items items => items

def resultMember (row : Row) (item : SelectItem) : Except CellFault (String × Json) := do
  return (item.outputName, .scalar (← ((row.get? item.column).getD .null).encode))

/-- The result object of a row. An output name that comes again replaces the earlier value. -/
def project (items : List SelectItem) (row : Row) : Except CellFault Record := do
  return Record.ofList (← items.mapM (resultMember row))

def isReserved (record : Record) : Bool := (record.get? reservedName).isSome

/-- Keeps the first of the records with one text. -/
def distinctRecords (records : List Record) : List Record := go [] records
where
  go (seen : List String) : List Record → List Record
    | [] => []
    | record :: rest =>
      let text := (Json.object record).compactText
      if text ∈ seen then go seen rest else record :: go (text :: seen) rest

open Operation (ask ofResult)
open Store (checkColumn checkColumns)

def checkCondition (table : String) (schema : Schema) (condition : Expr) : Except Error Unit :=
  checkColumns table schema condition.columns

def resultRecords (distinct : Bool) (items : List SelectItem) (rows : List Row) :
    Except CellFault (List Record) := do
  let records := (← rows.mapM (project items)).filter (!isReserved ·)
  return if distinct then distinctRecords records else records

def select (distinct : Bool) (selection : Selection) (table : String) (condition : Option Expr) :
    Operation Outcome := do
  let schema ← ask fun store ↦ store.schema table
  ofResult (checkColumns table schema ((items schema selection).map SelectItem.column))
  ofResult (checkColumns table schema ((condition.map Expr.columns).getD []))
  let rows ← Operation.query table (.ofCondition condition)
  return .rows (← ofResult ((resultRecords distinct (items schema selection) rows).mapError .cell))

def addCell (table : String) (schema : Schema) (row : Row) (cell : String × Value) :
    Except Error Row := do
  let column ← checkColumn table schema cell.1
  ensure (!row.contains cell.1) (.repeatedColumn cell.1)
  return row.set cell.1 (← fit column cell.2)

/-- The row of an insertion. Without a list of columns the values go to all columns in order. -/
def insertedRow (table : String) (schema : Schema) (columns : Option (List String))
    (values : List Value) : Except Error Row := do
  let names := columns.getD schema.names
  ensure (names.length = values.length) (.valueCount names.length values.length)
  (names.zip values).foldlM (addCell table schema) Row.empty

def insert (table : String) (columns : Option (List String)) (values : List Value) :
    Operation Outcome := do
  let schema ← ask fun store ↦ store.schema table
  let row ← ofResult (insertedRow table schema columns values)
  Operation.insert table row
  return .status ("Row inserted into " ++ table)

def definedColumn (column : ColumnDefinition) : Column :=
  ⟨column.name, column.type, column.primaryKey, column.unique, column.allowsNull⟩

def isKeyColumn (column : Column) : Bool := column.primaryKey && column.type = .int

def createTable (table : String) (columns : List ColumnDefinition) : Operation Outcome := do
  let schema ←
    ofResult ((Schema.ofColumns (columns.map definedColumn)).mapError .repeatedColumn)
  Operation.createTable table schema
  (schema.columns.filter isKeyColumn).forM fun column ↦ Operation.createIndex table column.name
  return .status ("Table " ++ table ++ " created")

def required (condition : Option Expr) : Except Error Expr :=
  match condition with
  | some e => .ok e
  | none => .error .missingCondition

def fittedChange (table : String) (schema : Schema) (change : String × Value) :
    Except Error (String × Value) := do
  let column ← checkColumn table schema change.1
  return (change.1, ← fit column change.2)

def changedRow (changes : List (String × Value)) (row : Row) : Row :=
  changes.foldl (fun row change ↦ row.set change.1 change.2) row

def update (table : String) (changes : List (String × Value)) (condition : Option Expr) :
    Operation Outcome := do
  let schema ← ask fun store ↦ store.schema table
  let changes ← ofResult (changes.mapM (fittedChange table schema))
  let condition ← ofResult (required condition)
  ofResult (checkCondition table schema condition)
  let found ← Operation.scan table (.ofExpr condition)
  found.forM fun (position, row) ↦ Operation.update table position (changedRow changes row)
  return .status ((if found.isEmpty then "No rows to update in " else "Rows updated in ") ++ table)

/-- Removes rows from the last position on, so that earlier positions stay valid. -/
def delete (table : String) (condition : Option Expr) : Operation Outcome := do
  let schema ← ask fun store ↦ store.schema table
  let condition ← ofResult (required condition)
  ofResult (checkCondition table schema condition)
  let found ← Operation.scan table (.ofExpr condition)
  found.reverse.forM fun (position, _) ↦ Operation.delete table position
  return .status ("Rows deleted from " ++ table)

def dropTable (table : String) : Operation Outcome := do
  Operation.dropTable table
  return .status ("Table " ++ table ++ " dropped")

def run : Statement → Operation Outcome
  | .select distinct selection table condition => select distinct selection table condition
  | .insert table columns values => insert table columns values
  | .createTable table columns => createTable table columns
  | .update table changes condition => update table changes condition
  | .delete table condition => delete table condition
  | .dropTable table => dropTable table

def execute (text : String) : Operation Outcome := do
  run (← ofResult ((Statement.ofText text).mapError .invalidStatement))

def reply : Except Error Outcome → String
  | .ok outcome => outcome.text
  | .error e => e.message

def executeQuery (text : String) : StateM Store String := do
  return reply (← (execute text).run)

end Database

end TableStore
