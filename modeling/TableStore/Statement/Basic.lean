import TableStore.Comparison
import TableStore.Value

namespace TableStore

inductive Operator
  | add | sub | mul | div
  | eq | ne | lt | le | gt | ge
  deriving DecidableEq

namespace Operator

def text : Operator → String
  | .add => "+"
  | .sub => "-"
  | .mul => "*"
  | .div => "/"
  | .eq => "="
  | .ne => "<>"
  | .lt => "<"
  | .le => "<="
  | .gt => ">"
  | .ge => ">="

def isArithmetic : Operator → Bool
  | .add | .sub | .mul | .div => true
  | _ => false

def comparison? : Operator → Option Comparison
  | .eq => some .eq
  | .lt => some .lt
  | .le => some .le
  | .gt => some .gt
  | .ge => some .ge
  | _ => none

end Operator

inductive Expr
  | literal (value : Value)
  | column (name : String)
  | binary (left : Expr) (op : Operator) (right : Expr)
  | not (inner : Expr)
  | nested (inner : Expr)
  deriving DecidableEq

namespace Expr

def unnested : Expr → Expr
  | .nested inner => inner.unnested
  | e => e

def columns : Expr → List String
  | .literal _ => []
  | .column name => [name]
  | .binary left _ right => left.columns ++ right.columns
  | .not inner => inner.columns
  | .nested inner => inner.columns

end Expr

inductive Nullability
  | null
  | notNull
  deriving DecidableEq

structure ColumnDefinition where
  name : String
  type : DataType
  primaryKey : Bool := false
  unique : Bool := false
  nullability : Option Nullability := none
  deriving DecidableEq

/-- Only a column that is declared so holds nulls. -/
def ColumnDefinition.allowsNull (column : ColumnDefinition) : Bool :=
  column.nullability == some .null

structure SelectItem where
  column : String
  newName : Option String
  deriving DecidableEq

def SelectItem.outputName (item : SelectItem) : String := item.newName.getD item.column

inductive Selection
  | all
  | items (items : List SelectItem)
  deriving DecidableEq

inductive Statement
  | select (distinct : Bool) (selection : Selection) (table : String) (condition : Option Expr)
  | insert (table : String) (columns : Option (List String)) (values : List Value)
  | createTable (table : String) (columns : List ColumnDefinition)
  | update (table : String) (changes : List (String × Value)) (condition : Option Expr)
  | delete (table : String) (condition : Option Expr)
  | dropTable (table : String)
  deriving DecidableEq

def Statement.kind : Statement → String
  | .select .. => "SELECT"
  | .insert .. => "INSERT"
  | .createTable .. => "CREATE TABLE"
  | .update .. => "UPDATE"
  | .delete .. => "DELETE"
  | .dropTable .. => "DROP TABLE"

end TableStore
