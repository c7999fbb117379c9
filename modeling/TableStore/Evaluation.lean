import TableStore.Ensure
import TableStore.Record
import TableStore.Statement.Basic
import TableStore.Text.Blank

namespace TableStore

inductive ConditionFault
  | cell (fault : CellFault)
  | notInRow (column : String)
  | columnNotBoolean (column : String) (value : Value)
  | literalNotBoolean (value : Value)
  | arithmetic (op : Operator)
  | rightOperand (op : Operator)
  | noInteger (value : Value)
  deriving DecidableEq

def ConditionFault.message : ConditionFault → String
  | .cell fault => fault.message
  | .notInRow column => "Column " ++ column ++ " is not part of the row."
  | .columnNotBoolean column value =>
    "Column " ++ column ++ " holds " ++ value.display ++ ", which is not a boolean."
  | .literalNotBoolean value => "Literal " ++ value.display ++ " is not a boolean."
  | .arithmetic op => "Operator " ++ op.text ++ " does not produce a boolean."
  | .rightOperand op => "Right operand of " ++ op.text ++ " must be a literal."
  | .noInteger value => "Value " ++ value.display ++ " cannot be compared as an integer."

namespace Value

/-- Equality of stored forms, numbers by value. -/
def sameValue (left right : Value) : Except CellFault Bool := do
  let left ← left.encode
  let right ← right.encode
  return left.sameValue right

/-- The integer as which the orderings see a value. -/
def integer? : Value → Option Int64
  | .int n => some n
  | .float (.finite x) => some (Numeral.clamp x.toIntHalfEven)
  | .bool b => some (if b then 1 else 0)
  | .text s => Numeral.signed? (Text.trim s.toList)
  | _ => none

def integer (value : Value) : Except ConditionFault Int64 :=
  match value.integer? with
  | some n => .ok n
  | none => .error (.noInteger value)

end Value

namespace Operator

def apply (op : Operator) (left right : Value) : Except ConditionFault Bool :=
  match op with
  | .eq => (left.sameValue right).mapError .cell
  | .ne => ((left.sameValue right).map (!·)).mapError .cell
  | op =>
    match op.comparison? with
    | none => .error (.arithmetic op)
    | some comparison => do return comparison.holds (← left.integer) (← right.integer)

end Operator

namespace Expr

def lookup (row : Row) (name : String) : Except ConditionFault Value :=
  match row.get? name with
  | some value => .ok value
  | none => .error (.notInRow name)

/-- A right operand is a literal, perhaps in parentheses. -/
def literalOperand (op : Operator) (e : Expr) : Except ConditionFault Value :=
  match e.unnested with
  | .literal value => .ok value
  | _ => .error (.rightOperand op)

def operand (row : Row) (e : Expr) (truth : Except ConditionFault Bool) :
    Except ConditionFault Value :=
  match e.unnested with
  | .literal value => .ok value
  | .column name => lookup row name
  | _ => truth.map .bool

def evaluate (row : Row) : Expr → Except ConditionFault Bool
  | .nested inner => evaluate row inner
  | .not inner => (evaluate row inner).map (!·)
  | .literal (.bool b) => .ok b
  | .literal value => .error (.literalNotBoolean value)
  | .column name =>
    match lookup row name with
    | .ok (.bool b) => .ok b
    | .ok value => .error (.columnNotBoolean name value)
    | .error fault => .error fault
  | .binary left op right => do
    ensure (!op.isArithmetic) (.arithmetic op)
    let leftValue ← operand row left (evaluate row left)
    let rightValue ← literalOperand op right
    op.apply leftValue rightValue

def hint? (e : Expr) : Option IndexHint :=
  match e.unnested with
  | .binary left op right =>
    match left.unnested, right.unnested with
    | .column name, .literal (.int value) =>
      op.comparison?.map fun comparison ↦ ⟨name, comparison, value⟩
    | _, _ => none
  | _ => none

end Expr

end TableStore
