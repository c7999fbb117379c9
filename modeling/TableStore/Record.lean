import TableStore.Json.Writer
import TableStore.Row
import TableStore.Schema

namespace TableStore

inductive CellFault
  | notFinite (x : Double)
  | nullNotAllowed (column : String)
  | wrongType (value : Value) (type : DataType)
  deriving DecidableEq

inductive RowFault
  | unknownColumn (name : String)
  | missingColumns (names : List String)
  | cell (fault : CellFault)
  deriving DecidableEq

inductive RecordFault
  | missing (column : String)
  | wrongType (json : Json) (type : DataType) (column : String)

namespace Value

def encode : Value → Except CellFault Json.Scalar
  | .null => .ok .null
  | .int n => .ok (.number (.integer n.toInt))
  | .float (.finite x) => .ok (.number (.float x))
  | .float x => .error (.notFinite x)
  | .text s => .ok (.string s)
  | .bool b => .ok (.bool b)
  | .datetime t => .ok (.string t.text)

def decode? : Json → DataType → Option Value
  | .scalar .null, _ => some .null
  | .scalar (.number n), .int => n.toInt64?.map .int
  | .scalar (.number n), .float => some (.float n.toDouble)
  | .scalar (.bool b), .bool => some (.bool b)
  | .scalar (.string s), .string => some (.text s)
  | .scalar (.string s), .datetime => (Timestamp.ofText? s).map .datetime
  | _, _ => none

end Value

def Column.encode (column : Column) (value : Value) : Except CellFault Json.Scalar :=
  if column.accepts value then value.encode
  else if value = .null then .error (.nullNotAllowed column.name)
  else .error (.wrongType value column.type)

namespace Schema

def encodeCell (row : Row) (column : Column) : Except RowFault (String × Json) :=
  match column.encode ((row.get? column.name).getD .null) with
  | .ok s => .ok (column.name, .scalar s)
  | .error fault => .error (.cell fault)

def missingFrom (schema : Schema) (row : Row) : List String :=
  schema.names.filter fun name ↦ !row.contains name

/-- The record of a row, in the order of the schema. The row must have just the columns of the
schema, in any order. -/
def encodeRow (schema : Schema) (row : Row) : Except RowFault Record :=
  match row.entries.find? fun entry ↦ !schema.contains entry.1 with
  | some (name, _) => .error (.unknownColumn name)
  | none =>
    if schema.missingFrom row = [] then schema.columns.mapM (encodeCell row)
    else .error (.missingColumns (schema.missingFrom row))

def decodeCell (column : Column) (record : Record) : Except RecordFault (String × Value) :=
  match record.get? column.name with
  | none => .error (.missing column.name)
  | some json =>
    match Value.decode? json column.type with
    | none => .error (.wrongType json column.type column.name)
    | some value => .ok (column.name, value)

/-- The row of a record, in the order of the schema. Members that are not in the schema are passed
over. -/
def decodeRow (schema : Schema) (record : Record) : Except RecordFault Row := do
  return Row.ofList (← schema.columns.mapM fun column ↦ decodeCell column record)

end Schema

namespace CellFault

def message : CellFault → String
  | .notFinite x => "Value " ++ String.ofList (Layout.plain.double x) ++ " is not a finite float."
  | .nullNotAllowed column => "Column " ++ column ++ " does not allow NULL."
  | .wrongType value type => "Value " ++ value.display ++ " is not of type " ++ type.text ++ "."

end CellFault

def RecordFault.message : RecordFault → String
  | .missing column => "record has no value for column " ++ column
  | .wrongType json type column =>
    "value " ++ json.compactText ++ " is not of type " ++ type.text ++ " in column " ++ column

end TableStore
