import TableStore.Number.Layout
import TableStore.Timestamp

namespace TableStore

inductive DataType
  | int
  | float
  | bool
  | string
  | datetime
  deriving DecidableEq

namespace DataType

def text : DataType → String
  | .int => "INT"
  | .float => "FLOAT"
  | .bool => "BOOL"
  | .string => "STRING"
  | .datetime => "DATETIME"

def storedName : DataType → String
  | .int => "int"
  | .float => "float"
  | .bool => "bool"
  | .string => "string"
  | .datetime => "datetime"

def all : List DataType := [.int, .float, .bool, .string, .datetime]

def ofStoredName? (name : String) : Option DataType := all.find? fun type ↦ type.storedName = name

end DataType

inductive Value
  | null
  | int (n : Int64)
  | float (x : Double)
  | text (s : String)
  | bool (b : Bool)
  | datetime (t : Timestamp)
  deriving DecidableEq

namespace Value

/-- The type of a value. A null has none of its own. -/
def type? : Value → Option DataType
  | .null => none
  | .int _ => some .int
  | .float _ => some .float
  | .text _ => some .string
  | .bool _ => some .bool
  | .datetime _ => some .datetime

def int? : Value → Option Int64
  | .int n => some n
  | _ => none

def display : Value → String
  | .null => "NULL"
  | .int n => String.ofList (Numeral.ofInt n.toInt)
  | .float x => String.ofList (Layout.plain.double x)
  | .text s => "'" ++ s ++ "'"
  | .bool true => "TRUE"
  | .bool false => "FALSE"
  | .datetime t => "'" ++ t.text ++ "'"

end Value

end TableStore
