import TableStore.BTree.Check
import TableStore.Evaluation
import TableStore.FileSystem.Basic
import TableStore.SyntaxError
import TableStore.Text.Quoted

namespace TableStore

inductive ConfigFault
  | indexDegree (degree : Nat)
  | emptyRoot
  deriving DecidableEq

inductive Corruption
  | json
  | repeatedColumn (name : String)
  | record (fault : RecordFault)
  | tree (defect : BTree.Defect)

inductive TypeFault
  | condition (fault : ConditionFault)
  | indexKey (table column : String) (found : Option Value)
  | indexType (table column : String)
  deriving DecidableEq

inductive Error
  | invalidStatement (e : SyntaxError)
  | tableNotFound (table : String)
  | tableExists (table : String)
  | columnNotFound (table column : String)
  | repeatedColumn (name : String)
  | invalidName (name : String)
  | missingColumns (names : List String)
  | valueCount (columns values : Nat)
  | indexNotFound (table column : String)
  | type (fault : TypeFault)
  | rowPosition (table : String) (position count : Nat)
  | io (path : Path) (fault : FileSystem.Fault)
  | corrupt (path : Path) (reason : Corruption)
  | missingCondition
  | config (fault : ConfigFault)
  /-- A tree that is not a tree of its degree was to be changed. -/
  | brokenTree (fault : BTree.Fault)
  /-- A record that is not there was to be read, replaced or removed. -/
  | noRecord (position count : Nat)

def ConfigFault.message : ConfigFault → String
  | .indexDegree n =>
    "index_degree must be within 2..=65536, got " ++ String.ofList (Numeral.ofNat n)
  | .emptyRoot => "root must not be empty"

def Corruption.message : Corruption → String
  | .json => "invalid JSON"
  | .repeatedColumn name => "Column " ++ name ++ " is defined more than once"
  | .record fault => fault.message
  | .tree defect => defect.message

def TypeFault.message : TypeFault → String
  | .condition fault => fault.message
  | .indexKey table column found =>
    "Index on " ++ table ++ "." ++ column ++ " requires integer values, found " ++
      (found.map Value.display).getD "nothing" ++ "."
  | .indexType table column =>
    "Cannot index " ++ table ++ "." ++ column ++ ": only INT columns can be indexed."

namespace Error

def cell (fault : CellFault) : Error := .type (.condition (.cell fault))

def condition (fault : ConditionFault) : Error := .type (.condition fault)

def row (table : String) : RowFault → Error
  | .unknownColumn name => .columnNotFound table name
  | .missingColumns names => .missingColumns names
  | .cell fault => cell fault

def natText (n : Nat) : String := String.ofList (Numeral.ofNat n)

def message : Error → String
  | .invalidStatement e => "Error parsing query: " ++ e.message
  | .tableNotFound table => "Table " ++ table ++ " not found"
  | .tableExists table => table ++ " already exists"
  | .columnNotFound table column => "Column " ++ column ++ " not found in table " ++ table
  | .repeatedColumn name => "Column " ++ name ++ " is defined more than once"
  | .invalidName name => Text.Quoted.encode name ++ " is not a valid table or column name"
  | .missingColumns names =>
    "Row is missing required columns: " ++ String.intercalate ", " names
  | .valueCount columns values =>
    natText columns ++ " columns given but " ++ natText values ++ " values supplied"
  | .indexNotFound table column => "No index on " ++ table ++ "." ++ column
  | .type fault => "Type error: " ++ fault.message
  | .rowPosition table position count =>
    "Row position " ++ natText position ++ " is out of range for " ++ table ++ " (" ++
      natText count ++ " rows)"
  | .io path fault => "I/O error on " ++ path.text ++ ": " ++ fault.message
  | .corrupt path reason => "Corrupt file " ++ path.text ++ ": " ++ reason.message
  | .missingCondition => "No where clause found"
  | .config fault => "Invalid configuration: " ++ fault.message
  | .brokenTree fault => fault.message
  | .noRecord position count =>
    "no record at " ++ natText position ++ " of " ++ natText count

/-- A program that gets there ends without an answer. -/
def isPanic : Error → Bool
  | .brokenTree _ => true
  | .noRecord .. => true
  | _ => false

end Error

end TableStore
