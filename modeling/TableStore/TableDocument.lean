import TableStore.Json.Decode
import TableStore.Record

namespace TableStore

open Json (Tree)

namespace Column

def toJson (column : Column) : Json :=
  .object [("Name", .scalar (.string column.name)),
    ("Type", .scalar (.string column.type.storedName)),
    ("PrimaryKey", .scalar (.bool column.primaryKey)),
    ("Unique", .scalar (.bool column.unique)),
    ("AllowNull", .scalar (.bool column.allowNull))]

/-- A type is its name, or an object with the name and a null. -/
def type? : Tree → Option DataType
  | .leaf (some (.string name)) => DataType.ofStoredName? name
  | .object [(some name, .leaf (some .null))] => DataType.ofStoredName? name
  | _ => none

def ofTree? (tree : Tree) : Option Column := do
  match ← tree.fields? ["Name", "Type", "PrimaryKey", "Unique", "AllowNull"] with
  | [name, type, primaryKey, unique, allowNull] =>
    let name ← Tree.required Tree.string? name
    let type ← Tree.required type? type
    let primaryKey ← Tree.optional false Tree.bool? primaryKey
    let unique ← Tree.optional false Tree.bool? unique
    let allowNull ← Tree.optional false Tree.bool? allowNull
    return ⟨name, type, primaryKey, unique, allowNull⟩
  | _ => none

end Column

structure TableDocument where
  name : String
  columns : List Column
  records : List Record

namespace TableDocument

def new (name : String) (schema : Schema) : TableDocument := ⟨name, schema.columns, []⟩

def toJson (document : TableDocument) : Json :=
  .object [("TableName", .scalar (.string document.name)),
    ("Columns", .array (document.columns.map Column.toJson)),
    ("Data", .array (document.records.map .object))]

def text (document : TableDocument) : String := document.toJson.prettyText

/-- A record within `depth` levels of arrays and objects. -/
def record? (depth : Nat) (tree : Tree) : Option Record :=
  match tree.value? depth with
  | some (.object members) => some members
  | _ => none

def ofTree? (tree : Tree) : Option TableDocument := do
  match ← tree.fields? ["TableName", "Columns", "Data"] with
  | [name, columns, records] =>
    let name ← Tree.required Tree.string? name
    let columns ← Tree.required Tree.items? columns
    let columns ← columns.mapM Column.ofTree?
    let records ← Tree.optional [] Tree.items? records
    let records ← records.mapM (record? (Json.maxDepth - 2))
    return ⟨name, columns, records⟩
  | _ => none

def ofText? (text : String) : Option TableDocument := do ofTree? (← Tree.ofText? text)

def schema (document : TableDocument) : Except String Schema := Schema.ofColumns document.columns

end TableDocument

end TableStore
