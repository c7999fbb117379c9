import TableStore.BTree.Document
import TableStore.BTree.Erase
import TableStore.BTree.Insert
import TableStore.Config
import TableStore.Ensure
import TableStore.TableDocument

namespace TableStore

/-- The tables and indexes below one root directory. An index stays in memory once it is read. -/
structure Store where
  config : Config
  files : FileSystem
  cache : List ((String × String) × BTree)

/-- A step of a store. Its effect lasts when it fails. -/
abbrev Operation (α : Type) := ExceptT Error (StateM Store) α

namespace Store

def start (config : Config) (files : FileSystem) : Except Error Store × FileSystem :=
  match config.fault? with
  | some fault => (.error (.config fault), files)
  | none =>
    match files.createDirectories config.rootPath with
    | (files, none) => (.ok ⟨config, files, []⟩, files)
    | (files, some fault) => (.error (.io config.rootPath fault), files)

/-- Names become parts of file names. -/
def isName (name : String) : Bool :=
  name ≠ "" && name.toList.all fun c ↦ c ≠ '.' && c ≠ '/' && c ≠ '\\' && c ≠ '\x00'

def checkName (name : String) : Except Error Unit :=
  if isName name then .ok () else .error (.invalidName name)

def tablePath (store : Store) (table : String) : Path :=
  store.config.rootPath.join (table ++ ".json")

def indexEnding : String := ".idx.json"

def indexPath (store : Store) (table column : String) : Path :=
  store.config.rootPath.join (table ++ "." ++ column ++ indexEnding)

def tableExists (store : Store) (table : String) : Bool :=
  isName table && store.files.isFile (store.tablePath table)

def checkTable (store : Store) (table : String) : Except Error Unit :=
  if store.tableExists table then .ok () else .error (.tableNotFound table)

def readText (store : Store) (path : Path) : Except Error String :=
  (store.files.read path).mapError (.io path)

def tableOfText (path : Path) (text : String) : Except Error (TableDocument × Schema) :=
  match TableDocument.ofText? text with
  | none => .error (.corrupt path .json)
  | some document =>
    match document.schema with
    | .error name => .error (.corrupt path (.repeatedColumn name))
    | .ok schema => .ok (document, schema)

def document (store : Store) (table : String) : Except Error (TableDocument × Schema) := do
  checkName table
  ensure (store.files.isFile (store.tablePath table)) (.tableNotFound table)
  tableOfText (store.tablePath table) (← store.readText (store.tablePath table))

def schema (store : Store) (table : String) : Except Error Schema := do
  return (← store.document table).2

def decodeRecord (path : Path) (schema : Schema) (record : Record) : Except Error Row :=
  (schema.decodeRow record).mapError fun fault ↦ .corrupt path (.record fault)

def decodeRows (store : Store) (document : TableDocument) (schema : Schema) :
    Except Error (List Row) :=
  document.records.mapM (decodeRecord (store.tablePath document.name) schema)

def checkColumn (table : String) (schema : Schema) (name : String) : Except Error Column :=
  match schema.column? name with
  | some column => .ok column
  | none => .error (.columnNotFound table name)

def checkColumns (table : String) (schema : Schema) (names : List String) : Except Error Unit :=
  names.forM fun name ↦ (checkColumn table schema name).map fun _ ↦ ()

def rowCount (store : Store) (table : String) : Except Error Nat := do
  return (← store.document table).1.records.length

def indexColumn? (table fileName : String) : Option String := do
  let rest ← (table ++ ".").toList.isPrefixOf? fileName.toList
  let column ← indexEnding.toList.isSuffixOf? rest
  if column ≠ [] ∧ '.' ∉ column then some (String.ofList column) else none

/-- The columns of a table that have an index file, in order. -/
def listIndexes (store : Store) (table : String) : Except Error (List String) := do
  let root := store.config.rootPath
  let names ← (store.files.list root).mapError (.io root)
  return (names.filterMap (indexColumn? table)).mergeSort fun a b ↦ decide (a ≤ b)

def hasIndex (store : Store) (table column : String) : Bool :=
  isName table && isName column &&
    ((store.cache.lookup (table, column)).isSome ||
      store.files.isFile (store.indexPath table column))

def indexKey (table column : String) (row : Row) : Except Error Int64 :=
  match row.get? column with
  | some (.int key) => .ok key
  | found => .error (.type (.indexKey table column found))

def treeOfText (path : Path) (text : String) : Except Error BTree :=
  match BTree.ofText? text with
  | none => .error (.corrupt path .json)
  | some tree =>
    match tree.check with
    | .error defect => .error (.corrupt path (.tree defect))
    | .ok () => .ok tree

def readIndex (store : Store) (table column : String) : Except Error BTree := do
  ensure (store.files.isFile (store.indexPath table column)) (.indexNotFound table column)
  treeOfText (store.indexPath table column) (← store.readText (store.indexPath table column))

end Store

namespace Operation

/-- A question about the store, which changes nothing. -/
def ask {α : Type} (question : Store → Except Error α) : Operation α :=
  ExceptT.mk fun store ↦ (question store, store)

/-- A result that does not depend on the store. -/
def ofResult {α : Type} (result : Except Error α) : Operation α := ask fun _ ↦ result

theorem ofResult_ok_bind {α β : Type} (a : α) (f : α → Operation β) :
    (ofResult (.ok a) >>= f) = f a := rfl

def changeFiles (path : Path) (change : FileSystem → Except FileSystem.Fault FileSystem) :
    Operation Unit :=
  ExceptT.mk fun store ↦
    match change store.files with
    | .ok files => (.ok (), { store with files })
    | .error fault => (.error (.io path fault), store)

def write (path : Path) (text : String) : Operation Unit :=
  changeFiles path fun files ↦ files.write path (.text text)

def removeFile (path : Path) : Operation Unit := changeFiles path (·.removeFile path)

def remember (table column : String) (tree : BTree) : Operation Unit :=
  modify fun store ↦
    { store with
      cache := ((table, column), tree) ::
        store.cache.filter fun entry ↦ entry.1 ≠ (table, column) }

def forget (dropped : String × String → Bool) : Operation Unit :=
  modify fun store ↦ { store with cache := store.cache.filter fun entry ↦ !dropped entry.1 }

def writeTable (document : TableDocument) : Operation Unit := do
  write ((← get).tablePath document.name) document.text

def writeIndex (table column : String) (tree : BTree) : Operation Unit := do
  write ((← get).indexPath table column) tree.text

def index (table column : String) : Operation BTree := do
  ofResult (Store.checkName column)
  match (← get).cache.lookup (table, column) with
  | some tree => return tree
  | none =>
    let tree ← ask fun store ↦ store.readIndex table column
    remember table column tree
    return tree

def onTree {α : Type} (result : Except BTree.Fault α) : Operation α :=
  ofResult (result.mapError .brokenTree)

/-- Changes an index in memory and then writes its file. -/
def changeIndex (table column : String) (change : BTree → Except BTree.Fault BTree) :
    Operation Unit := do
  let tree ← onTree (change (← index table column))
  remember table column tree
  writeIndex table column tree

end Operation

end TableStore
