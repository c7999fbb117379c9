import TableStore.Store.Basic

namespace TableStore

namespace Store

def checkIndexable (table column : String) (schema : Schema) : Except Error Unit :=
  match schema.column? column with
  | none => .error (.columnNotFound table column)
  | some definition => ensure (definition.type = .int) (.type (.indexType table column))

def indexOfRows (degree : Nat) (table column : String) (rows : List Row) : Except Error BTree := do
  let keys ← rows.mapM (indexKey table column)
  (BTree.ofKeys degree keys).mapError .brokenTree

end Store

namespace Operation

def createTable (table : String) (schema : Schema) : Operation Unit := do
  ofResult (Store.checkName table)
  ofResult (schema.names.forM Store.checkName)
  ask fun store ↦ ensure (!store.files.entryExists (store.tablePath table)) (.tableExists table)
  writeTable (.new table schema)

def removeIndexFile (table column : String) : Operation Unit := do
  removeFile ((← get).indexPath table column)

def dropTable (table : String) : Operation Unit := do
  ask fun store ↦ store.checkTable table
  (← ask fun store ↦ store.listIndexes table).forM (removeIndexFile table)
  forget fun key ↦ key.1 = table
  removeFile ((← get).tablePath table)

def createIndex (table column : String) : Operation Unit := do
  let (document, schema) ← ask fun store ↦ store.document table
  ofResult (Store.checkIndexable table column schema)
  let rows ← ask fun store ↦ store.decodeRows document schema
  let tree ← ask fun store ↦ Store.indexOfRows store.config.indexDegree table column rows
  writeIndex table column tree
  remember table column tree

def tableIndex (table column : String) : Operation BTree := do
  ask fun store ↦ store.checkTable table
  index table column

def dropIndex (table column : String) : Operation Unit := do
  ofResult (Store.checkName table)
  ofResult (Store.checkName column)
  let store ← get
  forget (· = (table, column))
  if store.files.isFile (store.indexPath table column) then removeIndexFile table column
  else
    ofResult (ensure (store.cache.lookup (table, column)).isSome (.indexNotFound table column))

end Operation

end TableStore
