import TableStore.Store.Basic

namespace TableStore

namespace Store

def encode (table : String) (schema : Schema) (row : Row) : Except Error Record :=
  (schema.encodeRow row).mapError (.row table)

def recordAt (document : TableDocument) (position : Nat) : Except Error Record :=
  match document.records[position]? with
  | some record => .ok record
  | none => .error (.noRecord position document.records.length)

def replaceRecord (document : TableDocument) (position : Nat) (record : Record) :
    Except Error TableDocument := do
  let _ ← recordAt document position
  return { document with records := document.records.set position record }

def removeRecord (document : TableDocument) (position : Nat) : Except Error TableDocument := do
  let _ ← recordAt document position
  return { document with records := document.records.eraseIdx position }

section

variable {document changed : TableDocument} {position : Nat}

theorem recordAt_eq (h : position < document.records.length) :
    recordAt document position = .ok document.records[position] := by
  rw [recordAt, List.getElem?_eq_getElem h]

theorem replaceRecord_eq (h : position < document.records.length) (record : Record) :
    replaceRecord document position record =
      .ok { document with records := document.records.set position record } := by
  rw [replaceRecord, recordAt_eq h]
  rfl

theorem removeRecord_eq (h : position < document.records.length) :
    removeRecord document position =
      .ok { document with records := document.records.eraseIdx position } := by
  rw [removeRecord, recordAt_eq h]
  rfl

theorem name_of_replaceRecord {record : Record}
    (h : replaceRecord document position record = .ok changed) : changed.name = document.name := by
  rw [replaceRecord] at h
  cases hrecord : recordAt document position with
  | error e =>
    rw [hrecord] at h
    cases h
  | ok _ =>
    rw [hrecord] at h
    cases h
    rfl

theorem name_of_removeRecord (h : removeRecord document position = .ok changed) :
    changed.name = document.name := by
  rw [removeRecord] at h
  cases hrecord : recordAt document position with
  | error e =>
    rw [hrecord] at h
    cases h
  | ok _ =>
    rw [hrecord] at h
    cases h
    rfl

end

def decodeAt (store : Store) (table : String) (document : TableDocument) (schema : Schema)
    (position : Nat) : Except Error Row := do
  decodeRecord (store.tablePath table) schema (← recordAt document position)

/-- The check that comes before any access to a record. -/
def checkPosition (table : String) (document : TableDocument) (position : Nat) :
    Except Error Unit :=
  ensure (position < document.records.length)
    (.rowPosition table position document.records.length)

def idColumn : String := "Id"

def hasId (id : Int64) (row : Row) : Bool := (row.get? idColumn).bind Value.int? = some id

end Store

namespace Operation

/-- The key of a row in the index over a column, which has to be readable. -/
def indexEntry (table : String) (row : Row) (column : String) : Operation (String × Int64) := do
  let key ← ofResult (Store.indexKey table column row)
  let _ ← index table column
  return (column, key)

/-- Adds a row at the end. All checks come before the first change of a file. -/
def insert (table : String) (row : Row) : Operation Unit := do
  let (document, schema) ← ask fun store ↦ store.document table
  let record ← ofResult (Store.encode table schema row)
  let keys ← (← ask fun store ↦ store.listIndexes table).mapM (indexEntry table row)
  writeTable { document with records := document.records ++ [record] }
  keys.forM fun (column, key) ↦ changeIndex table column fun tree ↦ tree.insert key

def indexMove (table : String) (old new : Row) (column : String) :
    Operation (String × Int64 × Int64) := do
  let oldKey ← ofResult (Store.indexKey table column old)
  let newKey ← ofResult (Store.indexKey table column new)
  let _ ← index table column
  return (column, oldKey, newKey)

/-- Replaces the row at a position. An index changes where the keys of the rows differ. -/
def update (table : String) (position : Nat) (row : Row) : Operation Unit := do
  let (document, schema) ← ask fun store ↦ store.document table
  ofResult (Store.checkPosition table document position)
  let record ← ofResult (Store.encode table schema row)
  let old ← ask fun store ↦ store.decodeAt table document schema position
  let moves ← (← ask fun store ↦ store.listIndexes table).mapM (indexMove table old row)
  writeTable (← ofResult (Store.replaceRecord document position record))
  (moves.filter fun (_, oldKey, newKey) ↦ oldKey ≠ newKey).forM fun (column, oldKey, newKey) ↦
    changeIndex table column fun tree ↦ do (← tree.erase oldKey).insert newKey

def delete (table : String) (position : Nat) : Operation Unit := do
  let (document, schema) ← ask fun store ↦ store.document table
  ofResult (Store.checkPosition table document position)
  let old ← ask fun store ↦ store.decodeAt table document schema position
  let keys ← (← ask fun store ↦ store.listIndexes table).mapM (indexEntry table old)
  writeTable (← ofResult (Store.removeRecord document position))
  keys.forM fun (column, key) ↦ changeIndex table column fun tree ↦ tree.erase key

/-- The first row with an id, which is sought in the index first. -/
def read (table : String) (id : Int64) : Operation (Option Row) := do
  let (document, schema) ← ask fun store ↦ store.document table
  let tree ← index table Store.idColumn
  if ← onTree (tree.contains id) then
    return (← ask fun store ↦ store.decodeRows document schema).find? (Store.hasId id)
  else return none

end Operation

end TableStore
