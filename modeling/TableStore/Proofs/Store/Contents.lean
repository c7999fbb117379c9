import TableStore.Proofs.FileSystem
import TableStore.Proofs.Store.FileName
import TableStore.Proofs.Store.Table
import TableStore.Store.Rows
import TableStore.Store.Scan
import TableStore.Store.Tables

namespace TableStore

open FileSystem (reach)
open Store (tableFile indexFile)

namespace Table

variable (table : Table) (name : String)

def keysOf (row : Row) : Except Error (List (String × Int64)) :=
  table.columns.mapM fun column ↦ (Store.indexKey name column row).map fun key ↦ (column, key)

def movesOf (old new : Row) : Except Error (List (String × Int64 × Int64)) :=
  table.columns.mapM fun column ↦ do
    let oldKey ← Store.indexKey name column old
    let newKey ← Store.indexKey name column new
    return (column, oldKey, newKey)

def rowAt (position : Nat) : Except Error Row :=
  match table.rows[position]? with
  | some row => .ok row
  | none => .error (.rowPosition name position table.rows.length)

def plan (hint : Option IndexHint) : ScanPlan :=
  match hint with
  | none => .full
  | some hint =>
    if (table.indexes.lookup hint.column).isSome then
      match hint.comparison.keyRange? hint.value with
      | some (low, high) => .index hint.column low high
      | none => .full
    else .full

def isCandidate : ScanPlan → Row → Bool
  | .full => fun _ ↦ true
  | .index column low high =>
    Operation.holdsKey column (((table.indexes.lookup column).map fun tree ↦ tree.range low high).getD [])

def withoutIndex (column : String) : Table :=
  { table with indexes := table.indexes.filter fun entry ↦ entry.1 ≠ column }

def withIndex (column : String) (tree : BTree) : Table :=
  { table with indexes := (column, tree) :: (table.withoutIndex column).indexes }

end Table

abbrev Contents := String → Option Table

namespace Contents

variable (contents : Contents) (name : String)

def set (table : Table) : Contents :=
  fun other ↦ if other = name then some table else contents other

def erase : Contents := fun other ↦ if other = name then none else contents other

def index? (column : String) : Option BTree :=
  (contents name).bind fun table ↦ table.indexes.lookup column

def table : Except Error Table := do
  Store.checkName name
  match contents name with
  | some table => .ok table
  | none => .error (.tableNotFound name)

def insert (row : Row) : Except Error Contents := do
  let table ← contents.table name
  let _ ← Store.encode name table.schema row
  let _ ← table.keysOf name row
  return contents.set name (table.insertRow (row.project table.schema.names))

def update (position : Nat) (row : Row) : Except Error Contents := do
  let table ← contents.table name
  let old ← table.rowAt name position
  let _ ← Store.encode name table.schema row
  let _ ← table.movesOf name old row
  return contents.set name (table.updateRow position old (row.project table.schema.names))

def delete (position : Nat) : Except Error Contents := do
  let table ← contents.table name
  let old ← table.rowAt name position
  let _ ← table.keysOf name old
  return contents.set name (table.deleteRow position old)

def createTable (root : Path) (schema : Schema) : Except Error Contents := do
  Store.checkName name
  schema.names.forM Store.checkName
  ensure (contents name).isNone (.tableExists name)
  (reach root (tableFile name)).mapError (.io (root.join (tableFile name)))
  return contents.set name ⟨schema, [], []⟩

def dropTable : Except Error Contents := do
  ensure (contents name).isSome (.tableNotFound name)
  return contents.erase name

def createIndex (root : Path) (degree : Nat) (column : String) : Except Error Contents := do
  let table ← contents.table name
  Store.checkIndexable name column table.schema
  let tree ← Store.indexOfRows degree name column table.rows
  (reach root (indexFile name column)).mapError (.io (root.join (indexFile name column)))
  return contents.set name (table.withIndex column tree)

def dropIndex (column : String) : Except Error Contents := do
  Store.checkName name
  Store.checkName column
  ensure (contents.index? name column).isSome (.indexNotFound name column)
  let table ← contents.table name
  return contents.set name (table.withoutIndex column)

def scan (predicate : Predicate) : Except Error (List (Nat × Row)) := do
  let table ← contents.table name
  Operation.filterRows (table.isCandidate (table.plan predicate.hint)) predicate.accepts 0 table.rows

/-- Every table has a name that files can have, and is consistent. -/
structure Consistent (contents : Contents) : Prop where
  named : ∀ {name table}, contents name = some table → Store.isName name = true
  tables : ∀ {name table}, contents name = some table → table.Consistent

end Contents

namespace Contents

variable {contents contents' : Contents} {name other : String} {table : Table}

@[simp] theorem set_self (contents : Contents) (name : String) (table : Table) :
    contents.set name table name = some table := if_pos rfl

theorem set_of_ne (table : Table) (h : other ≠ name) :
    contents.set name table other = contents other :=
  if_neg h

@[simp] theorem set_set (contents : Contents) (name : String) (table table' : Table) :
    (contents.set name table).set name table' = contents.set name table' := by
  funext other
  rw [set, set, set]
  split <;> rfl

theorem set_eq_self (h : contents name = some table) : contents.set name table = contents := by
  funext other
  rw [set]
  split
  · rename_i hother
    rw [hother, h]
  · rfl

theorem erase_of_ne (contents : Contents) (h : other ≠ name) :
    contents.erase name other = contents other :=
  if_neg h

theorem checkName_eq_ok : Store.checkName name = .ok () ↔ Store.isName name = true := by
  rw [Store.checkName]
  split <;> simp [*]

theorem table_eq_ok : contents.table name = .ok table ↔
    Store.isName name = true ∧ contents name = some table := by
  rw [Contents.table, bind_eq_ok]
  constructor
  · rintro ⟨⟨⟩, hname, htable⟩
    refine ⟨checkName_eq_ok.mp hname, ?_⟩
    split at htable
    · rename_i found hfound
      rw [hfound, Except.ok.inj htable]
    · cases htable
  · rintro ⟨hname, htable⟩
    exact ⟨(), checkName_eq_ok.mpr hname, by rw [htable]⟩

theorem Consistent.table_eq_ok (h : contents.Consistent) :
    contents.table name = .ok table ↔ contents name = some table := by
  rw [Contents.table_eq_ok]
  exact ⟨fun hok ↦ hok.2, fun hsome ↦ ⟨h.named hsome, hsome⟩⟩

theorem Consistent.set (h : contents.Consistent) (hname : Store.isName name = true)
    (htable : table.Consistent) : (contents.set name table).Consistent := by
  refine ⟨?_, ?_⟩
  · intro other found hfound
    by_cases hother : other = name
    · rwa [hother]
    · rw [set_of_ne table hother] at hfound
      exact h.named hfound
  · intro other found hfound
    by_cases hother : other = name
    · rw [hother, set_self] at hfound
      exact Option.some.inj hfound ▸ htable
    · rw [set_of_ne table hother] at hfound
      exact h.tables hfound

theorem Consistent.erase (h : contents.Consistent) (name : String) :
    (contents.erase name).Consistent := by
  have hsome : ∀ {other found}, contents.erase name other = some found →
      contents other = some found := by
    intro other found hfound
    by_cases hother : other = name
    · simp [Contents.erase, hother] at hfound
    · rwa [erase_of_ne contents hother] at hfound
  exact ⟨fun hfound ↦ h.named (hsome hfound), fun hfound ↦ h.tables (hsome hfound)⟩

theorem indexKey_eq_ok {column : String} {row : Row} {key : Int64} :
    Store.indexKey name column row = .ok key ↔ row.get? column = some (.int key) := by
  rw [Store.indexKey]
  split <;> simp_all

theorem encode_eq_ok {schema : Schema} {row : Row} {record : Record} :
    Store.encode name schema row = .ok record ↔ schema.encodeRow row = .ok record := mapError_eq_ok

theorem rowAt_eq_ok {position : Nat} {row : Row} :
    table.rowAt name position = .ok row ↔ table.rows[position]? = some row := by
  rw [Table.rowAt]
  split <;> simp [*]

theorem get?_of_keysOf {row : Row} {keys : List (String × Int64)}
    (h : table.keysOf name row = .ok keys) {column : String} (hcolumn : column ∈ table.columns) :
    ∃ key, row.get? column = some (.int key) := by
  obtain ⟨entry, -, hentry⟩ := exists_of_mapM_eq_ok h hcolumn
  obtain ⟨key, hkey, -⟩ := map_eq_ok.mp hentry
  exact ⟨key, indexKey_eq_ok.mp hkey⟩

theorem get?_of_movesOf {old new : Row} {moves : List (String × Int64 × Int64)}
    (h : table.movesOf name old new = .ok moves) {column : String}
    (hcolumn : column ∈ table.columns) :
    ∃ key, new.get? column = some (.int key) := by
  obtain ⟨entry, -, hentry⟩ := exists_of_mapM_eq_ok h hcolumn
  obtain ⟨oldKey, -, hentry⟩ := bind_eq_ok.mp hentry
  obtain ⟨newKey, hnew, -⟩ := bind_eq_ok.mp hentry
  exact ⟨newKey, indexKey_eq_ok.mp hnew⟩

theorem Table.Consistent.get?_project (h : table.Consistent) {row : Row} {record : Record}
    (hrow : table.schema.encodeRow row = .ok record)
    (hkeys : ∀ column ∈ table.columns, ∃ key, row.get? column = some (.int key)) :
    ∀ entry ∈ table.indexes,
      ∃ key, (row.project table.schema.names).get? entry.1 = some (.int key) := by
  intro entry hentry
  have hcolumn := Table.mem_columns.mpr (List.mem_map_of_mem hentry)
  rw [(Schema.encodeRow_eq_ok.mp hrow).1.get?_project (h.mem_names hcolumn)]
  exact hkeys _ hcolumn

theorem Consistent.insert {row : Row} (h : contents.Consistent)
    (hrun : contents.insert name row = .ok contents') :
    contents'.Consistent := by
  obtain ⟨table, htable, hrun⟩ := bind_eq_ok.mp hrun
  obtain ⟨record, hrecord, hrun⟩ := bind_eq_ok.mp hrun
  obtain ⟨keys, hkeys, hrun⟩ := bind_eq_ok.mp hrun
  obtain rfl := Except.ok.inj hrun
  obtain ⟨hname, htable⟩ := Contents.table_eq_ok.mp htable
  have hrow := encode_eq_ok.mp hrecord
  apply h.set hname
  apply (h.tables htable).insertRow (Schema.keeps_project hrow).1
  exact Table.Consistent.get?_project (h.tables htable) hrow fun column hcolumn ↦
    get?_of_keysOf hkeys hcolumn

theorem Consistent.update {position : Nat} {row : Row} (h : contents.Consistent)
    (hrun : contents.update name position row = .ok contents') : contents'.Consistent := by
  obtain ⟨table, htable, hrun⟩ := bind_eq_ok.mp hrun
  obtain ⟨old, hold, hrun⟩ := bind_eq_ok.mp hrun
  obtain ⟨record, hrecord, hrun⟩ := bind_eq_ok.mp hrun
  obtain ⟨moves, hmoves, hrun⟩ := bind_eq_ok.mp hrun
  obtain rfl := Except.ok.inj hrun
  obtain ⟨hname, htable⟩ := Contents.table_eq_ok.mp htable
  have hrow := encode_eq_ok.mp hrecord
  apply h.set hname
  apply (h.tables htable).updateRow (rowAt_eq_ok.mp hold) (Schema.keeps_project hrow).1
  exact Table.Consistent.get?_project (h.tables htable) hrow fun column hcolumn ↦
    get?_of_movesOf hmoves hcolumn

theorem Consistent.delete {position : Nat} (h : contents.Consistent)
    (hrun : contents.delete name position = .ok contents') : contents'.Consistent := by
  obtain ⟨table, htable, hrun⟩ := bind_eq_ok.mp hrun
  obtain ⟨old, hold, hrun⟩ := bind_eq_ok.mp hrun
  obtain ⟨keys, -, hrun⟩ := bind_eq_ok.mp hrun
  obtain rfl := Except.ok.inj hrun
  obtain ⟨hname, htable⟩ := Contents.table_eq_ok.mp htable
  exact h.set hname ((h.tables htable).deleteRow (rowAt_eq_ok.mp hold))

theorem createTable_eq_ok {root : Path} {schema : Schema} :
    contents.createTable name root schema = .ok contents' ↔
      Store.isName name = true ∧ (∀ column ∈ schema.names, Store.isName column = true) ∧
        contents name = none ∧ reach root (tableFile name) = .ok () ∧
        contents' = contents.set name ⟨schema, [], []⟩ := by
  constructor
  · intro h
    obtain ⟨⟨⟩, hname, h⟩ := bind_eq_ok.mp h
    obtain ⟨⟨⟩, hnames, h⟩ := bind_eq_ok.mp h
    obtain ⟨⟨⟩, hnone, h⟩ := bind_eq_ok.mp h
    obtain ⟨⟨⟩, hreach, h⟩ := bind_eq_ok.mp h
    exact ⟨checkName_eq_ok.mp hname,
      fun column hcolumn ↦ checkName_eq_ok.mp (forM_eq_ok.mp hnames column hcolumn),
      Option.isNone_iff_eq_none.mp (ensure_eq_ok.mp hnone), mapError_eq_ok.mp hreach,
      (Except.ok.inj h).symm⟩
  · rintro ⟨hname, hnames, hnone, hreach, rfl⟩
    have hcheck : schema.names.forM Store.checkName = .ok () :=
      forM_eq_ok.mpr fun column hcolumn ↦ checkName_eq_ok.mpr (hnames column hcolumn)
    rw [Contents.createTable, checkName_eq_ok.mpr hname, hcheck, hnone, hreach]
    rfl

theorem Consistent.createTable {root : Path} {schema : Schema} (h : contents.Consistent)
    (hrun : contents.createTable name root schema = .ok contents') : contents'.Consistent := by
  obtain ⟨hname, hnames, -, -, rfl⟩ := createTable_eq_ok.mp hrun
  apply h.set hname
  exact ⟨hnames, by simp, by simp, by simp⟩

theorem Consistent.dropTable (h : contents.Consistent)
    (hrun : contents.dropTable name = .ok contents') :
    contents'.Consistent := by
  obtain ⟨⟨⟩, -, hrun⟩ := bind_eq_ok.mp hrun
  obtain rfl := Except.ok.inj hrun
  exact h.erase name

theorem Table.Consistent.withoutIndex (h : table.Consistent) (column : String) :
    (table.withoutIndex column).Consistent := by
  refine ⟨h.names, h.rows, ?_, ?_⟩
  · exact h.nodup.sublist (List.filter_sublist.map _)
  · intro entry hentry
    exact h.indexes entry (List.mem_filter.mp hentry).1

theorem Table.Consistent.withIndex {column : String} {tree : BTree} (h : table.Consistent)
    (htree : Indexes table.schema table.rows column tree) :
    (table.withIndex column tree).Consistent := by
  have hrest := Table.Consistent.withoutIndex h column
  refine ⟨h.names, h.rows, ?_, ?_⟩
  · refine List.nodup_cons.mpr ⟨?_, hrest.nodup⟩
    simp [Table.withoutIndex]
  · intro entry hentry
    rcases List.mem_cons.mp hentry with rfl | hentry
    · exact htree
    · exact hrest.indexes entry hentry

theorem Consistent.dropIndex {column : String} (h : contents.Consistent)
    (hrun : contents.dropIndex name column = .ok contents') : contents'.Consistent := by
  obtain ⟨⟨⟩, -, hrun⟩ := bind_eq_ok.mp hrun
  obtain ⟨⟨⟩, -, hrun⟩ := bind_eq_ok.mp hrun
  obtain ⟨⟨⟩, -, hrun⟩ := bind_eq_ok.mp hrun
  obtain ⟨table, htable, hrun⟩ := bind_eq_ok.mp hrun
  obtain rfl := Except.ok.inj hrun
  obtain ⟨hname, htable⟩ := Contents.table_eq_ok.mp htable
  exact h.set hname (Table.Consistent.withoutIndex (h.tables htable) column)

theorem checkIndexable_eq_ok {column : String} {schema : Schema}
    (h : Store.checkIndexable name column schema = .ok ()) :
    ∃ definition ∈ schema.columns, definition.name = column ∧ definition.type = .int := by
  rw [Store.checkIndexable] at h
  split at h
  · cases h
  · rename_i definition hfound
    refine ⟨definition, List.mem_of_find?_eq_some hfound, ?_, ?_⟩
    · simpa using List.find?_some hfound
    · exact of_decide_eq_true (ensure_eq_ok.mp h)

theorem columnKeys_of_mapM {column : String} {rows : List Row} {keys : List Int64}
    (h : rows.mapM (Store.indexKey name column) = .ok keys) :
    (∀ row ∈ rows, ∃ key, row.get? column = some (.int key)) ∧ columnKeys column rows = keys := by
  refine ⟨?_, ?_⟩
  · intro row hrow
    obtain ⟨key, -, hkey⟩ := exists_of_mapM_eq_ok h hrow
    exact ⟨key, indexKey_eq_ok.mp hkey⟩
  · induction rows generalizing keys with
    | nil =>
      obtain rfl := Except.ok.inj h
      rfl
    | cons row rows ih =>
      rw [List.mapM_cons] at h
      obtain ⟨key, hkey, h⟩ := bind_eq_ok.mp h
      obtain ⟨rest, hrest, h⟩ := bind_eq_ok.mp h
      obtain rfl := Except.ok.inj h
      rw [Table.columnKeys_cons (Row.key?_eq_some.mpr (indexKey_eq_ok.mp hkey)), ih hrest]

theorem indexes_indexOfRows {degree : Nat} (hdegree : 2 ≤ degree ∧ degree ≤ BTree.maxDegree)
    {column : String} {schema : Schema} {rows : List Row} {tree : BTree}
    (htyped : ∃ definition ∈ schema.columns, definition.name = column ∧ definition.type = .int)
    (h : Store.indexOfRows degree name column rows = .ok tree) :
    Indexes schema rows column tree := by
  obtain ⟨keys, hkeys, htree⟩ := bind_eq_ok.mp h
  obtain ⟨tree', hofKeys, -, hproper, hperm⟩ := BTree.ofKeys_proper hdegree keys
  obtain ⟨htotal, hcolumn⟩ := columnKeys_of_mapM hkeys
  rw [hofKeys] at htree
  obtain rfl := Except.ok.inj htree
  exact ⟨htyped, htotal, hproper, hcolumn ▸ hperm⟩

theorem Consistent.createIndex {root : Path} {degree : Nat} {column : String}
    (h : contents.Consistent)
    (hdegree : 2 ≤ degree ∧ degree ≤ BTree.maxDegree)
    (hrun : contents.createIndex name root degree column = .ok contents') : contents'.Consistent := by
  obtain ⟨table, htable, hrun⟩ := bind_eq_ok.mp hrun
  obtain ⟨⟨⟩, hindexable, hrun⟩ := bind_eq_ok.mp hrun
  obtain ⟨tree, htree, hrun⟩ := bind_eq_ok.mp hrun
  obtain ⟨⟨⟩, -, hrun⟩ := bind_eq_ok.mp hrun
  obtain rfl := Except.ok.inj hrun
  obtain ⟨hname, htable⟩ := Contents.table_eq_ok.mp htable
  have hindexes := indexes_indexOfRows hdegree (checkIndexable_eq_ok hindexable) htree
  exact h.set hname (Table.Consistent.withIndex (h.tables htable) hindexes)

end Contents

end TableStore
