import TableStore.Proofs.Store.Guarded
import TableStore.Proofs.Store.Tended

namespace TableStore

open FileSystem (Location)
open Store (tableFile indexFile isName isName_of_eq_true isFileName_tableFile isFileName_indexFile)

/-- An operation that finds no broken tree and makes none. -/
abbrev Safe (homes : List Location) {α : Type} (op : Operation α) : Prop :=
  Guarded (Store.Sturdy homes) Error.isPanic op

namespace Safe

variable {homes : List Location} {α : Type} {table column : String}

theorem changeFiles {path : Path} {change : FileSystem → Except FileSystem.Fault FileSystem}
    {store : Store} : Avoids Error.isPanic ((Operation.changeFiles path change).run store).1 := by
  rw [Operation.run_changeFiles]
  cases change store.files with
  | error fault => exact .error rfl
  | ok files => exact .ok ()

theorem writeTable {document : TableDocument} (htable : isName table = true)
    (hdocument : document.Belongs table) : Safe homes (Operation.writeTable document) := by
  intro store hstore
  rw [Operation.run_writeTable, hdocument.name]
  exact ⟨hstore.write (isFileName_tableFile (isName_of_eq_true htable))
    (ownText_document htable hdocument), changeFiles⟩

theorem writeIndex {tree : BTree} (htable : isName table = true) (hcolumn : isName column = true)
    (htree : tree.Proper) : Safe homes (Operation.writeIndex table column tree) := by
  intro store hstore
  rw [Operation.run_writeIndex]
  exact ⟨hstore.write (isFileName_indexFile (isName_of_eq_true htable) (isName_of_eq_true hcolumn))
    (ownText_tree htree), changeFiles⟩

theorem removeFile (path : Path) : Safe homes (Operation.removeFile path) :=
  fun _ hstore ↦ ⟨hstore.removeFile path, changeFiles⟩

theorem removeIndexFile (table column : String) :
    Safe homes (Operation.removeIndexFile table column) :=
  .bind .get fun _ ↦ removeFile _

theorem remember {tree : BTree} (htree : tree.Proper) :
    Safe homes (Operation.remember table column tree) :=
  fun _ hstore ↦ ⟨hstore.remembering fun _ _ ↦ htree, .ok ()⟩

theorem forget (dropped : String × String → Bool) : Safe homes (Operation.forget dropped) := by
  intro store hstore
  refine ⟨⟨hstore.config, hstore.home, hstore.tended, ?_⟩, .ok ()⟩
  intro table column tree htable hcolumn hcached
  change List.lookup _ (store.cache.filter _) = some tree at hcached
  rw [Store.lookup_forget] at hcached
  split at hcached
  · cases hcached
  · exact hstore.cache htable hcolumn hcached

theorem index (table column : String) : Safe homes (Operation.index table column) := by
  intro store hstore
  rw [Operation.run_index]
  cases hname : Store.checkName column with
  | error e => exact ⟨hstore, .error ((Avoids.checkName column).panic e hname)⟩
  | ok _ =>
    cases hcached : store.cache.lookup (table, column) with
    | some tree => exact ⟨hstore, .ok tree⟩
    | none =>
      cases hread : store.readIndex table column with
      | error e => exact ⟨hstore, .error (Avoids.readIndex store table column e hread)⟩
      | ok tree =>
        exact ⟨hstore.remembering fun htable hcolumn ↦ hstore.readIndex htable hcolumn hread, .ok tree⟩

theorem proper_of_index {store store' : Store} {tree : BTree} (hstore : store.Sturdy homes)
    (htable : isName table = true)
    (hrun : (Operation.index table column).run store = (.ok tree, store')) :
    isName column = true ∧ tree.Proper := by
  obtain ⟨hcolumn, hcached⟩ := Operation.index_eq_ok hrun
  have hafter := (index table column store hstore).1
  rw [hrun] at hafter
  exact ⟨hcolumn, hafter.cache htable hcolumn hcached⟩

theorem changeIndex (htable : isName table = true) {change : BTree → Except BTree.Fault BTree}
    (hchange : ∀ tree : BTree, tree.Proper → ∃ tree', change tree = .ok tree' ∧ tree'.Proper) :
    Safe homes (Operation.changeIndex table column change) := by
  refine .bind_run (index table column) fun {_ tree _} hstore hrun ↦ ?_
  obtain ⟨hcolumn, htree⟩ := proper_of_index hstore htable hrun
  obtain ⟨tree', htree', hproper⟩ := hchange tree htree
  rw [Operation.onTree, htree', mapError_ok]
  refine .bind_run (.ofResult (.ok tree')) fun {_ found _} _ hfound ↦ ?_
  obtain rfl := Except.ok.inj (Prod.mk.inj hfound).1
  exact .bind (remember hproper) fun _ ↦ writeIndex htable hcolumn hproper

theorem insertKey (htable : isName table = true) (column : String) (key : Int64) :
    Safe homes (Operation.changeIndex table column fun tree ↦ tree.insert key) := by
  apply changeIndex htable
  intro tree htree
  obtain ⟨tree', hinsert, -, -, -, hproper⟩ := htree.toSound.insert key
  exact ⟨tree', hinsert, hproper htree⟩

theorem eraseKey (htable : isName table = true) (column : String) (key : Int64) :
    Safe homes (Operation.changeIndex table column fun tree ↦ tree.erase key) := by
  apply changeIndex htable
  intro tree htree
  obtain ⟨tree', herase, -, hproper, -⟩ := htree.erase key
  exact ⟨tree', herase, hproper⟩

theorem moveKey (htable : isName table = true) (column : String) (old new : Int64) :
    Safe homes (Operation.changeIndex table column fun tree ↦ do
      (← tree.erase old).insert new) := by
  apply changeIndex htable
  intro tree htree
  obtain ⟨tree₁, herase, -, hproper, -⟩ := htree.erase old
  obtain ⟨tree₂, hinsert, -, -, -, hproper'⟩ := hproper.toSound.insert new
  exact ⟨tree₂, by rw [herase, ok_bind, hinsert], hproper' hproper⟩

theorem indexEntry (table : String) (row : Row) (column : String) :
    Safe homes (Operation.indexEntry table row column) :=
  .bind (.ofResult (Avoids.indexKey table column row).panic) fun _ ↦
    .bind (index table column) fun _ ↦ .pure _

theorem indexMove (table : String) (old new : Row) (column : String) :
    Safe homes (Operation.indexMove table old new column) :=
  .bind (.ofResult (Avoids.indexKey table column old).panic) fun _ ↦
    .bind (.ofResult (Avoids.indexKey table column new).panic) fun _ ↦
      .bind (index table column) fun _ ↦ .pure _

theorem document_bind {f : TableDocument × Schema → Operation α}
    (hf : ∀ document schema, isName table = true → document.Belongs table →
      schema.columns = document.columns → Safe homes (f (document, schema))) :
    Safe homes (Operation.ask (fun store ↦ store.document table) >>= f) := by
  refine .ask_bind (fun store _ ↦ Avoids.document store table) fun {store found} hstore hfound ↦ ?_
  obtain ⟨htable, hbelongs, hcolumns⟩ := hstore.document hfound
  exact hf found.1 found.2 htable hbelongs hcolumns

theorem rowChange (change : RowChange) (table : String) : Safe homes (change.operation table) := by
  cases change with
  | insert row =>
    refine document_bind fun document schema htable hdocument _ ↦ ?_
    refine .bind_run (.ofResult (Avoids.encode table schema row).panic) fun {_ record _} _ hrun ↦ ?_
    have hrecord := Schema.stored_of_encodeRow (Contents.encode_eq_ok.mp (Prod.mk.inj hrun).1)
    refine .bind (.ask fun store _ ↦ (Avoids.listIndexes store table).panic) fun columns ↦ ?_
    refine .bind (.mapM (indexEntry table row)) fun keys ↦ .bind (writeTable htable ?_) fun _ ↦ ?_
    · refine ⟨hdocument.name, hdocument.columns, fun other hother ↦ ?_⟩
      rcases List.mem_append.mp hother with hother | hother
      · exact hdocument.records other hother
      · exact List.mem_singleton.mp hother ▸ hrecord
    · exact .forM fun entry ↦ insertKey htable entry.1 entry.2
  | update position row =>
    refine document_bind fun document schema htable hdocument _ ↦ ?_
    refine .bind_run (.ofResult (Avoids.checkPosition table document position).panic)
      fun {_ _ _} _ hchecked ↦ ?_
    have hlt := Store.lt_of_checkPosition (Prod.mk.inj hchecked).1
    refine .bind_run (.ofResult (Avoids.encode table schema row).panic) fun {_ record _} _ hrun ↦ ?_
    have hrecord := Schema.stored_of_encodeRow (Contents.encode_eq_ok.mp (Prod.mk.inj hrun).1)
    refine .bind (.ask fun store _ ↦ Avoids.decodeAt store table schema hlt) fun old ↦ ?_
    refine .bind (.ask fun store _ ↦ (Avoids.listIndexes store table).panic) fun columns ↦ ?_
    refine .bind (.mapM (indexMove table old row)) fun moves ↦ ?_
    rw [Store.replaceRecord_eq hlt record, Operation.ofResult_ok_bind]
    refine .bind (writeTable htable ?_) fun _ ↦ ?_
    · refine ⟨hdocument.name, hdocument.columns, fun other hother ↦ ?_⟩
      rcases List.mem_or_eq_of_mem_set hother with hother | rfl
      · exact hdocument.records other hother
      · exact hrecord
    · exact .forM fun entry ↦ moveKey htable entry.1 entry.2.1 entry.2.2
  | delete position =>
    refine document_bind fun document schema htable hdocument _ ↦ ?_
    refine .bind_run (.ofResult (Avoids.checkPosition table document position).panic)
      fun {_ _ _} _ hchecked ↦ ?_
    have hlt := Store.lt_of_checkPosition (Prod.mk.inj hchecked).1
    refine .bind (.ask fun store _ ↦ Avoids.decodeAt store table schema hlt) fun old ↦ ?_
    refine .bind (.ask fun store _ ↦ (Avoids.listIndexes store table).panic) fun columns ↦ ?_
    refine .bind (.mapM (indexEntry table old)) fun keys ↦ ?_
    rw [Store.removeRecord_eq hlt, Operation.ofResult_ok_bind]
    refine .bind (writeTable htable ?_) fun _ ↦ ?_
    · exact ⟨hdocument.name, hdocument.columns, fun other hother ↦
        hdocument.records other (List.mem_of_mem_eraseIdx hother)⟩
    · exact .forM fun entry ↦ eraseKey htable entry.1 entry.2

theorem read (table : String) (id : Int64) : Safe homes (Operation.read table id) := by
  refine document_bind fun document schema htable _ _ ↦ ?_
  refine .bind_run (index table _) fun {_ tree _} hstore hrun ↦ ?_
  obtain ⟨-, htree⟩ := proper_of_index hstore htable hrun
  rw [Operation.onTree, htree.toSound.contains id, mapError_ok]
  refine .bind (.ofResult (.ok _)) fun found ↦ ?_
  split
  · exact .bind (.ask fun store _ ↦ Avoids.decodeRows store document schema) fun _ ↦ .pure _
  · exact .pure _

theorem scan (table : String) (predicate : Predicate) :
    Safe homes (Operation.scan table predicate) := by
  refine document_bind fun document schema _ _ _ ↦ ?_
  refine .bind (.ask fun store _ ↦ Avoids.decodeRows store document schema) fun rows ↦ ?_
  refine .bind .get fun store ↦ .bind ?_ fun _ ↦
    .ofResult (.filterRows (fun _ _ ↦ predicate.answers) 0 rows)
  cases store.plan table predicate.hint with
  | full => exact .pure _
  | index column low high => exact .bind (index table column) fun _ ↦ .pure _

theorem createTable (table : String) (schema : Schema) :
    Safe homes (Operation.createTable table schema) := by
  refine .bind_run (.ofResult (Avoids.checkName table).panic) fun {_ _ _} _ htable ↦ ?_
  refine .bind_run (.ofResult (Avoids.forM Avoids.checkName).panic) fun {_ _ _} _ hnames ↦ ?_
  have hname : isName table = true := Contents.checkName_eq_ok.mp (Prod.mk.inj htable).1
  refine .bind (.ask fun _ _ ↦ .ensure rfl) fun _ ↦ writeTable hname ⟨rfl, ?_, nofun⟩
  intro column hcolumn
  have hall := forM_eq_ok.mp (Prod.mk.inj hnames).1
  exact Contents.checkName_eq_ok.mp (hall column.name (List.mem_map_of_mem hcolumn))

theorem dropTable (table : String) : Safe homes (Operation.dropTable table) := by
  refine .bind (.ask fun store _ ↦ (Avoids.checkTable store table).panic) fun _ ↦ ?_
  refine .bind (.ask fun store _ ↦ (Avoids.listIndexes store table).panic) fun columns ↦ ?_
  refine .bind (.forM (removeIndexFile table)) fun _ ↦ .bind (forget _) fun _ ↦ ?_
  exact .bind .get fun _ ↦ removeFile _

theorem indexOfRows {store : Store} (hstore : store.Sturdy homes) (table column : String)
    (rows : List Row) :
    Avoids Error.isPanic (Store.indexOfRows store.config.indexDegree table column rows) := by
  refine .bind (.mapM fun row ↦ (Avoids.indexKey table column row).panic) fun keys ↦ ?_
  obtain ⟨tree, hbuilt, -⟩ := BTree.ofKeys_proper (Config.degree_of_fault? hstore.config) keys
  rw [hbuilt]
  exact .ok tree

theorem createIndex (table column : String) : Safe homes (Operation.createIndex table column) := by
  refine document_bind fun document schema htable hdocument hcolumns ↦ ?_
  refine .bind_run (.ofResult (Avoids.checkIndexable table column schema).panic)
    fun {_ _ _} _ hindexable ↦ ?_
  have hcolumn : isName column = true := by
    have hok := (Prod.mk.inj hindexable).1
    rw [Store.checkIndexable] at hok
    cases hfound : schema.column? column with
    | none =>
      rw [hfound] at hok
      cases hok
    | some definition =>
      have hmem := List.mem_of_find?_eq_some hfound
      have hname : definition.name = column := by simpa using List.find?_some hfound
      exact hname ▸ hdocument.columns definition (hcolumns ▸ hmem)
  refine .bind (.ask fun store _ ↦ Avoids.decodeRows store document schema) fun rows ↦ ?_
  refine .ask_bind (fun store hstore ↦ indexOfRows hstore table column rows)
    fun {store tree} hstore htree ↦ ?_
  obtain ⟨keys, -, htree⟩ := bind_eq_ok.mp htree
  obtain ⟨built, hbuilt, -, hproper, -⟩ :=
    BTree.ofKeys_proper (Config.degree_of_fault? hstore.config) keys
  rw [hbuilt] at htree
  obtain rfl := Except.ok.inj htree
  exact .bind (writeIndex htable hcolumn hproper) fun _ ↦ remember hproper

theorem dropIndex (table column : String) : Safe homes (Operation.dropIndex table column) := by
  refine .bind (.ofResult (Avoids.checkName table).panic) fun _ ↦ ?_
  refine .bind (.ofResult (Avoids.checkName column).panic) fun _ ↦ .bind .get fun store ↦ ?_
  refine .bind (forget _) fun _ ↦ ?_
  split
  · exact removeIndexFile table column
  · exact .ofResult (.ensure rfl)

theorem tableIndex (table column : String) : Safe homes (Operation.tableIndex table column) :=
  .bind (.ask fun store _ ↦ (Avoids.checkTable store table).panic) fun _ ↦ index table column

theorem closed : Closed (Safe homes) where
  pure := .pure
  ofResult h := .ofResult h.panic
  schema table := .ask fun store _ ↦ Avoids.schema store table
  bind := .bind
  scan table condition := scan table (.ofCondition condition)
  insert table row := rowChange (.insert row) table
  update table position row := rowChange (.update position row) table
  delete table position := rowChange (.delete position) table
  createTable := createTable
  dropTable := dropTable
  createIndex := createIndex

theorem call (call : Call) : Safe homes call.operation :=
  closed.call read dropIndex tableIndex (fun table predicate _ ↦ scan table predicate)
    fun table column _ ↦ index table column

end Safe

end TableStore
