import TableStore.Proofs.BTree.Document
import TableStore.Proofs.Store.Contents
import TableStore.Proofs.TableDocument

namespace TableStore

open FileSystem (reach Rooted Location IsFileName)
open Store (tableFile indexFile isName IsName isName_of_eq_true isFileName_tableFile isFileName_indexFile)

def BTree.Loadable (tree : BTree) : Prop := ofText? tree.text = some tree ∧ tree.check = .ok ()

theorem BTree.Proper.loadable {tree : BTree} (h : tree.Proper)
    (hsize : tree.keys.length < Nat.pow 2 63) :
    tree.Loadable :=
  ⟨h.ofText?_text hsize, h.toSound.check_eq_ok⟩

/-- The files in a root directory are those of some tables, and there are no others. -/
structure Filed (config : Config) (home : Location) (contents : Contents)
    (files : FileSystem) : Prop where
  rooted : Rooted files config.rootPath home
  reach : ∀ {file}, (files.entryAt? home file).isSome = true → reach config.rootPath file = .ok ()
  only : ∀ {file}, (files.entryAt? home file).isSome = true →
    (∃ name, isName name = true ∧ file = tableFile name) ∨
      ∃ name column, isName name = true ∧ isName column = true ∧ file = indexFile name column
  tables : ∀ {name}, isName name = true → files.entryAt? home (tableFile name) =
    (contents name).map fun table ↦ .text (table.document name).text
  indexes : ∀ {name column}, isName name = true → isName column = true →
    files.entryAt? home (indexFile name column) =
      (contents.index? name column).map fun tree ↦ .text tree.text

/-- A store holds some tables: its files are theirs, and an index in its memory is the one in its
file. -/
structure Holds (config : Config) (home : Location) (contents : Contents) (store : Store) : Prop
    extends Filed config home contents store.files where
  settings : store.config = config
  cache : ∀ {name column tree}, isName name = true → isName column = true →
    store.cache.lookup (name, column) = some tree → contents.index? name column = some tree
  loaded : ∀ {name column tree}, isName name = true → isName column = true →
    contents.index? name column = some tree →
      store.cache.lookup (name, column) = some tree ∨ tree.Loadable

namespace Holds

variable {config : Config} {home : Location} {contents : Contents} {store : Store}
  {name column : String} {table : Table} {tree : BTree}

theorem lookup_eq_none (h : Holds config home contents store) (hname : isName name = true)
    (hcolumn : isName column = true) (hnone : contents.index? name column = none) :
    store.cache.lookup (name, column) = none := by
  cases hcached : store.cache.lookup (name, column) with
  | none => rfl
  | some tree =>
    rw [h.cache hname hcolumn hcached] at hnone
    cases hnone

theorem lookup_eq_some (h : Holds config home contents store) (hname : isName name = true)
    (hcolumn : isName column = true) (htree : contents.index? name column = some tree)
    (hcached : (store.cache.lookup (name, column)).isSome = true) :
    store.cache.lookup (name, column) = some tree := by
  obtain ⟨found, hfound⟩ := Option.isSome_iff_exists.mp hcached
  rw [hfound, ← h.cache hname hcolumn hfound, htree]

theorem tablePath (h : Holds config home contents store) (name : String) :
    store.tablePath name = config.rootPath.join (tableFile name) := by
  rw [Store.tablePath, h.settings]
  rfl

theorem indexPath (h : Holds config home contents store) (name column : String) :
    store.indexPath name column = config.rootPath.join (indexFile name column) := by
  rw [Store.indexPath, h.settings]
  rfl

theorem isFile_table (h : Holds config home contents store) (hname : isName name = true) :
    store.files.isFile (store.tablePath name) = (contents name).isSome := by
  rw [h.tablePath, h.rooted.isFile_join (isFileName_tableFile (isName_of_eq_true hname)) h.reach,
    h.tables hname, Option.isSome_map]

theorem entryExists_table (h : Holds config home contents store) (hname : isName name = true) :
    store.files.entryExists (store.tablePath name) = (contents name).isSome := by
  rw [h.tablePath,
    h.rooted.entryExists_join (isFileName_tableFile (isName_of_eq_true hname)) h.reach,
    h.tables hname, Option.isSome_map]

theorem isFile_index (h : Holds config home contents store) (hname : isName name = true)
    (hcolumn : isName column = true) :
    store.files.isFile (store.indexPath name column) = (contents.index? name column).isSome := by
  have hfile := isFileName_indexFile (isName_of_eq_true hname) (isName_of_eq_true hcolumn)
  rw [h.indexPath, h.rooted.isFile_join hfile h.reach, h.indexes hname hcolumn, Option.isSome_map]

theorem reach_table (h : Holds config home contents store) (hname : isName name = true)
    (htable : contents name = some table) :
    FileSystem.reach config.rootPath (tableFile name) = .ok () := by
  apply h.reach
  rw [h.tables hname, htable]
  rfl

theorem reach_index (h : Holds config home contents store) (hname : isName name = true)
    (hcolumn : isName column = true) (htree : contents.index? name column = some tree) :
    FileSystem.reach config.rootPath (indexFile name column) = .ok () := by
  apply h.reach
  rw [h.indexes hname hcolumn, htree]
  rfl

theorem readText_table (h : Holds config home contents store) (hname : isName name = true)
    (htable : contents name = some table) :
    store.readText (store.tablePath name) = .ok (table.document name).text := by
  have hentry : store.files.entryAt? home (tableFile name) =
      some (.text (table.document name).text) := by
    rw [h.tables hname, htable]
    rfl
  rw [Store.readText, h.tablePath,
    h.rooted.leads.read_join (isFileName_tableFile (isName_of_eq_true hname))
    (h.reach_table hname htable) hentry]
  rfl

theorem readText_index (h : Holds config home contents store) (hname : isName name = true)
    (hcolumn : isName column = true) (htree : contents.index? name column = some tree) :
    store.readText (store.indexPath name column) = .ok tree.text := by
  have hfile := isFileName_indexFile (isName_of_eq_true hname) (isName_of_eq_true hcolumn)
  have hentry : store.files.entryAt? home (indexFile name column) = some (.text tree.text) := by
    rw [h.indexes hname hcolumn, htree]
    rfl
  rw [Store.readText, h.indexPath,
    h.rooted.leads.read_join hfile (h.reach_index hname hcolumn htree) hentry]
  rfl

end Holds

theorem Table.Consistent.ofText?_text {table : Table} (h : table.Consistent) (name : String) :
    TableDocument.ofText? (table.document name).text = some (table.document name) := by
  apply TableDocument.ofText?_text
  intro record hrecord
  obtain ⟨row, hrow, rfl⟩ := List.mem_map.mp hrecord
  exact Schema.stored_of_encodeRow (h.rows row hrow).encodeRow

theorem Contents.Consistent.isName_column {contents : Contents} {name column : String}
    {tree : BTree} (hc : contents.Consistent) (h : contents.index? name column = some tree) :
    isName name = true ∧ isName column = true := by
  obtain ⟨table, htable, hlookup⟩ := Option.bind_eq_some_iff.mp h
  refine ⟨hc.named htable, (hc.tables htable).names column ?_⟩
  exact (hc.tables htable).mem_names (Table.mem_columns.mpr (mem_names_of_lookup hlookup))

namespace Holds

variable {config : Config} {home : Location} {contents : Contents} {store : Store}
  {name column : String} {table : Table} {tree : BTree}

theorem document (h : Holds config home contents store) (hc : contents.Consistent) (name : String) :
    store.document name =
      (contents.table name).map fun table ↦ (table.document name, table.schema) := by
  rw [Store.document, Contents.table]
  cases hname : isName name with
  | false => simp [Store.checkName, hname]
  | true =>
    have hcheck : Store.checkName name = .ok () := if_pos hname
    rw [hcheck, ok_bind, ok_bind, h.isFile_table hname]
    cases htable : contents name with
    | none => rfl
    | some table =>
      rw [h.readText_table hname htable]
      simp only [Option.isSome_some, ensure_true, ok_bind, Store.tableOfText, map_ok,
        (hc.tables htable).ofText?_text name]
      rw [TableDocument.schema, Table.document, Schema.ofColumns_columns]

theorem document_eq (h : Holds config home contents store) (hc : contents.Consistent)
    (htable : contents name = some table) :
    store.document name = .ok (table.document name, table.schema) := by
  rw [h.document hc, hc.table_eq_ok.mpr htable, map_ok]

theorem decodeRows (table : Table) (htable : table.Consistent) (store : Store) (name : String) :
    store.decodeRows (table.document name) table.schema = .ok table.rows := by
  have hrows : (table.rows.map table.schema.recordOf).mapM
      (Store.decodeRecord (store.tablePath name) table.schema) = .ok (table.rows.map id) := by
    apply mapM_map_ok
    intro row hrow
    rw [Store.decodeRecord, (htable.rows row hrow).decodeRow]
    rfl
  rwa [List.map_id] at hrows

theorem decodeAt (htable : table.Consistent) (store : Store) {name : String} {position : Nat}
    {row : Row} (hrow : table.rowAt name position = .ok row) :
    store.decodeAt name (table.document name) table.schema position = .ok row := by
  have hsome := Contents.rowAt_eq_ok.mp hrow
  have hrecord : (table.document name).records[position]? = some (table.schema.recordOf row) := by
    rw [Table.document, List.getElem?_map, hsome, Option.map_some]
  rw [Store.decodeAt, Store.recordAt, hrecord, ok_bind, Store.decodeRecord,
    (htable.rows row (List.mem_of_getElem? hsome)).decodeRow, mapError_ok]

theorem lt_of_rowAt {name : String} {position : Nat} {row : Row}
    (hrow : table.rowAt name position = .ok row) :
    position < (table.document name).records.length := by
  have hlength : (table.document name).records.length = table.rows.length := List.length_map _
  rw [hlength]
  exact (List.getElem?_eq_some_iff.mp (Contents.rowAt_eq_ok.mp hrow)).1

theorem replaceRecord {name : String} {position : Nat} {old row : Row} {record : Record}
    (hold : table.rowAt name position = .ok old) (hrecord : table.schema.recordOf row = record) :
    Store.replaceRecord (table.document name) position record =
      .ok (({ table with rows := table.rows.set position row } : Table).document name) := by
  rw [Store.replaceRecord_eq (lt_of_rowAt hold)]
  simp [Table.document, hrecord]

theorem removeRecord {name : String} {position : Nat} {old : Row}
    (hold : table.rowAt name position = .ok old) :
    Store.removeRecord (table.document name) position =
      .ok (({ table with rows := table.rows.eraseIdx position } : Table).document name) := by
  rw [Store.removeRecord_eq (lt_of_rowAt hold)]
  simp [Table.document, eraseIdx_map]

theorem checkPosition (table : Table) (name : String) (position : Nat) :
    Store.checkPosition name (table.document name) position =
      (table.rowAt name position).map fun _ ↦ () := by
  have hlength : (table.document name).records.length = table.rows.length := List.length_map _
  rw [Store.checkPosition, Table.rowAt, hlength]
  by_cases hlt : position < table.rows.length
  · simp [hlt]
  · simp [hlt]

theorem indexFile_mem_iff (h : Holds config home contents store) (hc : contents.Consistent)
    (htable : contents name = some table) :
    (store.files.entryAt? home (indexFile name column)).isSome = true ↔
      column ∈ table.indexes.map Prod.fst := by
  have hname := hc.named htable
  have hindex : contents.index? name column = table.indexes.lookup column := by
    rw [Contents.index?, htable, Option.bind_some]
  constructor
  · intro hfile
    rcases h.only hfile with ⟨other, hother, hsame⟩ | ⟨other, column', hother, hcolumn, hsame⟩
    · exact absurd hsame.symm (Store.tableFile_ne_indexFile (isName_of_eq_true hother).noDot)
    · obtain ⟨rfl, rfl⟩ := Store.indexFile_inj (isName_of_eq_true hname).noDot
        (isName_of_eq_true hother).noDot hsame
      rw [h.indexes hname hcolumn, Option.isSome_map, hindex] at hfile
      exact isSome_lookup_iff.mp hfile
  · intro hcolumn
    obtain ⟨tree, htree⟩ := Option.isSome_iff_exists.mp (isSome_lookup_iff.mpr hcolumn)
    rw [← hindex] at htree
    rw [h.indexes hname (hc.isName_column htree).2, htree]
    rfl

theorem filterMap_names_perm (h : Holds config home contents store) (hc : contents.Consistent)
    (htable : contents name = some table) :
    ((store.files.entries.filterMap fun other ↦ FileSystem.nameIn? home other.1).filterMap
      (Store.indexColumn? name)).Perm (table.indexes.map Prod.fst) := by
  apply (List.perm_ext_iff_of_nodup ?_ (hc.tables htable).nodup).mpr
  · intro column
    rw [Store.mem_filterMap_indexColumn?, ← h.indexFile_mem_iff hc htable]
    refine and_iff_left_of_imp fun hfile ↦ ?_
    have htree := (h.indexFile_mem_iff hc htable).mp hfile
    have hcolumn := isName_of_eq_true ((hc.tables htable).names column
      ((hc.tables htable).mem_names (Table.mem_columns.mpr htree)))
    exact ⟨hcolumn.ne_empty, hcolumn.noDot⟩
  · exact Store.nodup_filterMap_indexColumn? h.rooted.nodup

theorem mergeSort_eq_of_perm {names names' : List String} (h : names.Perm names') :
    names.mergeSort (fun a b ↦ decide (a ≤ b)) = names'.mergeSort fun a b ↦ decide (a ≤ b) := by
  have hsorted : ∀ names : List String,
      (names.mergeSort fun a b ↦ decide (a ≤ b)).Pairwise fun a b ↦ decide (a ≤ b) = true := by
    intro names
    apply List.pairwise_mergeSort
    · intro a b c hab hbc
      exact decide_eq_true (String.le_trans (of_decide_eq_true hab) (of_decide_eq_true hbc))
    · intro a b
      simpa using String.le_total a b
  apply List.Perm.eq_of_pairwise ?_ (hsorted names) (hsorted names')
  · exact (List.mergeSort_perm _ _).trans (h.trans (List.mergeSort_perm _ _).symm)
  · intro a b _ _ hab hba
    exact String.le_antisymm (of_decide_eq_true hab) (of_decide_eq_true hba)

theorem listIndexes (h : Holds config home contents store) (hc : contents.Consistent)
    (htable : contents name = some table) : store.listIndexes name = .ok table.columns := by
  rw [Store.listIndexes, h.settings]
  simp only [h.rooted.list_root, mapError_ok, ok_bind, pure_eq_ok]
  rw [mergeSort_eq_of_perm (h.filterMap_names_perm hc htable), Table.columns]

theorem hasIndex (h : Holds config home contents store) (hc : contents.Consistent)
    (name column : String) :
    store.hasIndex name column = (contents.index? name column).isSome := by
  rw [Store.hasIndex]
  cases htree : contents.index? name column with
  | some tree =>
    obtain ⟨hname, hcolumn⟩ := hc.isName_column htree
    simp [hname, hcolumn, h.isFile_index hname hcolumn, htree]
  | none =>
    cases hname : isName name with
    | false => rfl
    | true =>
      cases hcolumn : isName column with
      | false => rfl
      | true =>
        rw [h.isFile_index hname hcolumn, htree]
        cases hcached : store.cache.lookup (name, column) with
        | none => rfl
        | some tree =>
          rw [h.cache hname hcolumn hcached] at htree
          cases htree

theorem readIndex (h : Holds config home contents store) (hname : isName name = true)
    (hcolumn : isName column = true) (hloaded : ∀ tree, contents.index? name column = some tree →
      tree.Loadable) :
    store.readIndex name column = match contents.index? name column with
      | some tree => .ok tree
      | none => .error (.indexNotFound name column) := by
  rw [Store.readIndex, h.isFile_index hname hcolumn]
  cases htree : contents.index? name column with
  | none => rfl
  | some tree =>
    obtain ⟨htext, hcheck⟩ := hloaded tree htree
    rw [h.readText_index hname hcolumn htree]
    simp only [Option.isSome_some, ensure_true, ok_bind, Store.treeOfText, htext, hcheck]

end Holds

theorem Store.listIndexes_of_entryAt? {home : Location} {store twin : Store} {table : String}
    (hconfig : twin.config = store.config) (hrooted : Rooted store.files store.config.rootPath home)
    (hrooted' : Rooted twin.files store.config.rootPath home)
    (hfiles : ∀ column, twin.files.entryAt? home (indexFile table column) =
      store.files.entryAt? home (indexFile table column)) :
    twin.listIndexes table = store.listIndexes table := by
  rw [listIndexes, listIndexes, hconfig]
  simp only [hrooted'.list_root, hrooted.list_root, mapError_ok, ok_bind, pure_eq_ok]
  refine congrArg Except.ok (Holds.mergeSort_eq_of_perm ?_)
  refine (List.perm_ext_iff_of_nodup (nodup_filterMap_indexColumn? hrooted'.nodup)
    (nodup_filterMap_indexColumn? hrooted.nodup)).mpr fun column ↦ ?_
  rw [mem_filterMap_indexColumn?, mem_filterMap_indexColumn?, hfiles]

end TableStore
