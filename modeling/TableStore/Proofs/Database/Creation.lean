import Mathlib.Data.List.Forall2
import TableStore.Proofs.Database.Failure
import TableStore.Proofs.Store.Confined
import TableStore.Proofs.Token

namespace TableStore

open FileSystem (Location reach maxNameSize maxPathSize)
open Store (tableFile indexFile isName isName_of_eq_true)

variable {config : Config} {home : Location} {contents : Contents} {name : String} {table : Table}

/-- The store holds the tables, except that one of them has no row and these indexes. -/
def HoldsIndexes (config : Config) (home : Location) (contents : Contents) (name : String)
    (schema : Schema) (columns : List Column) (store : Store) : Prop :=
  ∃ table, table.schema = schema ∧ table.rows = [] ∧
    (table.indexes.map Prod.fst).Perm (columns.map Column.name) ∧
    (contents.set name table).Consistent ∧ Holds config home (contents.set name table) store

theorem Contents.Consistent.createIndex_eq (hc : contents.Consistent)
    (hdegree : 2 ≤ config.indexDegree ∧ config.indexDegree ≤ BTree.maxDegree)
    (htable : contents name = some table) (hrows : table.rows = []) {column : Column}
    (hcolumn : column ∈ table.schema.columns) (htype : column.type = .int) :
    ∃ tree, contents.createIndex name config.rootPath config.indexDegree column.name = do
      (reach config.rootPath (indexFile name column.name)).mapError
        (.io (config.rootPath.join (indexFile name column.name)))
      return contents.set name (table.withIndex column.name tree) := by
  obtain ⟨tree, htree, -⟩ := BTree.ofKeys_proper hdegree []
  have hindexable : Store.checkIndexable name column.name table.schema = .ok () := by
    rw [Store.checkIndexable, Schema.column?_of_mem hcolumn]
    simp [htype]
  have hbuilt : Store.indexOfRows config.indexDegree name column.name table.rows = .ok tree := by
    rw [hrows, Store.indexOfRows, List.mapM_nil, pure_eq_ok, ok_bind, htree, mapError_ok]
  refine ⟨tree, ?_⟩
  rw [Contents.createIndex, hc.table_eq_ok.mpr htable, ok_bind, hindexable, ok_bind, hbuilt, ok_bind]

theorem Table.indexes_withIndex_perm {columns : List Column} {column : Column} {tree : BTree}
    (h : (table.indexes.map Prod.fst).Perm (columns.map Column.name))
    (hfresh : column.name ∉ columns.map Column.name) :
    ((table.withIndex column.name tree).indexes.map Prod.fst).Perm
      ((columns ++ [column]).map Column.name) := by
  have hsame : (table.withoutIndex column.name).indexes = table.indexes := by
    apply List.filter_eq_self.mpr
    intro entry hentry
    have hmem := h.mem_iff.mp (List.mem_map_of_mem hentry)
    have hne : entry.1 ≠ column.name := fun heq ↦ hfresh (heq ▸ hmem)
    simpa using hne
  rw [Table.withIndex, hsame, List.map_cons, List.map_append, List.map_singleton]
  exact (h.cons _).trans (List.perm_append_singleton _ _).symm

theorem Holds.stands {store : Store} (h : Holds config home contents store) : store.Stands home := by
  rw [Store.Stands, h.settings]
  exact h.rooted.leads

/-- The file of a table, or of an index over one of these columns. -/
def Store.IsMadeFile (table : String) (columns : List Column) (file : String) : Prop :=
  file = tableFile table ∨ ∃ column ∈ columns, file = indexFile table column.name

theorem Store.Differs.made {front : List Column} {column : Column} {start store store' : Store}
    (h : Store.Differs home (IsMadeFile name front) start store)
    (h' : Store.Differs home (· = indexFile name column.name) store store') :
    Store.Differs home (IsMadeFile name (front ++ [column])) start store' := by
  refine (h.mono fun file hfile ↦ ?_).trans (h'.mono ?_)
  · refine hfile.imp_right ?_
    rintro ⟨other, hother, rfl⟩
    exact ⟨other, List.mem_append_left _ hother, rfl⟩
  · rintro _ rfl
    exact .inr ⟨column, by simp, rfl⟩

theorem HoldsIndexes.isName_of_mem {schema : Schema} {columns : List Column} {store : Store}
    (h : HoldsIndexes config home contents name schema columns store) {column : Column}
    (hcolumn : column ∈ schema.columns) : isName column.name = true := by
  obtain ⟨table, rfl, -, -, hc, -⟩ := h
  exact (hc.tables (Contents.set_self _ _ _)).names _ (List.mem_map_of_mem hcolumn)

section

variable {front : List Column} {start store store' : Store} {schema : Schema} {r : Except Error Unit}

/-- The file of the table is made, or nothing is changed. -/
theorem createTableFile_run (hc : contents.Consistent) (hstore : Holds config home contents store)
    (hrun : (Operation.createTable name schema).run store = (r, store')) :
    (∃ e, r = .error e ∧ contents.createTable name config.rootPath schema = .error e ∧
      store'.files = store.files ∧ Holds config home contents store') ∨
      r = .ok () ∧ isName name = true ∧ contents name = none ∧
        HoldsIndexes config home contents name schema [] store' ∧
        Store.Differs home (Store.IsMadeFile name []) store store' := by
  have hcarries := @Carries.createTable config home contents name schema
  obtain ⟨hresult, hafter⟩ := hcarries.runs store hstore
  have hleaves := fun e he ↦ hcarries.leaves e he store hstore
  rw [hrun] at hresult hafter hleaves
  cases hnext : contents.createTable name config.rootPath schema with
  | error e =>
    rw [hnext] at hresult hafter hleaves
    exact .inl ⟨e, hresult, rfl, hleaves e rfl, hafter⟩
  | ok contents' =>
    have hc' := hc.createTable hnext
    rw [hnext] at hresult hafter
    obtain rfl : r = .ok () := hresult
    obtain ⟨hname, -, hnone, -, rfl⟩ := Contents.createTable_eq_ok.mp hnext
    have hdiffers := (Confined.createTable hname schema).of_run hstore.stands hrun
    exact .inr ⟨rfl, hname, hnone, ⟨⟨schema, [], []⟩, rfl, rfl, .nil, hc', hafter⟩,
      hdiffers.mono fun _ ↦ .inl⟩

/-- One more index is made, unless the name of its file is too long. -/
theorem createIndex_run {column : Column} (hname : isName name = true)
    (hdegree : 2 ≤ config.indexDegree ∧ config.indexDegree ≤ BTree.maxDegree)
    (hstore : HoldsIndexes config home contents name schema front store)
    (hstart : Store.Differs home (Store.IsMadeFile name front) start store)
    (hcolumn : column ∈ schema.columns) (htype : column.type = .int)
    (hfresh : column.name ∉ front.map Column.name)
    (hrun : (Operation.createIndex name column.name).run store = (r, store')) :
    (r = .ok () ∧ HoldsIndexes config home contents name schema (front ++ [column]) store' ∧
      Store.Differs home (Store.IsMadeFile name (front ++ [column])) start store') ∨
      ∃ fault, reach config.rootPath (indexFile name column.name) = .error fault ∧
        r = .error (.io (config.rootPath.join (indexFile name column.name)) fault) ∧
        HoldsIndexes config home contents name schema front store' ∧
        Store.Differs home (Store.IsMadeFile name front) start store' := by
  have hcolumn' := hstore.isName_of_mem hcolumn
  obtain ⟨table, rfl, hrows, hindexes, hc, hstore⟩ := hstore
  obtain ⟨tree, hnext⟩ := hc.createIndex_eq hdegree (Contents.set_self _ _ _) hrows hcolumn htype
  have hcarries := @Carries.createIndex config home _ hc name column.name
  obtain ⟨hresult, hafter⟩ := hcarries.runs store hstore
  have hleaves := fun e he ↦ hcarries.leaves e he store hstore
  rw [hrun] at hresult hafter hleaves
  rw [hnext] at hresult hafter hleaves
  cases hreach : reach config.rootPath (indexFile name column.name) with
  | error fault =>
    rw [hreach] at hresult hafter hleaves
    have hsame : Store.Differs home (Store.IsMadeFile name front) store store' :=
      .of_files_eq hstart.stands (hleaves _ rfl) (hafter.settings.trans hstore.settings.symm)
    exact .inr ⟨fault, rfl, hresult, ⟨table, rfl, hrows, hindexes, hc, hafter⟩, hstart.trans hsame⟩
  | ok _ =>
    rw [hreach] at hresult hafter hnext
    have hc' := hc.createIndex hdegree hnext
    have hdiffers := (Confined.createIndex hname hcolumn').of_run hstart.stands hrun
    refine .inl ⟨hresult, ⟨table.withIndex column.name tree, rfl, hrows,
      Table.indexes_withIndex_perm hindexes hfresh, ?_, ?_⟩, hstart.made hdiffers⟩
    · rwa [Contents.set_set] at hc'
    · rw [Contents.set_set] at hafter
      exact hafter

/-- The indexes are made one after the other, until a file name is too long. -/
theorem createIndexes_run {back : List Column} (hname : isName name = true)
    (hdegree : 2 ≤ config.indexDegree ∧ config.indexDegree ≤ BTree.maxDegree)
    (hstore : HoldsIndexes config home contents name schema front store)
    (hstart : Store.Differs home (Store.IsMadeFile name front) start store)
    (hback : ∀ column ∈ back, column ∈ schema.columns ∧ column.type = .int)
    (hnodup : ((front ++ back).map Column.name).Nodup)
    (hrun : (back.forM fun column ↦ Operation.createIndex name column.name).run store =
      (r, store')) :
    (r = .ok () ∧ HoldsIndexes config home contents name schema (front ++ back) store' ∧
      Store.Differs home (Store.IsMadeFile name (front ++ back)) start store') ∨
      ∃ done column rest fault, back = done ++ column :: rest ∧
        reach config.rootPath (indexFile name column.name) = .error fault ∧
        r = .error (.io (config.rootPath.join (indexFile name column.name)) fault) ∧
        HoldsIndexes config home contents name schema (front ++ done) store' ∧
        Store.Differs home (Store.IsMadeFile name (front ++ done)) start store' := by
  induction back generalizing front store with
  | nil =>
    obtain ⟨rfl, rfl⟩ := Prod.mk.inj hrun
    exact .inl ⟨rfl, by simpa using hstore, by simpa using hstart⟩
  | cons column back ih =>
    obtain ⟨hcolumn, htype⟩ := hback column (by simp)
    have hfresh : column.name ∉ front.map Column.name := by
      rw [List.map_append, List.nodup_append] at hnodup
      exact fun hmem ↦ hnodup.2.2 _ hmem column.name (by simp) rfl
    have hrun' : (Operation.createIndex name column.name >>= fun _ ↦
        back.forM fun column ↦ Operation.createIndex name column.name).run store =
          (r, store') := hrun
    rw [Operation.run_bind] at hrun'
    rcases hfirst : (Operation.createIndex name column.name).run store with ⟨r', middle⟩
    rw [hfirst] at hrun'
    rcases createIndex_run hname hdegree hstore hstart hcolumn htype hfresh hfirst with
      ⟨rfl, hmade, hmiddle⟩ | ⟨fault, hreach, rfl, hpart⟩
    · have hrest := ih hmade hmiddle
        (fun other hother ↦ hback other (List.mem_cons_of_mem _ hother)) (by simpa using hnodup) hrun'
      rw [List.append_assoc, List.singleton_append] at hrest
      refine hrest.imp_right ?_
      rintro ⟨done, column', rest, fault, rfl, hreach, hr, hpart⟩
      exact ⟨column :: done, column', rest, fault, rfl, hreach, hr, by simpa using hpart⟩
    · obtain ⟨rfl, rfl⟩ := Prod.mk.inj hrun'
      exact .inr ⟨[], column, back, fault, rfl, hreach, rfl, by simpa using hpart⟩

end

/-- A table without a row, with indexes over some of its columns. -/
structure Store.HasEmpty (store : Store) (table : String) (schema : Schema)
    (columns : List Column) : Prop where
  definition : store.schema table = .ok schema
  rows : store.rows table = .ok (schema, [])
  indexes : ∃ names, store.listIndexes table = .ok names ∧ names.Perm (columns.map Column.name)

/-- All files but those of a table with indexes over some columns are as they were, and so are the
answers about all other tables. -/
structure Store.Adds (table : String) (columns : List Column) (before after : Store) : Prop where
  files : ∃ home, before.Stands home ∧ Differs home (IsMadeFile table columns) before after
  rows : ∀ other, other ≠ table → after.rows other = before.rows other
  listIndexes : ∀ other, other ≠ table → after.listIndexes other = before.listIndexes other
  index : ∀ other column, other ≠ table → ((Operation.tableIndex other column).run after).1 =
    ((Operation.tableIndex other column).run before).1

section

variable {schema : Schema} {columns : List Column} {store store' : Store}

theorem HoldsIndexes.holdsRows (h : HoldsIndexes config home contents name schema columns store) :
    HoldsRows config home contents name schema [] store := by
  obtain ⟨table, hschema, hrows, -, hc, hstore⟩ := h
  exact ⟨table, hschema, hrows, hc, hstore⟩

theorem HoldsIndexes.hasEmpty (h : HoldsIndexes config home contents name schema columns store)
    (hname : isName name = true) : store.HasEmpty name schema columns := by
  have hrows := h.holdsRows.rows_eq hname
  obtain ⟨table, rfl, -, hindexes, hc, hstore⟩ := h
  have htable : (contents.set name table) name = some table := Contents.set_self _ _ _
  exact ⟨hstore.schema_eq hc htable, hrows, table.columns, hstore.listIndexes hc htable,
    (List.mergeSort_perm _ _).trans hindexes⟩

theorem Store.IsMadeFile.table_eq {other column : String}
    (h : IsMadeFile name columns (indexFile other column)) (hname : isName name = true)
    (hcolumns : ∀ column ∈ columns, isName column.name = true) : other = name := by
  have hnoDot := (isName_of_eq_true hname).noDot
  rcases h with hfile | ⟨made, hmade, hfile⟩
  · exact absurd hfile.symm (tableFile_ne_indexFile hnoDot)
  · exact (indexFile_inj_of_names hnoDot (isName_of_eq_true (hcolumns made hmade)).noDot hfile).1

theorem HoldsIndexes.adds (h : HoldsIndexes config home contents name schema columns store')
    (hc : contents.Consistent) (hstore : Holds config home contents store)
    (hname : isName name = true) (hcolumns : ∀ column ∈ columns, isName column.name = true)
    (hdiffers : Store.Differs home (Store.IsMadeFile name columns) store store') :
    store.Adds name columns store' := by
  refine ⟨⟨home, hstore.stands, hdiffers⟩, fun other hother ↦ h.holdsRows.rows_of_ne hc hstore hother,
    fun other hother ↦ ?_, fun other column hother ↦ ?_⟩
  · obtain ⟨table, -, -, -, -, hstore'⟩ := h
    refine Store.listIndexes_of_entryAt? hdiffers.config (hstore.settings ▸ hstore.rooted)
      (hstore.settings ▸ hstore'.rooted) fun column ↦ ?_
    have hplace := Store.isPlace_indexFile other column
    rw [← FileSystem.lookup_eq_entryAt? hplace, ← FileSystem.lookup_eq_entryAt? hplace]
    refine hdiffers.same _ fun file hfile hlocation ↦ ?_
    obtain rfl := List.singleton_inj.mp (List.append_cancel_left hlocation)
    exact hother (hfile.table_eq hname hcolumns)
  · obtain ⟨table, -, -, -, hc', hstore'⟩ := h
    rw [(Answers.tableIndex hc' other column store' hstore').1,
      (Answers.tableIndex hc other column store hstore).1, Contents.indexOf, Contents.indexOf,
      Contents.index?, Contents.index?, Contents.set_of_ne table hother]

end

namespace Database

variable {store store' : Store} {columns : List ColumnDefinition} {r : Except Error Outcome}

theorem type_of_isKeyColumn {column : Column} (h : isKeyColumn column = true) :
    column.type = .int :=
  of_decide_eq_true (Bool.and_eq_true_iff.mp h).2

/-- The three ways in which the making of a table ends: nothing is written, all is written, or the
writing stops at an index. -/
theorem createTable_run (hconfig : config.fault? = none) (hc : contents.Consistent)
    (hstore : Holds config home contents store)
    (hrun : (createTable name columns).run store = (r, store')) :
    (∃ e, r = .error e ∧ store'.files = store.files ∧ Holds config home contents store' ∧
      ∀ schema, Schema.ofColumns (columns.map definedColumn) = .ok schema →
        contents.createTable name config.rootPath schema = .error e) ∨
      ∃ schema, schema.columns = columns.map definedColumn ∧ isName name = true ∧
        contents name = none ∧
        ((∃ outcome, r = .ok outcome ∧ HoldsIndexes config home contents name schema
            (schema.columns.filter isKeyColumn) store' ∧
            Store.Differs home (Store.IsMadeFile name (schema.columns.filter isKeyColumn))
              store store') ∨
          ∃ front column back fault, schema.columns.filter isKeyColumn = front ++ column :: back ∧
            reach config.rootPath (indexFile name column.name) = .error fault ∧
            r = .error (.io (config.rootPath.join (indexFile name column.name)) fault) ∧
            HoldsIndexes config home contents name schema front store' ∧
            Store.Differs home (Store.IsMadeFile name front) store store') := by
  rw [createTable, Operation.run_bind, Operation.ofResult, Operation.run_ask] at hrun
  cases hschema : Schema.ofColumns (columns.map definedColumn) with
  | error e =>
    rw [hschema] at hrun
    obtain ⟨rfl, rfl⟩ := Prod.mk.inj hrun
    refine .inl ⟨_, rfl, rfl, hstore, fun schema hok ↦ ?_⟩
    cases hok
  | ok schema =>
    simp only [hschema, mapError_ok, Operation.run_bind] at hrun
    rcases hfirst : (Operation.createTable name schema).run store with ⟨r', middle⟩
    rw [hfirst] at hrun
    rcases createTableFile_run hc hstore hfirst with
      ⟨e, rfl, hfails, hfiles, hafter⟩ | ⟨rfl, hname, hnone, hmade, hmiddle⟩
    · obtain ⟨rfl, rfl⟩ := Prod.mk.inj hrun
      refine .inl ⟨_, rfl, hfiles, hafter, fun other hother ↦ ?_⟩
      rw [← Except.ok.inj hother, hfails]
    · have hkeys : ∀ column ∈ schema.columns.filter isKeyColumn,
          column ∈ schema.columns ∧ column.type = .int := by
        intro column hcolumn
        obtain ⟨hmem, hkey⟩ := List.mem_filter.mp hcolumn
        exact ⟨hmem, type_of_isKeyColumn hkey⟩
      have hnodup : (([] ++ schema.columns.filter isKeyColumn).map Column.name).Nodup :=
        schema.nodup.sublist (List.filter_sublist.map _)
      refine .inr ⟨schema, Schema.columns_of_ofColumns hschema, hname, hnone, ?_⟩
      rcases hloop : ((schema.columns.filter isKeyColumn).forM fun column ↦
        Operation.createIndex name column.name).run middle with ⟨r'', last⟩
      have hcases := createIndexes_run hname (Config.degree_of_fault? hconfig) hmade hmiddle hkeys
        hnodup hloop
      simp only [hloop] at hrun
      rcases hcases with ⟨rfl, hall⟩ | ⟨front, column, back, fault, hsplit, hreach, rfl, hpart⟩
      · obtain ⟨rfl, rfl⟩ := Prod.mk.inj hrun
        exact .inl ⟨_, rfl, hall⟩
      · obtain ⟨rfl, rfl⟩ := Prod.mk.inj hrun
        exact .inr ⟨front, column, back, fault, hsplit, hreach, rfl, hpart⟩

end Database

/-- A column has what its definition says. It holds nulls only if the definition says so. -/
structure ColumnDefinition.Declares (definition : ColumnDefinition) (column : Column) : Prop where
  name : column.name = definition.name
  type : column.type = definition.type
  primaryKey : column.primaryKey = definition.primaryKey
  unique : column.unique = definition.unique
  allowNull : column.allowNull = true ↔ definition.nullability = some .null

/-- The integer columns of the primary key. -/
def Schema.keyColumns (schema : Schema) : List Column :=
  schema.columns.filter fun column ↦ column.primaryKey = true ∧ column.type = .int

theorem ColumnDefinition.declares_iff {definition : ColumnDefinition} {column : Column} :
    definition.Declares column ↔ column = Database.definedColumn definition := by
  constructor
  · rintro ⟨hname, htype, hprimaryKey, hunique, hnull⟩
    obtain ⟨name, type, primaryKey, unique, allowNull⟩ := column
    simp only at hname htype hprimaryKey hunique hnull
    subst hname htype hprimaryKey hunique
    rw [Database.definedColumn, Column.mk.injEq]
    refine ⟨rfl, rfl, rfl, rfl, ?_⟩
    rw [Bool.eq_iff_iff, hnull, allowsNull, beq_iff_eq]
  · rintro rfl
    exact ⟨rfl, rfl, rfl, rfl, beq_iff_eq⟩

theorem ColumnDefinition.forall₂_declares {definitions : List ColumnDefinition}
    {columns : List Column} :
    List.Forall₂ Declares definitions columns ↔ columns = definitions.map Database.definedColumn := by
  have hdeclares : Declares = fun definition column ↦ Database.definedColumn definition = column :=
    funext₂ fun _ _ ↦ propext (declares_iff.trans eq_comm)
  rw [hdeclares, @eq_comm _ columns, ← List.forall₂_eq_eq_eq, List.forall₂_map_left_iff]

theorem Schema.mem_of_mem_keyColumns {schema : Schema} {column : Column}
    (h : column ∈ schema.keyColumns) : column ∈ schema.columns :=
  (List.mem_filter.mp h).1

theorem Schema.keyColumns_eq (schema : Schema) :
    schema.keyColumns = schema.columns.filter Database.isKeyColumn := by
  refine List.filter_congr fun column _ ↦ ?_
  rw [Database.isKeyColumn, Bool.decide_and, Bool.decide_eq_true]

namespace Database

/-- A table is made with its schema, no row and an index over each integer column of its primary key.
If that fails nothing is changed, unless the name of an index file is too long: then the table stays,
with the indexes before that one. -/
theorem execute_createTable (h : Reachable store) {text : String}
    (hparse : Statement.ofText text = .ok (.createTable name columns)) :
    (∀ outcome store', (execute text).run store = (.ok outcome, store') →
      ∃ schema : Schema, List.Forall₂ ColumnDefinition.Declares columns schema.columns ∧
        store'.HasEmpty name schema schema.keyColumns ∧
        store.Adds name schema.keyColumns store') ∧
    ∀ e store', (execute text).run store = (.error e, store') →
      store.Unchanged store' ∨
        ∃ (schema : Schema) (front : List Column) (column : Column) (back : List Column),
          List.Forall₂ ColumnDefinition.Declares columns schema.columns ∧
          schema.keyColumns = front ++ column :: back ∧
          e = .io (store.indexPath name column.name) .nameTooLong ∧
          (maxNameSize < (indexFile name column.name).utf8ByteSize ∨
            maxPathSize < (store.indexPath name column.name).text.utf8ByteSize) ∧
          store.tableExists name = false ∧ store'.HasEmpty name schema front ∧
          store.Adds name front store' := by
  obtain ⟨config, home, contents, hconfig, hc, hstore⟩ := h.sane
  rw [execute_run hparse store]
  refine ⟨fun outcome store' hrun ↦ ?_, fun e store' hrun ↦ ?_⟩
  · rcases createTable_run hconfig hc hstore hrun with ⟨e, he, -⟩ |
      ⟨schema, hcolumns, hname, -, ⟨_, -, hall, hdiffers⟩ | ⟨_, _, _, _, -, -, he, -⟩⟩
    · cases he
    · rw [← schema.keyColumns_eq] at hall hdiffers
      exact ⟨schema, ColumnDefinition.forall₂_declares.mpr hcolumns, hall.hasEmpty hname,
        hall.adds hc hstore hname (fun _ hkey ↦ hall.isName_of_mem (Schema.mem_of_mem_keyColumns hkey)) hdiffers⟩
    · cases he
  · rcases createTable_run hconfig hc hstore hrun with ⟨_, -, hfiles, hafter, -⟩ |
      ⟨schema, hcolumns, hname, hnone, ⟨_, he, -⟩ |
        ⟨front, column, back, fault, hsplit, hreach, he, hpart, hdiffers⟩⟩
    · exact .inl (hstore.unchanged hc hfiles hafter)
    · cases he
    · rw [← schema.keyColumns_eq] at hsplit
      have hmem : ∀ other ∈ front ++ column :: back, isName other.name = true :=
        fun other hother ↦ hpart.isName_of_mem (Schema.mem_of_mem_keyColumns (hsplit ▸ hother))
      have hcolumn := hmem column (by simp)
      obtain ⟨rfl, hlong⟩ := FileSystem.reach_eq_error hstore.rooted.names
        (Store.isFileName_indexFile (isName_of_eq_true hname) (isName_of_eq_true hcolumn))
        (Store.noNul_indexFile (isName_of_eq_true hname) (isName_of_eq_true hcolumn)) hreach
      rw [← hstore.indexPath] at he hlong
      refine .inr ⟨schema, front, column, back, ColumnDefinition.forall₂_declares.mpr hcolumns, hsplit,
        Except.error.inj he, hlong, ?_, hpart.hasEmpty hname, hpart.adds hc hstore hname
          (fun other hother ↦ hmem other (List.mem_append_left _ hother)) hdiffers⟩
      rw [Store.tableExists, hstore.isFile_table hname, hnone]
      simp

theorem execute_createTable_key : ∃ outcome store', Reachable Reachable.opened ∧
    Statement.ofText "CREATE TABLE u (a INT PRIMARY KEY, b FLOAT NULL)" =
      .ok (.createTable "u" [{ name := "a", type := .int, primaryKey := true },
        { name := "b", type := .float, nullability := some .null }]) ∧
    (execute "CREATE TABLE u (a INT PRIMARY KEY, b FLOAT NULL)").run Reachable.opened =
      (.ok outcome, store') ∧
    (∃ schema, store'.schema "u" = .ok schema ∧ store'.rows "u" = .ok (schema, []) ∧
      schema.columns = [{ name := "a", type := .int, primaryKey := true },
        { name := "b", type := .float, allowNull := true }]) ∧
    store'.listIndexes "u" = .ok ["a"] := by
  have hparse : Statement.ofText "CREATE TABLE u (a INT PRIMARY KEY, b FLOAT NULL)" =
      .ok (.createTable "u" [{ name := "a", type := .int, primaryKey := true },
        { name := "b", type := .float, nullability := some .null }]) :=
    toOption_eq_some.mp (by decide +kernel)
  have hsome : ((execute "CREATE TABLE u (a INT PRIMARY KEY, b FLOAT NULL)").run
      Reachable.opened).1.toOption.isSome = true := by
    decide +kernel
  obtain ⟨outcome, hok⟩ := Option.isSome_iff_exists.mp hsome
  obtain ⟨store', hrun⟩ := Operation.exists_run_eq_ok (toOption_eq_some.mp hok)
  obtain ⟨schema, hcolumns, ⟨hschema, hrows, names, hnames, hperm⟩, -⟩ :=
    (execute_createTable Reachable.opened_reachable hparse).1 outcome store' hrun
  rw [ColumnDefinition.forall₂_declares] at hcolumns
  rw [Schema.keyColumns, hcolumns] at hperm
  obtain rfl := List.perm_singleton.mp hperm
  exact ⟨outcome, store', Reachable.opened_reachable, hparse, hrun, ⟨schema, hschema, hrows, hcolumns⟩,
    hnames⟩

def keyedText (table : String) : String := "CREATE TABLE " ++ table ++ " (Id INT PRIMARY KEY)"

def keyedColumns : List ColumnDefinition := [{ name := "Id", type := .int, primaryKey := true }]

theorem ofText_keyedText {table : String} (h : Token.isWord table.toList = true)
    (hname : Keyword.ofText? table = none) :
    Statement.ofText (keyedText table) = .ok (.createTable table keyedColumns) := by
  have htext : (keyedText table).toList = "CREATE".toList ++ ' ' :: ("TABLE".toList ++
      ' ' :: (table.toList ++ ' ' :: '(' :: ("Id".toList ++ ' ' :: ("INT".toList ++
        ' ' :: ("PRIMARY".toList ++ ' ' :: ("KEY".toList ++ [')'])))))) := by
    simp [keyedText]
  have hword : Token.ofWord table.toList = .identifier table := by
    rw [Token.ofWord, String.ofList_toList, hname]
  have hscan : Token.scan (keyedText table) = .ok [.keyword .create, .keyword .table,
      .identifier table, .symbol .leftParen, .identifier "Id", .keyword .int, .keyword .primary,
      .keyword .key, .symbol .rightParen, .endOfInput] := by
    have hlength : (keyedText table).toList.length = table.toList.length + 34 := by
      rw [htext]
      simp
    rw [Token.scan, hlength, htext,
      Token.scanAll_word (by decide +kernel) (by decide +kernel), Token.scanAll_blank (by decide),
      Token.scanAll_word (by decide +kernel) (by decide +kernel), Token.scanAll_blank (by decide),
      Token.scanAll_word h (by decide +kernel), Token.scanAll_blank (by decide),
      Token.scanAll_symbol (by decide) rfl,
      Token.scanAll_word (by decide +kernel) (by decide +kernel), Token.scanAll_blank (by decide),
      Token.scanAll_word (by decide +kernel) (by decide +kernel), Token.scanAll_blank (by decide),
      Token.scanAll_word (by decide +kernel) (by decide +kernel), Token.scanAll_blank (by decide),
      Token.scanAll_word (by decide +kernel) (by decide +kernel),
      Token.scanAll_symbol (by decide) rfl, hword]
    rfl
  rw [Statement.ofText, hscan, ok_bind]
  rfl

/-- A table stays behind if there is room for the ending of its own file, but not for that of the
index over its key. -/
theorem createTable_keyedColumns {store : Store} (hconfig : config.fault? = none)
    (hc : contents.Consistent) (hstore : Holds config home contents store)
    (hname : isName name = true) (hnone : contents name = none)
    (htable : reach config.rootPath (tableFile name) = .ok ())
    (hindex : reach config.rootPath (indexFile name "Id") ≠ .ok ()) :
    ∃ e store', (createTable name keyedColumns).run store = (.error e, store') ∧
      store'.tableExists name = true := by
  have hid : isName "Id" = true := by decide
  have hmade : ∀ schema, Schema.ofColumns (keyedColumns.map definedColumn) = .ok schema →
      contents.createTable name config.rootPath schema =
        .ok (contents.set name ⟨schema, [], []⟩) := by
    intro schema hschema
    have hnames : schema.names = ["Id"] := by
      rw [Schema.names, Schema.columns_of_ofColumns hschema]
      rfl
    exact Contents.createTable_eq_ok.mpr ⟨hname, by simpa [hnames] using hid, hnone, htable, rfl⟩
  obtain ⟨schema, hschema⟩ : ∃ schema,
      Schema.ofColumns (keyedColumns.map definedColumn) = .ok schema := ⟨_, rfl⟩
  rcases hrun : (createTable name keyedColumns).run store with ⟨r, store'⟩
  rcases createTable_run hconfig hc hstore hrun with ⟨e, -, -, -, hfails⟩ |
    ⟨schema', hcolumns, -, -, ⟨_, -, hall⟩ | ⟨front, _, _, _, -, -, rfl, hpart⟩⟩
  · cases (hmade schema hschema).symm.trans (hfails schema hschema)
  · obtain ⟨table, -, -, hindexes, -, hholds⟩ := hall.1
    have hkeys : (schema'.columns.filter isKeyColumn).map Column.name = ["Id"] := by
      rw [hcolumns]
      rfl
    rw [hkeys] at hindexes
    have hmem : "Id" ∈ table.indexes.map Prod.fst := hindexes.mem_iff.mpr (by simp)
    obtain ⟨tree, htree⟩ := Option.isSome_iff_exists.mp (isSome_lookup_iff.mpr hmem)
    have hindexed : (contents.set name table).index? name "Id" = some tree := by
      rw [Contents.index?_of_some (Contents.set_self _ _ _), htree]
    exact absurd (hholds.reach_index hname hid hindexed) hindex
  · obtain ⟨table, -, -, -, -, hholds⟩ := hpart.1
    refine ⟨_, store', rfl, ?_⟩
    rw [Store.tableExists, hname, hholds.isFile_table hname, Contents.set_self]
    rfl

def repeated (n : Nat) : String := String.ofList (List.replicate n 'T')

theorem utf8ByteSize_repeated (n : Nat) : (repeated n).utf8ByteSize = n := by
  induction n with
  | zero => rfl
  | succ n ih =>
    rw [repeated, List.replicate_succ', String.ofList_append, String.utf8ByteSize_append]
    exact congrArg (· + 1) ih

theorem isName_repeated (n : Nat) : isName (repeated (n + 1)) = true := by
  simp [isName, repeated]

theorem isWord_repeated (n : Nat) : Token.isWord (repeated (n + 1)).toList = true := by
  have h : Token.isWordStart 'T' = true ∧ Token.isWordPart 'T' = true := by decide +kernel
  simp [repeated, List.replicate_succ, Token.isWord, h]

/-- A table stays behind although it could not be made. -/
theorem execute_createTable_partial : Reachable Reachable.opened ∧
    Statement.ofText (keyedText (repeated 245)) =
      .ok (.createTable (repeated 245) keyedColumns) ∧
    Reachable.opened.tableExists (repeated 245) = false ∧
    ∃ e store', (execute (keyedText (repeated 245))).run Reachable.opened = (.error e, store') ∧
      store'.tableExists (repeated 245) = true := by
  have hname : isName (repeated 245) = true := isName_repeated 244
  have hid : isName "Id" = true := by decide
  have hsize : (repeated 245).utf8ByteSize = 245 := utf8ByteSize_repeated 245
  have hparse := ofText_keyedText (isWord_repeated 244) (by decide +kernel)
  obtain ⟨home, hstore⟩ := Reachable.opened_holds
  have hparts : "Id".utf8ByteSize = 2 ∧ ".".utf8ByteSize = 1 ∧ ".json".utf8ByteSize = 5 ∧
      Store.indexEnding.utf8ByteSize = 9 ∧ ({} : Config).rootPath.text.utf8ByteSize = 4 := by
    decide
  have hindex : reach ({} : Config).rootPath (indexFile (repeated 245) "Id") ≠ .ok () := by
    intro hreach
    have hfits := FileSystem.size_of_reach hreach
    simp only [indexFile, String.utf8ByteSize_append, hsize, hparts, FileSystem.maxNameSize] at hfits
    omega
  have htable : reach ({} : Config).rootPath (tableFile (repeated 245)) = .ok () := by
    have hword := isName_of_eq_true hname
    have hfile := Store.isFileName_tableFile hword
    cases hreach : reach ({} : Config).rootPath (tableFile (repeated 245)) with
    | ok _ => rfl
    | error fault =>
      obtain ⟨-, hlong⟩ := FileSystem.reach_eq_error hstore.rooted.names hfile
        (Store.noNul_tableFile hword) hreach
      have hpath := hfile.size_join_le ({} : Config).rootPath
      have hlength : (tableFile (repeated 245)).utf8ByteSize = 250 := by
        rw [tableFile, String.utf8ByteSize_append, hsize, hparts.2.2.1]
      simp only [hlength, hparts, FileSystem.maxNameSize, maxPathSize] at hlong hpath
      omega
  have hnone : Reachable.opened.tableExists (repeated 245) = false := by
    rw [Store.tableExists, hstore.isFile_table hname]
    simp
  obtain ⟨e, store', hrun, hexists⟩ :=
    createTable_keyedColumns rfl Contents.consistent_none hstore hname rfl htable hindex
  refine ⟨Reachable.opened_reachable, hparse, hnone, e, store', ?_, hexists⟩
  rw [execute_run hparse]
  exact hrun

end Database

end TableStore
