import TableStore.Proofs.Database.Creation

namespace TableStore

open FileSystem (reach)
open Store (tableFile indexFile isName)

/-- A store with the standard settings that has a table with these rows, and indexes over these
columns. -/
def Stocked (name : String) (schema : Schema) (rows : List Row) (columns : List String)
    (store : Store) : Prop :=
  Reachable store ∧ ∃ home contents table, contents.Consistent ∧ Holds {} home contents store ∧
    contents name = some table ∧ table.schema = schema ∧ table.rows = rows ∧
    ∀ column, column ∈ table.columns ↔ column ∈ columns

namespace Stocked

variable {name : String} {schema : Schema} {rows : List Row} {columns : List String} {store : Store}

theorem rows_eq (h : Stocked name schema rows columns store) :
    store.rows name = .ok (schema, rows) := by
  obtain ⟨-, home, contents, table, hc, hstore, htable, rfl, rfl, -⟩ := h
  exact (hstore.holdsRows hc htable).rows_eq (hc.named htable)

theorem schema_eq (h : Stocked name schema rows columns store) : store.schema name = .ok schema := by
  obtain ⟨-, home, contents, table, hc, hstore, htable, rfl, -⟩ := h
  exact hstore.schema_eq hc htable

theorem hasIndex (h : Stocked name schema rows columns store) {column : String}
    (hcolumn : column ∈ columns) : store.hasIndex name column = true := by
  obtain ⟨-, home, contents, table, hc, hstore, htable, -, -, hcolumns⟩ := h
  exact (hstore.hasIndex_iff hc htable).mpr ((hcolumns column).mpr hcolumn)

theorem tableExists (h : Stocked name schema rows columns store) : store.tableExists name = true := by
  obtain ⟨-, home, contents, table, hc, hstore, htable, -⟩ := h
  rw [Store.tableExists, hc.named htable, hstore.isFile_table (hc.named htable), htable]
  rfl

theorem listIndexes (h : Stocked name schema rows columns store) (hnodup : columns.Nodup) :
    ∃ names, store.listIndexes name = .ok names ∧ names.Perm columns := by
  obtain ⟨-, home, contents, table, hc, hstore, htable, -, -, hcolumns⟩ := h
  exact ⟨table.columns, hstore.listIndexes hc htable,
    (List.perm_ext_iff_of_nodup (hc.tables htable).nodup_columns hnodup).mpr hcolumns⟩

theorem createTable (hname : isName name = true)
    (hnames : ∀ column ∈ schema.names, isName column = true)
    (hreach : reach ({} : Config).rootPath (tableFile name) = .ok ()) :
    Stocked name schema [] [] ((Call.createTable name schema).after Reachable.opened) := by
  obtain ⟨home, hstore⟩ := Reachable.opened_holds
  have hmade : Contents.createTable (fun _ ↦ none) name ({} : Config).rootPath schema = .ok _ :=
    Contents.createTable_eq_ok.mpr ⟨hname, hnames, rfl, hreach, rfl⟩
  have hcarries := (@Carries.createTable {} home (fun _ ↦ none) name schema).runs _ hstore
  rw [hmade] at hcarries
  exact ⟨.call Reachable.opened_reachable _, home, _, _,
    Contents.consistent_none.createTable hmade, hcarries.2, Contents.set_self _ _ _, rfl, rfl,
    fun column ↦ by simp [Table.columns]⟩

theorem createIndex (h : Stocked name schema [] columns store) {column : Column}
    (hcolumn : column ∈ schema.columns) (htype : column.type = .int)
    (hreach : reach ({} : Config).rootPath (indexFile name column.name) = .ok ()) :
    Stocked name schema [] (column.name :: columns)
      ((Call.createIndex name column.name).after store) := by
  obtain ⟨hstocked, home, contents, table, hc, hstore, htable, rfl, hrows, hcolumns⟩ := h
  have hdegree := Config.degree_of_fault? (show ({} : Config).fault? = none from rfl)
  obtain ⟨tree, hmade⟩ := hc.createIndex_eq hdegree htable hrows hcolumn htype
  rw [hreach] at hmade
  have hcarries := (@Carries.createIndex {} home _ hc name column.name).runs _ hstore
  rw [hmade] at hcarries
  refine ⟨.call hstocked _, home, _, _, hc.createIndex hdegree hmade, hcarries.2,
    Contents.set_self _ _ _, rfl, hrows, fun other ↦ ?_⟩
  rw [Table.mem_columns, ← isSome_lookup_iff, Table.lookup_withIndex, List.mem_cons, ← hcolumns,
    Table.mem_columns, ← isSome_lookup_iff]
  by_cases hother : other = column.name <;> simp [hother]

theorem insert (h : Stocked name schema rows columns store) {row : Row}
    (hrow : ∃ record, schema.encodeRow row = .ok record)
    (hkeys : ∀ column ∈ columns, ∃ key, row.get? column = some (.int key)) :
    ∃ after, (Operation.insert name row).run store = (.ok (), after) ∧
      Stocked name schema (rows ++ [row.project schema.names]) columns after := by
  obtain ⟨hstocked, home, contents, table, hc, hstore, htable, rfl, rfl, hcolumns⟩ := h
  have htakes : table.Takes row := ⟨hrow, fun column hcolumn ↦ hkeys column ((hcolumns column).mp hcolumn)⟩
  have hmade := hc.insert_of_takes htable htakes
  have hcarries := (@Carries.insert {} home _ hc name row).runs _ hstore
  rw [hmade] at hcarries
  refine ⟨_, Prod.ext hcarries.1 rfl, .call hstocked (.insert name row), home, _, _, hc.insert hmade,
    hcarries.2, Contents.set_self _ _ _, rfl, rfl, fun column ↦ ?_⟩
  rw [Table.insertRow, Table.columns_change]
  exact hcolumns column

theorem insertAll (h : Stocked name schema rows columns store) {others : List Row}
    (hothers : ∀ row ∈ others, schema.Keeps row ∧
      ∀ column ∈ columns, ∃ key, row.get? column = some (.int key)) :
    ∃ after, Stocked name schema (rows ++ others) columns after := by
  induction others generalizing rows store with
  | nil => exact ⟨store, by rwa [List.append_nil]⟩
  | cons row others ih =>
    obtain ⟨⟨hkeeps, hkeys⟩, hothers⟩ := List.forall_mem_cons.mp hothers
    obtain ⟨middle, -, hmiddle⟩ := h.insert hkeeps.encoded hkeys
    rw [hkeeps.project] at hmiddle
    obtain ⟨after, hafter⟩ := ih hmiddle hothers
    exact ⟨after, by rwa [List.append_assoc] at hafter⟩

end Stocked

def numbered : Schema where
  columns := [{ name := "Id", type := .int }, { name := "n", type := .int }]
  nodup := by decide

def numberedRow (id n : Int64) : Row := (Row.empty.set "Id" (.int id)).set "n" (.int n)

theorem keeps_numberedRow (id n : Int64) : numbered.Keeps (numberedRow id n) := ⟨rfl, _, rfl⟩

def idSeven : Expr := .binary (.column "Id") .eq (.literal (.int 7))

theorem Stocked.numbered (entries : List (Int64 × Int64)) : ∃ store, Stocked "t" numbered
    (entries.map fun entry ↦ numberedRow entry.1 entry.2) ["Id"] store := by
  have hempty := @createTable "t" TableStore.numbered (by decide) (by decide) (by decide +kernel)
  have hindexed := hempty.createIndex (show { name := "Id", type := .int } ∈ _ by decide) rfl
    (by decide +kernel)
  refine hindexed.insertAll fun row hrow ↦ ?_
  obtain ⟨entry, -, rfl⟩ := List.mem_map.mp hrow
  refine ⟨keeps_numberedRow _ _, fun column hcolumn ↦ ⟨entry.1, ?_⟩⟩
  rw [List.mem_singleton.mp hcolumn]
  rfl

end TableStore
