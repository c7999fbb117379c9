import TableStore.Proofs.Store.Twins

namespace TableStore

open FileSystem (Location)
open Store (isName)

/-- Stores over the same files that hold the same consistent tables. -/
structure Alike (store twin : Store) : Prop where
  beside : SameFiles store twin
  holds : ∃ config home contents, config.fault? = none ∧ contents.Consistent ∧
    Holds config home contents store ∧ Holds config home contents twin

section

variable {store twin : Store} {table : String} {document : TableDocument} {schema : Schema}

theorem Alike.names_of_document (h : Alike store twin)
    (hdocument : store.document table = .ok (document, schema)) :
    isName table = true ∧ ∀ name ∈ schema.names, isName name = true := by
  obtain ⟨config, home, contents, -, hc, hstore, -⟩ := h.holds
  rw [hstore.document hc] at hdocument
  obtain ⟨found, hfound, heq⟩ := map_eq_ok.mp hdocument
  obtain ⟨-, rfl⟩ := Prod.mk.inj heq
  obtain ⟨hname, hfound⟩ := Contents.table_eq_ok.mp hfound
  exact ⟨hname, (hc.tables hfound).names⟩

theorem Alike.isName_of_document (h : Alike store twin)
    (hdocument : store.document table = .ok (document, schema)) : isName table = true :=
  (h.names_of_document hdocument).1

theorem Alike.plan (h : Alike store twin) (table : String) (hint : Option IndexHint) :
    twin.plan table hint = store.plan table hint := by
  obtain ⟨config, home, contents, -, hc, hstore, htwin⟩ := h.holds
  cases hint with
  | none => rfl
  | some hint => rw [Store.plan, Store.plan, hstore.hasIndex hc, htwin.hasIndex hc]

theorem Store.isName_of_checkTable (h : store.checkTable table = .ok ()) : isName table = true := by
  rw [Store.checkTable] at h
  split at h
  · rename_i hexists
    exact (Bool.and_eq_true_iff.mp hexists).1
  · cases h

end

namespace Follows

theorem index_alike {table : String} (htable : isName table = true) (column : String) :
    Follows Alike Alike (Operation.index table column) := by
  intro store twin h
  obtain ⟨config, home, contents, hconfig, hc, hstore, htwin⟩ := h.holds
  obtain ⟨hresult, hafter⟩ := Answers.index htable column store hstore
  obtain ⟨hresult', hafter'⟩ := Answers.index htable column twin htwin
  obtain ⟨hfiles, hsettings⟩ := Quiet.index table column store
  obtain ⟨hfiles', hsettings'⟩ := Quiet.index table column twin
  refine ⟨hresult'.trans hresult.symm, ⟨?_, ?_, fun _ hno ↦ hno.elim, ?_⟩,
    config, home, contents, hconfig, hc, hafter, hafter'⟩
  · rw [hfiles', hfiles, h.beside.files]
  · rw [hsettings', hsettings, h.beside.config]
  · exact h.beside.tidy.imp (·.index htable column) (·.index htable column)

theorem indexEntry {table : String} (htable : isName table = true) (row : Row) (column : String) :
    Follows Alike Alike (Operation.indexEntry table row column) :=
  bind (ofResult _) id fun _ _ ↦ bind (index_alike htable column) id fun _ _ ↦ pure _

theorem indexMove {table : String} (htable : isName table = true) (old new : Row)
    (column : String) : Follows Alike Alike (Operation.indexMove table old new column) :=
  bind (ofResult _) id fun _ _ ↦ bind (ofResult _) id fun _ _ ↦
    bind (index_alike htable column) id fun _ _ ↦ pure _

theorem candidates {table : String} (htable : isName table = true) (plan : ScanPlan) :
    Follows Alike Alike (Operation.candidates table plan) := by
  cases plan with
  | full => exact pure _
  | index column low high => exact bind (index_alike htable column) id fun _ _ ↦ pure _

theorem scan (table : String) (predicate : Predicate) :
    Follows Alike Alike (Operation.scan table predicate) := by
  refine bind (ask fun h ↦ h.beside.document table) id ?_
  rintro ⟨document, schema⟩ ⟨store, twin, h, hdocument⟩
  have htable := h.isName_of_document hdocument
  refine bind (ask fun h ↦ h.beside.decodeRows document schema) id fun rows _ ↦ ?_
  refine get_bind (fun h ↦ ?_) fun store ↦ bind (candidates htable _) id fun _ _ ↦ ofResult _
  rw [h.plan]

theorem read (table : String) (rowId : Int64) :
    Follows Alike Alike (Operation.read table rowId) := by
  refine bind (ask fun h ↦ h.beside.document table) id ?_
  rintro ⟨document, schema⟩ ⟨store, twin, h, hdocument⟩
  have htable := h.isName_of_document hdocument
  refine bind (index_alike htable _) id fun tree _ ↦ bind (ofResult _) id fun found _ ↦ ?_
  split
  · exact bind (ask fun h ↦ h.beside.decodeRows document schema) id fun _ _ ↦ pure _
  · exact pure _

theorem tableIndex (table column : String) :
    Follows Alike Alike (Operation.tableIndex table column) := by
  refine bind (ask fun h ↦ h.beside.checkTable table) id ?_
  rintro ⟨⟩ ⟨store, twin, -, hcheck⟩
  exact index_alike (Store.isName_of_checkTable hcheck) column

theorem createIndex (table column : String) :
    Follows Alike SameFiles (Operation.createIndex table column) := by
  refine bind (ask fun h ↦ h.beside.document table) Alike.beside ?_
  rintro ⟨document, schema⟩ ⟨store, twin, h, hdocument⟩
  obtain ⟨htable, hnames⟩ := h.names_of_document hdocument
  refine bind (ofResult _) Alike.beside ?_
  rintro ⟨⟩ ⟨_, _, -, hindexable⟩
  obtain ⟨definition, hdefinition, rfl, -⟩ := Contents.checkIndexable_eq_ok hindexable
  have hcolumn := hnames _ (List.mem_map_of_mem hdefinition)
  refine bind (ask fun h ↦ h.beside.decodeRows document schema) Alike.beside fun rows _ ↦ ?_
  refine bind (ask fun h ↦ by rw [h.beside.config]) Alike.beside fun tree _ ↦ ?_
  refine mono Alike.beside (bind (writeIndex _ _ tree) id fun _ _ ↦ ?_) id
  exact remember htable hcolumn tree

/-- What is in memory decides only about an index without a file, and then it is in neither. -/
theorem dropIndex (table column : String) :
    Follows Alike SameFiles (Operation.dropIndex table column) := by
  refine bind (ofResult _) Alike.beside ?_
  rintro ⟨⟩ ⟨_, _, -, htable⟩
  refine bind (ofResult _) Alike.beside ?_
  rintro ⟨⟩ ⟨_, _, -, hcolumn⟩
  have htable' := Contents.checkName_eq_ok.mp htable
  have hcolumn' := Contents.checkName_eq_ok.mp hcolumn
  refine get_bind (fun {store twin} h ↦ ?_) fun store ↦ mono Alike.beside ?_ id
  · obtain ⟨config, home, contents, -, -, hstore, htwin⟩ := h.holds
    simp only [hstore.isFile_index htable' hcolumn', htwin.isFile_index htable' hcolumn']
    cases htree : contents.index? table column with
    | some tree => rfl
    | none =>
      rw [hstore.lookup_eq_none htable' hcolumn' htree, htwin.lookup_eq_none htable' hcolumn' htree]
  · refine bind (forget _) id fun _ _ ↦ ?_
    split
    · exact removeIndexFile table column
    · exact ofResult _

end Follows

/-- Operations, one for each column, that read the index over the column into memory. -/
def Fetches (table : String) {β : Type} (entry : String → Operation β) : Prop :=
  ∀ column {store b store'}, (entry column).run store = (.ok b, store') →
    ∀ key, key = (table, column) ∨ (store.cache.lookup key).isSome = true →
      (store'.cache.lookup key).isSome = true

namespace Fetches

variable {table : String} {β : Type}

theorem index (table : String) : Fetches table (Operation.index table) := by
  intro column store tree store' hrun key hkey
  rw [Operation.run_index] at hrun
  split at hrun
  · cases (Prod.mk.inj hrun).1
  · split at hrun
    · rename_i hcached
      obtain ⟨-, rfl⟩ := Prod.mk.inj hrun
      rcases hkey with rfl | hkey
      · rw [hcached]
        rfl
      · exact hkey
    · split at hrun
      · cases (Prod.mk.inj hrun).1
      · obtain ⟨-, rfl⟩ := Prod.mk.inj hrun
        rw [Store.lookup_remembering]
        split
        · rfl
        · rename_i hne
          exact hkey.resolve_left hne

theorem indexEntry (table : String) (row : Row) : Fetches table (Operation.indexEntry table row) := by
  intro column store entry store' hrun
  obtain ⟨key, -, hrun⟩ := Operation.run_ask_bind_eq_ok.mp hrun
  obtain ⟨tree, middle, hindex, hpure⟩ := Operation.run_bind_eq_ok.mp hrun
  obtain ⟨-, rfl⟩ := Prod.mk.inj hpure
  exact index table column hindex

theorem indexMove (table : String) (old new : Row) :
    Fetches table (Operation.indexMove table old new) := by
  intro column store entry store' hrun
  obtain ⟨oldKey, -, hrun⟩ := Operation.run_ask_bind_eq_ok.mp hrun
  obtain ⟨newKey, -, hrun⟩ := Operation.run_ask_bind_eq_ok.mp hrun
  obtain ⟨tree, middle, hindex, hpure⟩ := Operation.run_bind_eq_ok.mp hrun
  obtain ⟨-, rfl⟩ := Prod.mk.inj hpure
  exact index table column hindex

theorem mapM {entry : String → Operation β} (h : Fetches table entry) {columns : List String}
    {bs : List β} {store store' : Store} (hrun : (columns.mapM entry).run store = (.ok bs, store')) :
    ∀ key, (∃ column ∈ columns, key = (table, column)) ∨ (store.cache.lookup key).isSome = true →
      (store'.cache.lookup key).isSome = true := by
  induction columns generalizing store bs with
  | nil =>
    obtain ⟨-, rfl⟩ := Prod.mk.inj hrun
    rintro key (⟨column, hcolumn, -⟩ | hkey)
    · cases hcolumn
    · exact hkey
  | cons column columns ih =>
    rw [List.mapM_cons] at hrun
    obtain ⟨b, middle, hfirst, hrest⟩ := Operation.run_bind_eq_ok.mp hrun
    obtain ⟨others, last, hothers, hpure⟩ := Operation.run_bind_eq_ok.mp hrest
    obtain ⟨-, rfl⟩ := Prod.mk.inj hpure
    rintro key (⟨other, hother, rfl⟩ | hkey)
    · apply ih hothers
      rcases List.mem_cons.mp hother with rfl | hother
      · exact .inr (h _ hfirst _ (.inl rfl))
      · exact .inl ⟨other, hother, rfl⟩
    · exact ih hothers key (.inr (h _ hfirst _ (.inr hkey)))

end Fetches

/-- Once all indexes of a table are in memory, both stores keep the same ones over its columns. -/
theorem Alike.sameIndexes {store twin : Store} {table : String} {columns : List String}
    (h : Alike store twin) (hcolumns : store.listIndexes table = .ok columns)
    (hstore : ∀ column ∈ columns, (store.cache.lookup (table, column)).isSome = true)
    (htwin : ∀ column ∈ columns, (twin.cache.lookup (table, column)).isSome = true) :
    SameIndexes table store twin where
  files := h.beside.files
  config := h.beside.config
  tidy := h.beside.tidy
  same := by
    rintro ⟨other, column⟩ hkey
    obtain rfl : table = other := hkey.symm
    obtain ⟨config, home, contents, -, hc, hholds, hholds'⟩ := h.holds
    by_cases hnames : isName table = true ∧ isName column = true
    · obtain ⟨htable, hcolumn⟩ := hnames
      cases htree : contents.index? table column with
      | none =>
        rw [hholds.lookup_eq_none htable hcolumn htree, hholds'.lookup_eq_none htable hcolumn htree]
      | some tree =>
        obtain ⟨found, hfound, hlookup⟩ := Option.bind_eq_some_iff.mp htree
        rw [hholds.listIndexes hc hfound] at hcolumns
        have hmem : column ∈ columns := by
          rw [← Except.ok.inj hcolumns]
          exact Table.mem_columns.mpr (mem_names_of_lookup hlookup)
        rw [hholds.lookup_eq_some htable hcolumn htree (hstore column hmem),
          hholds'.lookup_eq_some htable hcolumn htree (htwin column hmem)]
    · rw [Option.not_isSome_iff_eq_none.mp fun hsome ↦ hnames (h.beside.tidy.1 _ hsome),
        Option.not_isSome_iff_eq_none.mp fun hsome ↦ hnames (h.beside.tidy.2 _ hsome)]

namespace Follows

/-- A change of a table goes on from where all its indexes are in memory. Between the write of the table
and that of its last index the stores hold no tables. There they go the same way because no index is
read from its file any more. -/
theorem of_indexes {table : String} {β : Type} {entry : String → Operation β}
    {rest : List β → Operation Unit} (hentry : ∀ column, Follows Alike Alike (entry column))
    (hquiet : ∀ column, Quiet (entry column)) (hfetches : Fetches table entry)
    (hrest : ∀ bs, Follows (SameIndexes table) (SameIndexes table) (rest bs)) :
    Follows Alike SameFiles (do
      let columns ← Operation.ask fun store ↦ store.listIndexes table
      let bs ← columns.mapM entry
      rest bs) := by
  intro store twin h
  rw [Operation.run_bind, Operation.run_bind, Operation.run_ask, Operation.run_ask,
    h.beside.listIndexes]
  cases hcolumns : store.listIndexes table with
  | error e => exact ⟨rfl, h.beside⟩
  | ok columns =>
    obtain ⟨hresult, hafter⟩ := @mapM Alike _ _ columns entry hentry store twin h
    simp only [Operation.run_bind]
    rcases hrun : (columns.mapM entry).run store with ⟨r, store'⟩
    rcases hrun' : (columns.mapM entry).run twin with ⟨r', twin'⟩
    rw [hrun, hrun'] at hresult hafter
    obtain rfl : r' = r := hresult
    cases r' with
    | error e => exact ⟨rfl, hafter.beside⟩
    | ok bs =>
      obtain ⟨hfiles, hconfig⟩ := (Quiet.mapM hquiet).of_run hrun
      have hcolumns' : store'.listIndexes table = .ok columns := by
        rw [Store.listIndexes, hfiles, hconfig]
        exact hcolumns
      have hsame := hafter.sameIndexes hcolumns'
        (fun column hcolumn ↦ hfetches.mapM hrun _ (.inl ⟨column, hcolumn, rfl⟩))
        (fun column hcolumn ↦ hfetches.mapM hrun' _ (.inl ⟨column, hcolumn, rfl⟩))
      exact (hrest bs store' twin' hsame).imp id Beside.weaken

theorem insert (table : String) (row : Row) :
    Follows Alike SameFiles (Operation.insert table row) := by
  refine bind (ask fun h ↦ h.beside.document table) Alike.beside ?_
  rintro ⟨document, schema⟩ ⟨store, twin, h, hdocument⟩
  have htable := h.isName_of_document hdocument
  refine bind (ofResult _) Alike.beside fun record _ ↦ ?_
  refine of_indexes (indexEntry htable row) (Quiet.indexEntry table row)
    (Fetches.indexEntry table row) fun keys ↦ bind (writeTable _) id fun _ _ ↦ forM ?_
  exact fun entry _ ↦ changeIndex htable _ _

theorem update (table : String) (position : Nat) (row : Row) :
    Follows Alike SameFiles (Operation.update table position row) := by
  refine bind (ask fun h ↦ h.beside.document table) Alike.beside ?_
  rintro ⟨document, schema⟩ ⟨store, twin, h, hdocument⟩
  have htable := h.isName_of_document hdocument
  refine bind (ofResult _) Alike.beside fun _ _ ↦ bind (ofResult _) Alike.beside fun record _ ↦ ?_
  refine bind (ask fun h ↦ h.beside.decodeAt document schema position) Alike.beside fun old _ ↦ ?_
  refine of_indexes (indexMove htable old row) (Quiet.indexMove table old row)
    (Fetches.indexMove table old row) fun moves ↦
      bind (ofResult _) id fun _ _ ↦ bind (writeTable _) id fun _ _ ↦ forM ?_
  exact fun entry _ ↦ changeIndex htable _ _

theorem delete (table : String) (position : Nat) :
    Follows Alike SameFiles (Operation.delete table position) := by
  refine bind (ask fun h ↦ h.beside.document table) Alike.beside ?_
  rintro ⟨document, schema⟩ ⟨store, twin, h, hdocument⟩
  have htable := h.isName_of_document hdocument
  refine bind (ofResult _) Alike.beside fun _ _ ↦ ?_
  refine bind (ask fun h ↦ h.beside.decodeAt document schema position) Alike.beside fun old _ ↦ ?_
  refine of_indexes (indexEntry htable old) (Quiet.indexEntry table old)
    (Fetches.indexEntry table old) fun keys ↦
      bind (ofResult _) id fun _ _ ↦ bind (writeTable _) id fun _ _ ↦ forM ?_
  exact fun entry _ ↦ changeIndex htable _ _

theorem of_carries {op : Operation Unit} {next : Config → Contents → Except Error Contents}
    (h : ∀ {config home contents}, contents.Consistent →
      Carries config home contents op (next config contents))
    (hnext : ∀ {config contents contents'}, config.fault? = none → contents.Consistent →
      next config contents = .ok contents' → contents'.Consistent)
    (hfiles : Follows Alike SameFiles op) : Follows Alike Alike op := by
  intro store twin hstores
  obtain ⟨hresult, hbeside⟩ := hfiles store twin hstores
  obtain ⟨config, home, contents, hconfig, hc, hstore, htwin⟩ := hstores.holds
  refine ⟨hresult, hbeside, config, home, _, hconfig, ?_, ((h hc).runs store hstore).2,
    ((h hc).runs twin htwin).2⟩
  cases hafter : next config contents with
  | error e => exact hc
  | ok contents' => exact hnext hconfig hc hafter

theorem closed : Closed (Follows Alike Alike) where
  pure := pure
  ofResult _ := ofResult _
  schema table := ask fun h ↦ h.beside.answer (·.schema table) fun _ _ ↦ rfl
  bind h hf := bind h id fun a _ ↦ hf a
  scan table condition := scan table (.ofCondition condition)
  insert table row := of_carries (fun hc ↦ Carries.insert hc table row)
    (fun _ hc hrun ↦ hc.insert hrun) (insert table row)
  update table position row := of_carries (fun hc ↦ Carries.update hc table position row)
    (fun _ hc hrun ↦ hc.update hrun) (update table position row)
  delete table position := of_carries (fun hc ↦ Carries.delete hc table position)
    (fun _ hc hrun ↦ hc.delete hrun) (delete table position)
  createTable table schema := of_carries (fun _ ↦ Carries.createTable table schema)
    (fun _ hc hrun ↦ hc.createTable hrun) (mono Alike.beside (createTable table schema) id)
  dropTable table := of_carries (fun hc ↦ Carries.dropTable hc table)
    (fun _ hc hrun ↦ hc.dropTable hrun) (mono Alike.beside (dropTable table) id)
  createIndex table column := of_carries (fun hc ↦ Carries.createIndex hc table column)
    (fun hconfig hc hrun ↦ hc.createIndex (Config.degree_of_fault? hconfig) hrun)
    (createIndex table column)

theorem dropIndex_alike (table column : String) :
    Follows Alike Alike (Operation.dropIndex table column) :=
  of_carries (fun _ ↦ Carries.dropIndex table column) (fun _ hc hrun ↦ hc.dropIndex hrun)
    (dropIndex table column)

end Follows

end TableStore
