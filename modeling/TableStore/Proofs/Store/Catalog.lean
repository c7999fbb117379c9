import TableStore.Proofs.Store.Steps

namespace TableStore

open FileSystem (reach Location)
open Store (tableFile indexFile isName isName_of_eq_true isFileName_tableFile isFileName_indexFile)

namespace Table

theorem lookup_withoutIndex (table : Table) (column other : String) :
    (table.withoutIndex column).indexes.lookup other =
      if other = column then none else table.indexes.lookup other := by
  rw [withoutIndex, lookup_filter (fun other ↦ decide (other ≠ column))]
  by_cases h : other = column <;> simp [h]

theorem lookup_withIndex (table : Table) (column : String) (tree : BTree) (other : String) :
    (table.withIndex column tree).indexes.lookup other =
      if other = column then some tree else table.indexes.lookup other := by
  rw [withIndex, lookup_cons_if, lookup_withoutIndex]
  by_cases h : other = column
  · rw [if_pos h, if_pos h]
  · rw [if_neg h, if_neg h, if_neg h]

end Table

namespace Operation

theorem run_removeFile {root : Path} {home : Location} {store : Store}
    (h : FileSystem.Rooted store.files root home) {file : String}
    (hfile : FileSystem.IsFileName file) (hreach : reach root file = .ok ())
    (hentry : (store.files.entryAt? home file).isSome = true) :
    (removeFile (root.join file)).run store =
      (.ok (), { store with files := store.files.remove (home ++ [file]) }) := by
  rw [removeFile, run_changeFiles, h.removeFile_join hfile hreach hentry]

theorem run_forget (dropped : String × String → Bool) (store : Store) : (forget dropped).run store =
    (.ok (), { store with cache := store.cache.filter fun entry ↦ !dropped entry.1 }) := rfl

end Operation

section

variable {config : Config} {home : Location} {contents contents' : Contents} {store : Store}
  {name column : String} {table : Table}

theorem Holds.forget (h : Holds config home contents store) {files : FileSystem}
    {dropped : String × String → Bool} (hfiled : Filed config home contents' files)
    (hindexes : ∀ {name column}, isName name = true → isName column = true →
      contents'.index? name column =
        if dropped (name, column) then none else contents.index? name column) :
    Holds config home contents' ({ store with
      files := files, cache := store.cache.filter fun entry ↦ !dropped entry.1 } : Store) := by
  refine ⟨hfiled, h.settings, ?_, ?_⟩
  · intro name column tree hname hcolumn hcached
    rw [Store.lookup_forget] at hcached
    rw [hindexes hname hcolumn]
    cases hdropped : dropped (name, column) with
    | true => simp [hdropped] at hcached
    | false =>
      rw [hdropped] at hcached
      exact h.cache hname hcolumn hcached
  · intro name column tree hname hcolumn htree
    rw [hindexes hname hcolumn] at htree
    rw [Store.lookup_forget]
    cases hdropped : dropped (name, column) with
    | true => simp [hdropped] at htree
    | false =>
      rw [hdropped] at htree
      exact h.loaded hname hcolumn htree

theorem Carries.createTable (name : String) (schema : Schema) :
    Carries config home contents (Operation.createTable name schema)
      (contents.createTable name config.rootPath schema) := by
  rw [Operation.createTable, Contents.createTable]
  apply Carries.bind_id (Quiet.ofResult _) (Answers.ofResult _)
  rintro ⟨⟩ hname
  apply Carries.bind_id (Quiet.ofResult _) (Answers.ofResult _)
  rintro ⟨⟩ -
  have hname' := Contents.checkName_eq_ok.mp hname
  apply Carries.bind_id (Quiet.ask _)
  · apply Answers.ask
    intro store hstore
    rw [hstore.entryExists_table hname', Option.not_isSome]
  rintro ⟨⟩ hnone
  have hnone' := Option.isNone_iff_eq_none.mp (ensure_eq_ok.mp hnone)
  refine @Carries.writeTable config home contents name ⟨schema, [], []⟩ hname' fun column ↦ ?_
  rw [Contents.index?, hnone']
  rfl

theorem Carries.createIndex (hc : contents.Consistent) (name column : String) :
    Carries config home contents (Operation.createIndex name column)
      (contents.createIndex name config.rootPath config.indexDegree column) := by
  rw [Operation.createIndex, Contents.createIndex]
  apply Carries.bind (Quiet.ask _) (Answers.ask fun store hstore ↦ hstore.document hc name)
  intro table htable
  obtain ⟨hname, htable⟩ := Contents.table_eq_ok.mp htable
  apply Carries.bind_id (Quiet.ofResult _) (Answers.ofResult _)
  rintro ⟨⟩ hindexable
  apply Carries.bind_ok (Quiet.ask _)
    (Answers.ask fun store _ ↦ Holds.decodeRows table (hc.tables htable) store name)
  apply Carries.bind_id (Quiet.ask _) (Answers.ask fun store hstore ↦ by rw [hstore.settings])
  intro tree _
  obtain ⟨definition, hdefinition, hcolumn, -⟩ := Contents.checkIndexable_eq_ok hindexable
  have hcolumn' : isName column = true :=
    (hc.tables htable).names column (hcolumn ▸ List.mem_map_of_mem hdefinition)
  exact Carries.putIndex hname hcolumn' htable rfl (table.lookup_withIndex column tree)

theorem Carries.dropIndex (name column : String) :
    Carries config home contents (Operation.dropIndex name column) (contents.dropIndex name column) := by
  rw [Operation.dropIndex, Contents.dropIndex]
  apply Carries.bind_id (Quiet.ofResult _) (Answers.ofResult _)
  rintro ⟨⟩ hname
  apply Carries.bind_id (Quiet.ofResult _) (Answers.ofResult _)
  rintro ⟨⟩ hcolumn
  have hname' := Contents.checkName_eq_ok.mp hname
  have hcolumn' := Contents.checkName_eq_ok.mp hcolumn
  have hfile := isFileName_indexFile (isName_of_eq_true hname') (isName_of_eq_true hcolumn')
  cases htree : contents.index? name column with
  | none =>
    refine ⟨fun store h ↦ ?_, fun _ _ store h ↦ ?_⟩
    · simp only [Operation.run_bind, Operation.run_get, Operation.run_forget,
        h.isFile_index hname' hcolumn', htree, h.lookup_eq_none hname' hcolumn' htree]
      have hforget := @Holds.forget config home contents contents store h store.files
        (fun key ↦ decide (key = (name, column))) h.toFiled fun {other column'} _ _ ↦ by
          by_cases hkey : (other, column') = (name, column)
          · obtain ⟨rfl, rfl⟩ := Prod.mk.inj hkey
            rw [htree, ite_self]
          · rw [if_neg (by simpa using hkey)]
      exact ⟨rfl, hforget⟩
    · simp only [Operation.run_bind, Operation.run_get, Operation.run_forget,
        h.isFile_index hname' hcolumn', htree, h.lookup_eq_none hname' hcolumn' htree]
      rfl
  | some tree =>
    obtain ⟨table, htable, hlookup⟩ := Option.bind_eq_some_iff.mp htree
    have hmodel : (do
        let table ← contents.table name
        return contents.set name (table.withoutIndex column) : Except Error Contents) =
          .ok (contents.set name (table.withoutIndex column)) := by
      rw [Contents.table_eq_ok.mpr ⟨hname', htable⟩]
      rfl
    simp only [Option.isSome_some, ensure_true, ok_bind, hmodel]
    apply Carries.of_runs
    intro store h
    have hreach := h.reach_index hname' hcolumn' htree
    have hentry : (store.files.entryAt? home (indexFile name column)).isSome = true := by
      rw [h.indexes hname' hcolumn', htree]
      rfl
    have hrun := @Operation.run_removeFile config.rootPath home
      { store with cache := store.cache.filter fun entry ↦ !decide (entry.1 = (name, column)) } h.rooted
      _ hfile hreach hentry
    rw [← h.indexPath] at hrun
    replace hrun := (Operation.run_removeIndexFile name column _).trans hrun
    simp only [Operation.run_bind, Operation.run_get, Operation.run_forget,
      h.isFile_index hname' hcolumn', htree, Option.isSome_some, if_true, hrun]
    have hfiled : Filed config home (contents.set name (table.withoutIndex column)) _ :=
      h.toFiled.remove_index hname' hcolumn' htable rfl (table.lookup_withoutIndex column)
    have hforget := @Holds.forget config home contents _ store h _
      (fun key ↦ decide (key = (name, column))) hfiled fun {other column'} _ _ ↦ by
        rw [Contents.index?_set]
        by_cases hother : other = name
        · rw [if_pos hother, Table.lookup_withoutIndex, hother, Contents.index?_of_some htable]
          simp
        · rw [if_neg hother, if_neg (by simp [hother])]
    exact ⟨trivial, hforget⟩

theorem Operation.run_removeIndexFiles {columns : List String}
    (h : FileSystem.Rooted store.files store.config.rootPath home) (hname : isName name = true)
    (hnodup : columns.Nodup) (hcolumns : ∀ column ∈ columns, isName column = true ∧
      reach store.config.rootPath (indexFile name column) = .ok () ∧
        (store.files.entryAt? home (indexFile name column)).isSome = true) :
    (columns.forM (Operation.removeIndexFile name)).run store = (.ok (),
      { store with files := store.files.removeAll home (columns.map (indexFile name)) }) := by
  induction columns generalizing store with
  | nil => rfl
  | cons column columns ih =>
    obtain ⟨hfresh, hnodup⟩ := List.nodup_cons.mp hnodup
    obtain ⟨⟨hcolumn, hreach, hentry⟩, hcolumns⟩ := List.forall_mem_cons.mp hcolumns
    have hfile := isFileName_indexFile (isName_of_eq_true hname) (isName_of_eq_true hcolumn)
    have hrun : (Operation.removeIndexFile name column).run store = _ :=
      (Operation.run_removeIndexFile name column store).trans
        (Operation.run_removeFile h hfile hreach hentry)
    have hrest := @ih { store with files := store.files.remove (home ++ [indexFile name column]) }
      (h.remove hfile) hnodup fun other hother ↦ by
        obtain ⟨hother', hreach', hentry'⟩ := hcolumns other hother
        have hne : indexFile name other ≠ indexFile name column := by
          intro heq
          obtain ⟨-, rfl⟩ := Store.indexFile_inj (isName_of_eq_true hname).noDot
            (isName_of_eq_true hname).noDot heq
          exact hfresh hother
        refine ⟨hother', hreach', ?_⟩
        rwa [FileSystem.entryAt?_remove, if_neg hne]
    show (Operation.removeIndexFile name column >>= fun _ ↦
      columns.forM (Operation.removeIndexFile name)).run store = _
    rw [Operation.run_bind, hrun]
    exact hrest

theorem Filed.removeIndexes {files : FileSystem} {columns : List String}
    (h : Filed config home contents files) (hname : isName name = true)
    (htable : contents name = some table) (hcolumns : ∀ column ∈ columns, isName column = true) :
    Filed config home (contents.set name (columns.foldl Table.withoutIndex table))
      (files.removeAll home (columns.map (indexFile name))) := by
  induction columns generalizing contents table files with
  | nil =>
    rw [List.foldl_nil, Contents.set_eq_self htable]
    exact h
  | cons column columns ih =>
    obtain ⟨hcolumn, hcolumns⟩ := List.forall_mem_cons.mp hcolumns
    have hremoved : Filed config home (contents.set name (table.withoutIndex column)) _ :=
      h.remove_index hname hcolumn htable rfl (table.lookup_withoutIndex column)
    have hfiled := ih hremoved (Contents.set_self _ _ _) hcolumns
    rwa [Contents.set_set] at hfiled

theorem Table.lookup_foldl_withoutIndex (columns : List String) (table : Table) (other : String) :
    (columns.foldl Table.withoutIndex table).indexes.lookup other =
      if other ∈ columns then none else table.indexes.lookup other := by
  induction columns generalizing table with
  | nil => simp
  | cons column columns ih =>
    rw [List.foldl_cons, ih, Table.lookup_withoutIndex]
    by_cases hother : other = column <;> simp [hother]

theorem Holds.checkTable (h : Holds config home contents store) (hc : contents.Consistent)
    (name : String) :
    store.checkTable name = ensure (contents name).isSome (.tableNotFound name) := by
  rw [Store.checkTable, Store.tableExists]
  cases hname : isName name with
  | false =>
    cases htable : contents name with
    | none => rfl
    | some table =>
      rw [hc.named htable] at hname
      cases hname
  | true =>
    rw [Bool.true_and, h.isFile_table hname]
    rfl

theorem Carries.dropTable (hc : contents.Consistent) (name : String) :
    Carries config home contents (Operation.dropTable name) (contents.dropTable name) := by
  rw [Operation.dropTable, Contents.dropTable]
  apply Carries.bind_id (Quiet.ask _) (Answers.ask fun store hstore ↦ hstore.checkTable hc name)
  rintro ⟨⟩ hsome
  obtain ⟨table, htable⟩ := Option.isSome_iff_exists.mp (ensure_eq_ok.mp hsome)
  have hname := hc.named htable
  have hconsistent := hc.tables htable
  apply Carries.bind_ok (Quiet.ask _)
    (Answers.ask fun store hstore ↦ hstore.listIndexes hc htable)
  apply Carries.of_runs
  intro store h
  have hcolumns : ∀ column ∈ table.columns,
      isName column = true ∧ (contents.index? name column).isSome = true := by
    intro column hcolumn
    rw [Contents.index?_of_some htable]
    exact ⟨hconsistent.names column (hconsistent.mem_names hcolumn),
      isSome_lookup_iff.mpr (Table.mem_columns.mp hcolumn)⟩
  have hentries : ∀ column ∈ table.columns, isName column = true ∧
      reach store.config.rootPath (indexFile name column) = .ok () ∧
        (store.files.entryAt? home (indexFile name column)).isSome = true := by
    intro column hcolumn
    obtain ⟨hcolumnName, hindex⟩ := hcolumns column hcolumn
    have hfile : (store.files.entryAt? home (indexFile name column)).isSome = true := by
      rw [h.indexes hname hcolumnName, Option.isSome_map, hindex]
    exact ⟨hcolumnName, h.settings ▸ h.reach hfile, hfile⟩
  have hrun := Operation.run_removeIndexFiles (h.settings ▸ h.rooted) hname
    hconsistent.nodup_columns hentries
  have hfiled := h.toFiled.removeIndexes hname htable fun column hcolumn ↦ (hcolumns column hcolumn).1
  have hnone : ∀ column,
      (contents.set name (table.columns.foldl Table.withoutIndex table)).index? name column =
      none := by
    intro column
    rw [Contents.index?_set, if_pos rfl, Table.lookup_foldl_withoutIndex]
    by_cases hcolumn : column ∈ table.columns
    · exact if_pos hcolumn
    · rw [if_neg hcolumn]
      exact lookup_eq_none_of_not_mem fun hmem ↦ hcolumn (Table.mem_columns.mpr hmem)
  have hfiled' := hfiled.remove_table hname hnone
  have herase : (contents.set name (table.columns.foldl Table.withoutIndex table)).erase name =
      contents.erase name := by
    funext other
    by_cases hother : other = name
    · rw [Contents.erase, Contents.erase, if_pos hother, if_pos hother]
    · rw [Contents.erase_of_ne _ hother, Contents.erase_of_ne _ hother, Contents.set_of_ne _ hother]
  rw [herase] at hfiled'
  have hforget :=
    @Holds.forget config home contents _ store h _ (fun key ↦ decide (key.1 = name)) hfiled'
    fun {other column} _ _ ↦ by
      rw [Contents.index?_erase]
      by_cases hother : other = name <;> simp [hother]
  have hentry : ((store.files.removeAll home (table.columns.map (indexFile name))).entryAt? home
      (tableFile name)).isSome = true := by
    rw [hfiled.tables hname, Contents.set_self]
    rfl
  have hremove := @Operation.run_removeFile config.rootPath home
    { store with
      files := store.files.removeAll home (table.columns.map (indexFile name))
      cache := store.cache.filter fun entry ↦ !decide (entry.1.1 = name) }
    hfiled.rooted _ (isFileName_tableFile (isName_of_eq_true hname)) (hfiled.reach hentry) hentry
  rw [← h.tablePath] at hremove
  simp only [Operation.run_bind, hrun, Operation.run_forget, Operation.run_get]
  refine ⟨congrArg Prod.fst hremove, ?_⟩
  exact (congrArg (Holds config home (contents.erase name)) (congrArg Prod.snd hremove)).mpr hforget

end

end TableStore
